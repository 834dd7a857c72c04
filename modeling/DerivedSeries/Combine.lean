import DerivedSeries.Config
import DerivedSeries.Evaluation
import DerivedSeries.Merge
import DerivedSeries.MovingAverage

/-!
# Combining series

The functions that merge several series into one, which keeps the metadata of the first series of
the input: sums, products, differences, quotients and moving averages. A difference is a sum with
a negated view, a quotient a product with a view of reciprocals.
-/

namespace DerivedSeries.Combine

variable {σ : Type}

/-- The merged points of views under the metadata of a series. -/
def merged (a : Aggregator σ) (c : Config) (first : Series) (views : List View) : Series :=
  first.blank.insertAll (Merge.points a c.fill views)

def merge (a : Aggregator σ) (c : Config) (first : Series) (views : List View) :
    Evaluation Series := do
  Evaluation.report (.merging a.name views.length first.metric)
  return merged a c first views

/-- Merges every series of the input. Without a first series to take the metadata from, the result
is a series without name and samples, so that calls around this one still have their operand. -/
def all (a : Aggregator σ) (c : Config) (w : Window) (input : Input) :
    Evaluation (List Series) := do
  if input.isEmpty then Evaluation.fail .noInput
  else
    let views ← Evaluation.ofExcept (View.identities w input.series)
    match input.first? with
    | none => return [{}]
    | some first => return [← merge a c first views]

/-- The two operands: two groups of one series each, or one group of two. -/
def operands (input : Input) : Except Error (Series × Series) :=
  match input with
  | [] => .error .noInput
  | [[x], [y]] => .ok (x, y)
  | [[x, y]] => .ok (x, y)
  | _ => .error (.operandShape input.length input.size)

/-- Merges the first operand with a transformed view of the second. -/
def pair (a : Aggregator σ) (t : Transform) (c : Config) (w : Window) (input : Input) :
    Evaluation (List Series) := do
  let (x, y) ← Evaluation.ofExcept (operands input)
  let xs ← Evaluation.ofExcept (View.ofSeries w .identity x)
  let ys ← Evaluation.ofExcept (View.ofSeries w t y)
  return [← merge a c x [xs, ys]]

/-- The moving average of all series merged, over the span of the first parameter. Without any
group there is nothing to average and no parameter is looked at. -/
def smooth (c : Config) (w : Window) (input : Input) (params : List String) :
    Evaluation (List Series) := do
  if input.isEmpty then return []
  else
    let span ← Evaluation.ofExcept (Span.ofParams params)
    let views ← Evaluation.ofExcept (View.identities w input.series)
    match input.first? with
    | none => return [{}]
    | some first =>
      Evaluation.report (.averaging span views.length)
      return [merged (.movingAverage span) c first views]

end DerivedSeries.Combine
