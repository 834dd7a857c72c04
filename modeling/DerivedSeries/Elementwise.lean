import DerivedSeries.Evaluation
import DerivedSeries.Text.Blank

/-!
# Elementwise functions

The functions that change every sample of the first group's series and nothing else. Later groups
are left out.
-/

namespace DerivedSeries.Elementwise

/-- The first group of the input. -/
def firstGroup : Input → Evaluation (List Series)
  | [] => Evaluation.fail .noInput
  | [group] => return group
  | group :: others => do
    Evaluation.report (.ignoringGroups others.length)
    return group

def absolute (input : Input) : Evaluation (List Series) := do
  return (← firstGroup input).map (Series.mapSamples Sample.abs)

/-- Reads the factor of a scaling. Quotes anywhere in the parameter do not count. -/
def factor (params : List String) : Except Error Float :=
  match params with
  | [] => .error .missingFactor
  | raw :: _ =>
    let bare := String.ofList (raw.toList.filter fun c => c != '\'' && c != '"')
    (Decimal.read (Text.trim bare)).mapError (.unreadableFactor raw)

def scale (input : Input) (params : List String) : Evaluation (List Series) := do
  let f ← Evaluation.ofExcept (factor params)
  return (← firstGroup input).map (Series.mapSamples (Sample.scale f))

end DerivedSeries.Elementwise
