import DerivedSeries.Error
import DerivedSeries.Sample
import DerivedSeries.Text.Blank

/-!
# Interpolation

When series are merged, one that has no sample at a time but has samples before and after it
contributes an estimate. A policy says which; the estimate is an integer when both neighbours are.
-/

namespace DerivedSeries

inductive Interpolation where
  /-- On the line between the two neighbours. -/
  | lerp
  /-- Zero if missing. -/
  | zim
  /-- The greatest value of the kind. -/
  | max
  /-- The least value of the kind. -/
  | min
  deriving DecidableEq, Repr, Inhabited

namespace Interpolation

/-- On the line from `y₀` to `y₁`, `offset` of the way of length `span`; the distance from `y₀` is
truncated. -/
def lerpInt (y₀ y₁ offset span : Int) : Int :=
  y₀ + ((y₁ - y₀) * offset).tdiv span

def lerpFloat (y₀ y₁ offset span : Float) : Float :=
  y₀ + (y₁ - y₀) * offset / span

/-- The sample on the line between two points, or the first of them if they share their time. -/
def lerpBetween (a b : Point) (t : Timestamp) : Sample :=
  let span := b.timestamp.toInt - a.timestamp.toInt
  let offset := t.toInt - a.timestamp.toInt
  match a.value, b.value with
  | .int y₀, .int y₁ =>
    if span = 0 then .int y₀ else .int (Int64.ofInt (lerpInt y₀.toInt y₁.toInt offset span))
  | y₀, y₁ =>
    if span = 0 then .float y₀.toFloat
    else .float (lerpFloat y₀.toFloat y₁.toFloat (Binary64.ofInt offset) (Binary64.ofInt span))

/-- The estimate at a time strictly between two points. -/
def between (policy : Interpolation) (a b : Point) (t : Timestamp) : Sample :=
  let fill (v : Int64) (x : Float) : Sample :=
    if a.value.isInt && b.value.isInt then .int v else .float x
  match policy with
  | lerp => lerpBetween a b t
  | zim => fill 0 0
  | max => fill Int64.maxValue Binary64.greatest
  | min => fill Int64.minValue Binary64.least

def name : Interpolation → String
  | lerp => "lerp"
  | zim => "zim"
  | max => "max"
  | min => "min"

/-- The policy of a name in lower case. -/
def ofName? : String → Option Interpolation
  | "lerp" => some lerp
  | "zim" => some zim
  | "max" => some max
  | "min" => some min
  | _ => none

/-- Reads a name in any case, with blanks around it. -/
def parse (s : String) : Except Error Interpolation :=
  let lowered := String.ofList ((Text.trim s).toList.map Char.toLower)
  match ofName? lowered with
  | some policy => .ok policy
  | none => .error (.unknownInterpolation lowered)

theorem ofName?_name (p : Interpolation) : ofName? p.name = some p := by
  cases p <;> rfl

end Interpolation
end DerivedSeries
