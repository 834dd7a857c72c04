import DerivedSeries.Decimal.Positional
import DerivedSeries.Word

/-!
# Samples

A sample is an exact 64-bit integer or a double, and keeps its kind: an integer becomes a double
only where an operation says so. A point is a sample at a time, in seconds since the epoch.
-/

namespace DerivedSeries

/-- Seconds since the epoch. -/
abbrev Timestamp := Int64

inductive Sample where
  | int (v : Int64)
  | float (x : Float)
  deriving DecidableEq, Inhabited

namespace Sample

def isInt : Sample → Bool
  | int _ => true
  | float _ => false

/-- The integer that a sample is. -/
def int? : Sample → Option Int64
  | int v => some v
  | float _ => none

theorem isInt_iff {s : Sample} : s.isInt = true ↔ ∃ v, s = int v := by
  cases s <;> simp [isInt]

theorem exists_map_int {ss : List Sample} (h : ∀ s ∈ ss, s.isInt = true) :
    ∃ vs : List Int64, ss = vs.map int := by
  induction ss with
  | nil => exact ⟨[], rfl⟩
  | cons s ss ih =>
    obtain ⟨v, rfl⟩ := isInt_iff.1 (h s (by simp))
    obtain ⟨vs, rfl⟩ := ih fun r hr => h r (by simp [hr])
    exact ⟨v :: vs, rfl⟩

theorem filterMap_int?_map_int (vs : List Int64) : (vs.map int).filterMap int? = vs := by
  rw [List.filterMap_map]
  exact List.filterMap_some

/-- The sample as a double, an integer rounded to the nearest one. -/
def toFloat : Sample → Float
  | int v => Binary64.ofInt v.toInt
  | float x => x

/-- The zero of the same kind. -/
def zeroLike : Sample → Sample
  | int _ => int 0
  | float _ => float 0

def isNaN : Sample → Bool
  | int _ => false
  | float x => x.isNaN

/-- The text of a sample: an integer in decimal, a double in positional notation. -/
def format : Sample → String
  | int v => toString v.toInt
  | float x => Decimal.format x

/-- An integer sample, if the value lies in the signed 64-bit range. -/
def ofInt? (n : Int) : Option Sample :=
  (int64? n).map int

/-- The absolute value. The least integer has none among the integers and becomes a double. -/
def abs : Sample → Sample
  | int v => (ofInt? (Int.natAbs v.toInt)).getD (float (Binary64.ofInt v.toInt).abs)
  | float x => float x.abs

/-- The opposite. The least integer has none among the integers and becomes a double. -/
def neg : Sample → Sample
  | int v => (ofInt? (-v.toInt)).getD (float (-Binary64.ofInt v.toInt))
  | float x => float (-x)

theorem neg_int {v : Int64} (h : v ≠ Int64.minValue) : (int v).neg = int (-v) := by
  have hneg : int64? (-v.toInt) = some (-v) :=
    int64?_eq_some_iff.2 (toInt_neg_of_ne_minValue h)
  show ((int64? (-v.toInt)).map int).getD _ = int (-v)
  rw [hneg]
  rfl

/-- One over the sample, always a double: the reciprocal of a zero is an infinity. -/
def reciprocal (s : Sample) : Sample :=
  float (1 / s.toFloat)

/-- A multiple of the sample. An integer stays one: the product is exact when the factor is an
integer and the product fits, and otherwise the product of doubles, truncated and clamped. -/
def scale (factor : Float) : Sample → Sample
  | int v =>
    let exact := (Binary64.toInt64? factor).bind fun f => ofInt? (v.toInt * f.toInt)
    exact.getD (int (Binary64.truncate (Binary64.ofInt v.toInt * factor)))
  | float x => float (x * factor)

end Sample

structure Point where
  timestamp : Timestamp
  value : Sample
  deriving DecidableEq, Inhabited

end DerivedSeries
