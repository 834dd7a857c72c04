import DerivedSeries.View

/-!
# Ranking

A series ranks by its greatest sample in a window or by its latest one. Integers and doubles are
watched apart, and what is no number is not seen; the ranking value is the greater of the two
maxima, as a double. Entries go from the greatest value down, series without a value last, and
equal ones keep their order.
-/

namespace DerivedSeries

/-- What a series ranks by. -/
inductive Criterion where
  /-- The greatest sample in the window. -/
  | max
  /-- The sample at the latest time in the window. -/
  | current
  deriving DecidableEq, Repr

/-- The greatest integer and the greatest double of a series. -/
structure Maxima where
  intMax : Option Int64 := none
  floatMax : Option Float := none
  deriving DecidableEq, Inhabited

namespace Maxima

def observe (m : Maxima) : Sample → Maxima
  | .int v => { m with intMax := some (m.intMax.elim v (Max.max · v)) }
  | .float x =>
    if x.isNaN then m else { m with floatMax := some (m.floatMax.elim x (Binary64.greater · x)) }

/-- The ranking value. -/
def resolve (m : Maxima) : Option Float :=
  match m.intMax, m.floatMax with
  | some v, some x => some (Binary64.greater (Binary64.ofInt v.toInt) x)
  | some v, none => some (Binary64.ofInt v.toInt)
  | none, x => x

end Maxima

namespace Criterion

/-- The samples of a view that the criterion looks at. -/
def samples : Criterion → View → List Sample
  | max, v => v.points.map Point.value
  | current, v => (v.points.getLast?.map Point.value).toList

def scan (c : Criterion) (v : View) : Maxima :=
  (c.samples v).foldl Maxima.observe {}

def name : Criterion → String
  | max => "Max"
  | current => "Current"

end Criterion

/-- A line of a ranking: the position of a series and its value, if it has one. -/
structure RankEntry where
  value : Option Float
  index : Nat
  deriving DecidableEq, Inhabited

namespace RankEntry

/-- The first entry need not stand after the second. -/
def precedes (a b : RankEntry) : Bool :=
  match a.value, b.value with
  | some x, some y => !(x < y)
  | none, some _ => false
  | _, none => true

def format (e : RankEntry) : String :=
  s!"#{e.index}=" ++ e.value.elim "unobserved" Decimal.format

end RankEntry

namespace Ranking

/-- The ranking of values, each at its position. -/
def sort (entries : List RankEntry) : List RankEntry :=
  entries.mergeSort RankEntry.precedes

def format (table : List RankEntry) : String :=
  ", ".intercalate (table.map RankEntry.format)

end Ranking
end DerivedSeries
