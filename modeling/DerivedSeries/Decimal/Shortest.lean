import DerivedSeries.Binary64

/-!
# The shortest decimal of a double

A finite positive double is `m · 2 ^ e`. The decimals that read back as it fill an interval that
ends half way to its two neighbours; the ends belong to it when `m` is even. On each grid of
multiples of a power of ten, from the coarsest down, only the two grid points next to the double
can lie in the interval. The first grid that has such a point gives the fewest digits, and of two
points the nearer one is taken.
-/

namespace DerivedSeries

/-- The number `digits · 10 ^ exponent`. -/
structure Decimal where
  digits : Nat
  exponent : Int
  deriving DecidableEq, Repr

namespace Decimal

/-- Which of two decimals is taken when the double lies half way between them. -/
inductive Tie where
  | up
  | even
  deriving DecidableEq, Repr

/-- The interval of what reads back as `m · 2 ^ e`, in units of `2 ^ (e - 2)`. -/
structure Interval where
  low : Nat
  centre : Nat
  high : Nat
  unit : Int
  closed : Bool

/-- The neighbour below a power of two is only half as far away as the one above. -/
def Interval.around (m : Nat) (e : Int) : Interval where
  low := if m = Nat.pow 2 52 then 4 * m - 1 else 4 * m - 2
  centre := 4 * m
  high := 4 * m + 2
  unit := e - 2
  closed := m % 2 = 0

/-- The point of the grid of multiples of `10 ^ k` that stands for the centre of the interval, if
one of the two points next to it lies in the interval. -/
def Interval.gridPoint? (tie : Tie) (i : Interval) (k : Int) : Option Nat :=
  let step := Nat.pow 10 k.toNat * Nat.pow 2 (-i.unit).toNat
  let scale := Nat.pow 2 i.unit.toNat * Nat.pow 10 (-k).toNat
  let below := i.centre * scale / step
  let rest := i.centre * scale % step
  let inside (low high : Nat) : Bool := low < high || i.closed && low == high
  let lowerFits := inside (i.low * scale) (below * step)
  let upperFits := inside ((below + 1) * step) (i.high * scale)
  if rest = 0 then some below
  else
    match lowerFits, upperFits with
    | false, false => none
    | true, false => some below
    | false, true => some (below + 1)
    | true, true =>
      match compare (2 * rest) step, tie with
      | .lt, _ => some below
      | .gt, _ => some (below + 1)
      | .eq, .up => some (below + 1)
      | .eq, .even => some (if below % 2 = 0 then below else below + 1)

/-- Tries the grid `10 ^ k` and then up to `tries` finer ones. -/
def Interval.search (tie : Tie) (i : Interval) : Nat → Int → Decimal
  | 0, k => ⟨(i.gridPoint? tie k).getD 0, k⟩
  | tries + 1, k =>
    match i.gridPoint? tie k with
    | some d => ⟨d, k⟩
    | none => i.search tie tries (k - 1)

/-- The shortest decimal that reads back as `m · 2 ^ e`. The search starts at a power of ten above
the number (`0.30103` is just over the logarithm of two), and a double needs at most seventeen
digits. -/
def shortest (tie : Tie) (m : Nat) (e : Int) : Decimal :=
  (Interval.around m e).search tie 20 ((m.log2 + 1 + e) * 30103 / 100000 + 1)

end Decimal
end DerivedSeries
