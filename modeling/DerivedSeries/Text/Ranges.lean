/-!
# Classes of characters as ranges

A class of characters is a list of inclusive ranges of code points, as the tables of the Unicode
standard give it.
-/

namespace DerivedSeries.Text

/-- The code point of `c` lies in one of the inclusive ranges. -/
def inRanges (ranges : List (Nat × Nat)) (c : Char) : Bool :=
  ranges.any fun r => r.1 ≤ c.toNat && c.toNat ≤ r.2

end DerivedSeries.Text
