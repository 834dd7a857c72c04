import DerivedSeries.Text.Ranges

/-!
# Blank characters

`isBlank` is the `White_Space` property of Unicode; `trim` cuts blanks off both ends of a text and
leaves those inside it alone.
-/

namespace DerivedSeries.Text

/-- The inclusive ranges of code points with the `White_Space` property. -/
def blankRanges : List (Nat × Nat) :=
  [(0x09, 0x0d), (0x20, 0x20), (0x85, 0x85), (0xa0, 0xa0), (0x1680, 0x1680), (0x2000, 0x200a),
    (0x2028, 0x2029), (0x202f, 0x202f), (0x205f, 0x205f), (0x3000, 0x3000)]

def isBlank (c : Char) : Bool :=
  inRanges blankRanges c

/-- Drops what satisfies `p` from both ends. -/
def stripEnds (p : Char → Bool) (cs : List Char) : List Char :=
  ((cs.dropWhile p).reverse.dropWhile p).reverse

/-- Nothing is dropped from a list that neither begins nor ends with what satisfies `p`. -/
theorem stripEnds_eq_self {p : Char → Bool} {cs : List Char} (hfirst : ∀ c ∈ cs.head?, p c = false)
    (hlast : ∀ c ∈ cs.getLast?, p c = false) : stripEnds p cs = cs := by
  have hkeep : ∀ {ds : List Char}, (∀ c ∈ ds.head?, p c = false) → ds.dropWhile p = ds := by
    intro ds h
    cases ds with
    | nil => rfl
    | cons d ds => simp [h d rfl]
  rw [stripEnds, hkeep hfirst, hkeep (by simpa using hlast), List.reverse_reverse]

/-- The text without the blanks at its two ends. -/
def trim (s : String) : String :=
  String.ofList (stripEnds isBlank s.toList)

end DerivedSeries.Text
