import DerivedSeries.Text.Quoted

/-!
# Where a text stops matching its grammar

A mismatch keeps the text that was left where the failing part began, and what that part expected.
-/

namespace DerivedSeries.Text

/-- What a grammar expected at a place. -/
inductive Expected where
  | character
  | literal
  | digit
  | number
  | ending
  deriving DecidableEq, Repr

structure Mismatch where
  rest : List Char
  expected : Expected
  deriving DecidableEq, Repr

namespace Mismatch

/-- The name under which a mismatch reports what it expected. -/
def code : Expected → String
  | .character => "Char"
  | .literal => "Tag"
  | .digit => "Digit"
  | .number => "MapRes"
  | .ending => "Eof"

def render (m : Mismatch) : String :=
  "Error(Error \x7b input: " ++ quote (String.ofList m.rest) ++ ", code: " ++ code m.expected
    ++ " \x7d)"

end Mismatch
end DerivedSeries.Text
