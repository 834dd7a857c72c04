import DerivedSeries.Json.Token

/-!
# JSON texts as trees

A tree is a JSON text without its blanks: numbers and strings stay as they are written, and the
members of an object keep their order and their repetitions. So every text of the right form has a
tree, and what a number or a string means, how deep a value may be nested and what a repeated key
does is up to those who read the tree.

Reading is a machine that goes through the tokens once and keeps the containers that are not yet
closed on a stack.
-/

namespace DerivedSeries.Json

inductive Tree where
  | null
  | bool (b : Bool)
  | number (n : Numeral)
  | string (l : Literal)
  | array (items : List Tree)
  | object (members : List (Literal × Tree))
  deriving Inhabited

namespace Tree

/-! ## Reading -/

/-- A container that is not yet closed; what it holds so far stands in reverse. -/
inductive Frame where
  | items (done : List Tree)
  | members (done : List (Literal × Tree)) (key : Literal)

/-- What the machine does next: read a value, read a key of an object that holds some members
already, or hand a finished value to the innermost container. -/
inductive Task where
  | value
  | key (done : List (Literal × Tree))
  | finish (t : Tree)

def run : Task → List Frame → List Token → Option Tree
  | .value, fs, .null :: ts => run (.finish .null) fs ts
  | .value, fs, .bool b :: ts => run (.finish (.bool b)) fs ts
  | .value, fs, .number n :: ts => run (.finish (.number n)) fs ts
  | .value, fs, .string l :: ts => run (.finish (.string l)) fs ts
  | .value, fs, .openBracket :: .closeBracket :: ts => run (.finish (.array [])) fs ts
  | .value, fs, .openBracket :: ts => run .value (.items [] :: fs) ts
  | .value, fs, .openBrace :: .closeBrace :: ts => run (.finish (.object [])) fs ts
  | .value, fs, .openBrace :: ts => run (.key []) fs ts
  | .key done, fs, .string l :: .colon :: ts => run .value (.members done l :: fs) ts
  | .finish t, .items done :: fs, .comma :: ts => run .value (.items (t :: done) :: fs) ts
  | .finish t, .items done :: fs, .closeBracket :: ts =>
    run (.finish (.array (t :: done).reverse)) fs ts
  | .finish t, .members done k :: fs, .comma :: ts => run (.key ((k, t) :: done)) fs ts
  | .finish t, .members done k :: fs, .closeBrace :: ts =>
    run (.finish (.object ((k, t) :: done).reverse)) fs ts
  | .finish t, [], [] => some t
  | _, _, _ => none

/-- The tree of a text, if the text has the form of a JSON value. -/
def parse (s : String) : Option Tree :=
  (Token.scan s.toList).bind (run .value [])

/-! ## Writing -/

mutual

/-- The tokens of a tree. -/
def tokens : Tree → List Token
  | null => [.null]
  | bool b => [.bool b]
  | number n => [.number n]
  | string l => [.string l]
  | array [] => [.openBracket, .closeBracket]
  | array (t :: ts) => .openBracket :: tokens t ++ itemTokens ts ++ [.closeBracket]
  | object [] => [.openBrace, .closeBrace]
  | object (m :: ms) =>
    .openBrace :: .string m.1 :: .colon :: tokens m.2 ++ memberTokens ms ++ [.closeBrace]

/-- The tokens of the items after the first. -/
def itemTokens : List Tree → List Token
  | [] => []
  | t :: ts => .comma :: tokens t ++ itemTokens ts

/-- The tokens of the members after the first. -/
def memberTokens : List (Literal × Tree) → List Token
  | [] => []
  | m :: ms => .comma :: .string m.1 :: .colon :: tokens m.2 ++ memberTokens ms

end

/-- The text of a tree without blanks. -/
def render (t : Tree) : String :=
  String.ofList (t.tokens.flatMap Token.write)

end Tree
end DerivedSeries.Json
