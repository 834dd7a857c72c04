import DerivedSeries.Text.Unprintable
import DerivedSeries.Text.GraphemeExtend

/-!
# Quoted text

`quote` writes a text between double quotes so that each character of it can be told from the
page: the quote and the backslash after a backslash, the usual controls by a letter, and whatever
has no shape of its own by its code point.
-/

namespace DerivedSeries.Text

/-- The code point in lower-case hexadecimal digits between braces. -/
def escapeCodePoint (c : Char) : List Char :=
  ['\\', 'u', '\x7b'] ++ Nat.toDigits 16 c.toNat ++ ['\x7d']

def escapeChar (c : Char) : List Char :=
  match c with
  | '\x00' => ['\\', '0']
  | '\t' => ['\\', 't']
  | '\n' => ['\\', 'n']
  | '\r' => ['\\', 'r']
  | '"' => ['\\', '"']
  | '\\' => ['\\', '\\']
  | c => if extendsGrapheme c || isUnprintable c then escapeCodePoint c else [c]

def quote (s : String) : String :=
  "\"" ++ String.ofList (s.toList.flatMap escapeChar) ++ "\""

/-- A list of texts, each quoted, between square brackets. -/
def quoteList (ss : List String) : String :=
  "[" ++ ", ".intercalate (ss.map quote) ++ "]"

end DerivedSeries.Text
