import DerivedSeries.Json.Text
import DerivedSeries.Json.Numeral

/-!
# JSON tokens

A text is a list of tokens with blanks (space, tab, line feed, carriage return) between them.
-/

namespace DerivedSeries.Json

inductive Token where
  | openBracket
  | closeBracket
  | openBrace
  | closeBrace
  | comma
  | colon
  | null
  | bool (b : Bool)
  | number (n : Numeral)
  | string (l : Literal)
  deriving DecidableEq, Repr

namespace Token

def isGap (c : Char) : Bool :=
  c == ' ' || c == '\t' || c == '\n' || c == '\r'

/-- Reads a token off the front of a text. -/
def read : List Char → Option (Token × List Char)
  | '[' :: cs => some (openBracket, cs)
  | ']' :: cs => some (closeBracket, cs)
  | '\x7b' :: cs => some (openBrace, cs)
  | '\x7d' :: cs => some (closeBrace, cs)
  | ',' :: cs => some (comma, cs)
  | ':' :: cs => some (colon, cs)
  | 'n' :: 'u' :: 'l' :: 'l' :: cs => some (null, cs)
  | 't' :: 'r' :: 'u' :: 'e' :: cs => some (bool true, cs)
  | 'f' :: 'a' :: 'l' :: 's' :: 'e' :: cs => some (bool false, cs)
  | '"' :: cs => (Literal.read cs).map fun r => (string r.1, r.2)
  | cs => (Numeral.read cs).map fun r => (number r.1, r.2)

def write : Token → List Char
  | openBracket => ['[']
  | closeBracket => [']']
  | openBrace => ['\x7b']
  | closeBrace => ['\x7d']
  | comma => [',']
  | colon => [':']
  | null => ['n', 'u', 'l', 'l']
  | bool true => ['t', 'r', 'u', 'e']
  | bool false => ['f', 'a', 'l', 's', 'e']
  | number n => n.write
  | string l => l.write

theorem length_lt_of_read {cs rest : List Char} {t : Token} (h : read cs = some (t, rest)) :
    rest.length < cs.length := by
  unfold read at h
  split at h
  case h_10 =>
    obtain ⟨⟨l, r⟩, hr, e⟩ := Option.map_eq_some_iff.1 h
    cases e
    exact Nat.lt_succ_of_lt (Literal.length_lt_of_read hr)
  case h_11 =>
    obtain ⟨⟨n, r⟩, hr, e⟩ := Option.map_eq_some_iff.1 h
    cases e
    exact Numeral.length_lt_of_read hr
  all_goals
    cases h
    simp only [List.length_cons]
    omega

/-- The tokens of a text. Each token takes up some of it. -/
def scan (cs : List Char) : Option (List Token) :=
  let cs' := cs.dropWhile isGap
  if cs'.isEmpty then some []
  else
    match _ : read cs' with
    | none => none
    | some (t, rest) => (scan rest).map (t :: ·)
termination_by cs.length
decreasing_by
  exact Nat.lt_of_lt_of_le (length_lt_of_read ‹_›) (List.dropWhile_suffix isGap).length_le

end Token
end DerivedSeries.Json
