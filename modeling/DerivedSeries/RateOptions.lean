import DerivedSeries.Error
import DerivedSeries.Text.Blank

/-!
# Rate options

How a rate over a counter is to be read: whether the metric is a counter, where it rolls over, and
above which rate a reset is assumed. The text form is `{counter,ceiling,reset}`; reading allows
blanks around each part, and reports where a text stops matching.
-/

namespace DerivedSeries

structure RateOptions where
  counter : Bool := false
  counterMax : Int64 := Int64.maxValue
  resetValue : Int64 := 0
  deriving DecidableEq, Repr, Inhabited

namespace RateOptions

open Text (Mismatch)

def render (r : RateOptions) : String :=
  "\x7b" ++ toString r.counter ++ "," ++ toString r.counterMax ++ "," ++ toString r.resetValue
    ++ "\x7d"

/-- The blanks allowed between the parts. -/
def isGap (c : Char) : Bool :=
  c == ' ' || c == '\t' || c == '\r' || c == '\n'

def skipGap (cs : List Char) : List Char :=
  cs.dropWhile isGap

/-- A reader of one part takes it off the front of a text. -/
abbrev Part (α : Type) := List Char → Except Mismatch (α × List Char)

def expectChar (c : Char) (cs : List Char) : Except Mismatch (List Char) :=
  match cs with
  | d :: ds => if d = c then .ok ds else .error ⟨cs, .character⟩
  | [] => .error ⟨cs, .character⟩

def readBool : Part Bool := fun cs =>
  match cs with
  | 't' :: 'r' :: 'u' :: 'e' :: r => .ok (true, r)
  | 'f' :: 'a' :: 'l' :: 's' :: 'e' :: r => .ok (false, r)
  | _ => .error ⟨cs, .literal⟩

/-- Splits off a minus sign. -/
def splitMinus : List Char → List Char × List Char
  | '-' :: cs => (['-'], cs)
  | cs => ([], cs)

/-- An optional minus sign and digits. Missing digits are missed after the sign; a number out of
range is reported from its sign on. -/
def readInt : Part Int64 := fun cs =>
  let (sign, ds) := splitMinus cs
  let digits := ds.takeWhile Char.isDigit
  if digits.isEmpty then .error ⟨ds, .digit⟩
  else
    match Text.readInt64 (String.ofList (sign ++ digits)) with
    | .ok v => .ok (v, ds.dropWhile Char.isDigit)
    | .error _ => .error ⟨cs, .number⟩

/-- A part with blanks around it. -/
def padded {α : Type} (p : Part α) : Part α := fun cs => do
  let (a, r) ← p (skipGap cs)
  return (a, skipGap r)

def readBraced : Part RateOptions := fun cs => do
  let cs ← expectChar '\x7b' cs
  let (counter, cs) ← padded readBool cs
  let cs ← expectChar ',' cs
  let (counterMax, cs) ← padded readInt cs
  let cs ← expectChar ',' cs
  let (resetValue, cs) ← padded readInt cs
  let cs ← expectChar '\x7d' cs
  return (⟨counter, counterMax, resetValue⟩, cs)

/-- Reads options that take up the whole text. -/
def readAll (cs : List Char) : Except Mismatch RateOptions := do
  let (r, rest) ← readBraced cs
  if rest.isEmpty then return r else throw ⟨rest, .ending⟩

/-- Reads the text form; blanks of any kind around it do not count. -/
def parse (s : String) : Except Error RateOptions :=
  (readAll (Text.trim s).toList).mapError (.malformedRateOptions s)

end RateOptions
end DerivedSeries
