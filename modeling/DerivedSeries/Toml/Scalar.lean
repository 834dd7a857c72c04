import DerivedSeries.Toml.Value
import DerivedSeries.Decimal.Literal
import DerivedSeries.Word

/-!
# TOML scalars

Numbers, truth values, dates and times are words: runs of letters, digits and a few marks. A word
is read as a whole, so that nothing may follow a value without a separator. Underscores may stand
between digits.
-/

namespace DerivedSeries.Toml.Scalar

def isWordChar (c : Char) : Bool :=
  c.isAlphanum || c == '+' || c == '-' || c == '_' || c == '.' || c == ':'

/-! ## Numbers -/

/-- The digits of a run of digits with single underscores between them. -/
def ungroup (isDigit : Char → Bool) : List Char → Option (List Char)
  | [] => none
  | [c] => if isDigit c then some [c] else none
  | c :: '_' :: cs => if isDigit c then (ungroup isDigit cs).map (c :: ·) else none
  | c :: cs => if isDigit c then (ungroup isDigit cs).map (c :: ·) else none

/-- Digits that do not start with a zero unless they are one. -/
def decimalDigits (cs : List Char) : Option (List Char) := do
  let ds ← ungroup Char.isDigit cs
  if ds.length > 1 && ds.head? == some '0' then none else some ds

def digitValue (c : Char) : Nat :=
  if c.isDigit then c.toNat - '0'.toNat else c.toLower.toNat - 'a'.toNat + 10

def valueIn (base : Nat) (ds : List Char) : Int :=
  ds.foldl (fun n c => n * base + digitValue c) 0

/-- The value of an integer that a 64-bit word holds. -/
def ofInt? (n : Int) : Option Value :=
  (int64? n).map .integer

def isHexDigit (c : Char) : Bool :=
  c.isDigit || ('a' ≤ c.toLower && c.toLower ≤ 'f')

/-- An integer, in decimal with an optional sign, or without one in another base. -/
def integer? (cs : List Char) : Option Value :=
  match cs with
  | '0' :: 'x' :: ds => (ungroup isHexDigit ds).bind fun ds => ofInt? (valueIn 16 ds)
  | '0' :: 'o' :: ds =>
    (ungroup (fun c => '0' ≤ c && c ≤ '7') ds).bind fun ds => ofInt? (valueIn 8 ds)
  | '0' :: 'b' :: ds =>
    (ungroup (fun c => c == '0' || c == '1') ds).bind fun ds => ofInt? (valueIn 2 ds)
  | cs =>
    let (negative, ds) := Decimal.splitSign cs
    (decimalDigits ds).bind fun ds =>
      ofInt? (if negative then -valueIn 10 ds else valueIn 10 ds)

def isDigitOrGap (c : Char) : Bool :=
  c.isDigit || c == '_'

def exponent? : List Char → Option Int
  | [] => some 0
  | c :: cs =>
    if c == 'e' || c == 'E' then
      let (negative, ds) := Decimal.splitSign cs
      (ungroup Char.isDigit ds).map fun ds =>
        if negative then -valueIn 10 ds else valueIn 10 ds
    else none

/-- A decimal number with a fraction or an exponent or both. One that is too great is refused, one
that is too small becomes minus infinity. -/
def decimal? (cs : List Char) : Option Value := do
  let (negative, cs) := Decimal.splitSign cs
  let whole ← decimalDigits (cs.takeWhile isDigitOrGap)
  let rest := cs.dropWhile isDigitOrGap
  guard !rest.isEmpty
  let (fraction, rest) : Option (List Char) × List Char :=
    match rest with
    | '.' :: r => (ungroup Char.isDigit (r.takeWhile isDigitOrGap), r.dropWhile isDigitOrGap)
    | r => (some [], r)
  let fraction ← fraction
  let e ← exponent? rest
  let x := Decimal.scaled (Decimal.valueOf (whole ++ fraction)) (e - fraction.length)
  if negative then some (.float (-x))
  else if x.isInf then none
  else some (.float x)

def float? (cs : List Char) : Option Value :=
  let (negative, name) := Decimal.splitSign cs
  let signed (x : Float) : Value := .float (if negative then -x else x)
  match name with
  | ['i', 'n', 'f'] => some (signed Binary64.infinity)
  | ['n', 'a', 'n'] => some (signed Binary64.notANumber)
  | _ => decimal? cs

/-! ## Dates and times -/

/-- The number of two digits, at most `limit`. -/
def twoDigits? (limit : Nat) (a b : Char) : Option Nat :=
  if a.isDigit && b.isDigit then
    let n := digitValue a * 10 + digitValue b
    if n ≤ limit then some n else none
  else none

def isLeapYear (year : Int) : Bool :=
  year % 4 = 0 && (year % 100 ≠ 0 || year % 400 = 0)

def daysIn (year : Int) (month : Nat) : Nat :=
  match month with
  | 2 => if isLeapYear year then 29 else 28
  | 4 | 6 | 9 | 11 => 30
  | _ => 31

/-- A date, and what follows it. -/
def date? : List Char → Option (List Char)
  | y₁ :: y₂ :: y₃ :: y₄ :: '-' :: m₁ :: m₂ :: '-' :: d₁ :: d₂ :: rest => do
    guard ([y₁, y₂, y₃, y₄].all Char.isDigit)
    let month ← twoDigits? 12 m₁ m₂
    let day ← twoDigits? (daysIn (valueIn 10 [y₁, y₂, y₃, y₄]) month) d₁ d₂
    guard (month ≠ 0 && day ≠ 0)
    return rest
  | _ => none

/-- A time of day, and what follows it. -/
def time? : List Char → Option (List Char)
  | h₁ :: h₂ :: ':' :: m₁ :: m₂ :: ':' :: s₁ :: s₂ :: rest => do
    let _ ← twoDigits? 23 h₁ h₂
    let _ ← twoDigits? 59 m₁ m₂
    let _ ← twoDigits? 60 s₁ s₂
    match rest with
    | '.' :: ds =>
      if (ds.takeWhile Char.isDigit).isEmpty then none else some (ds.dropWhile Char.isDigit)
    | _ => some rest
  | _ => none

/-- An offset from universal time that takes up the whole text, or nothing. -/
def isOffset : List Char → Bool
  | [] => true
  | ['Z'] | ['z'] => true
  | [sign, h₁, h₂, ':', m₁, m₂] =>
    (sign == '+' || sign == '-') && (twoDigits? 23 h₁ h₂).isSome && (twoDigits? 59 m₁ m₂).isSome
  | _ => false

/-- A time of day with an optional offset takes up the whole text. -/
def isOffsetTime (cs : List Char) : Bool :=
  (time? cs).any isOffset

def isDateTime (cs : List Char) : Bool :=
  match date? cs with
  | none => time? cs == some []
  | some [] => true
  | some (c :: rest) => (c == 'T' || c == 't') && isOffsetTime rest

/-! ## Words -/

def ofWord? (cs : List Char) : Option Value :=
  match cs with
  | ['t', 'r', 'u', 'e'] => some (.boolean true)
  | ['f', 'a', 'l', 's', 'e'] => some (.boolean false)
  | _ =>
    if isDateTime cs then some .dateTime
    else
      match integer? cs with
      | some v => some v
      | none => float? cs

/-- Reads a scalar off the front of a text. A space may stand between a date and a time. -/
def read (cs : List Char) : Option (Value × List Char) :=
  let word := cs.takeWhile isWordChar
  let rest := cs.dropWhile isWordChar
  match date? word, rest with
  | some [], ' ' :: r =>
    if (r.head?.map Char.isDigit).getD false then
      if isOffsetTime (r.takeWhile isWordChar) then some (.dateTime, r.dropWhile isWordChar)
      else none
    else some (.dateTime, rest)
  | _, _ => (ofWord? word).map (·, rest)

end DerivedSeries.Toml.Scalar
