import DerivedSeries.Binary64

/-!
# Decimal literals

A literal is an optional sign and either a name (`inf`, `infinity`, `nan`, in any case) or digits
with an optional point and exponent, at least one digit standing beside the point. It denotes the
nearest double, infinity beyond the range.
-/

namespace DerivedSeries.Decimal

/-- Why a text is no decimal literal. -/
inductive LiteralFault where
  | empty
  | invalid
  deriving DecidableEq, Repr

def LiteralFault.message : LiteralFault → String
  | .empty => "cannot parse float from empty string"
  | .invalid => "invalid float literal"

/-- The number that decimal digits denote. -/
def valueOf (digits : List Char) : Nat :=
  digits.foldl (fun n c => n * 10 + (c.toNat - '0'.toNat)) 0

/-- Takes a sign off the front of a text, and says whether it was a minus. -/
def splitSign : List Char → Bool × List Char
  | '-' :: cs => (true, cs)
  | '+' :: cs => (false, cs)
  | cs => (false, cs)

/-- The exponent part: nothing, or a mark, an optional sign and digits. -/
def readExponent : List Char → Option Int
  | [] => some 0
  | c :: cs =>
    let (negative, ds) := splitSign cs
    if (c == 'e' || c == 'E') && !ds.isEmpty && ds.all Char.isDigit then
      some (if negative then -(valueOf ds : Int) else valueOf ds)
    else none

/-- The double nearest to `m · 10 ^ e`. -/
def scaled (m : Nat) (e : Int) : Float :=
  Float.ofScientific m (e < 0) e.natAbs

/-- Digits with an optional point, and an exponent. -/
def readUnsigned (cs : List Char) : Option Float := do
  let whole := cs.takeWhile Char.isDigit
  let rest := cs.dropWhile Char.isDigit
  let (fraction, rest) :=
    match rest with
    | '.' :: r => (r.takeWhile Char.isDigit, r.dropWhile Char.isDigit)
    | _ => ([], rest)
  guard !(whole.isEmpty && fraction.isEmpty)
  let e ← readExponent rest
  return scaled (valueOf (whole ++ fraction)) (e - fraction.length)

/-- What a literal without its sign denotes. -/
def readMagnitude (cs : List Char) : Option Float :=
  match String.ofList (cs.map Char.toLower) with
  | "inf" | "infinity" => some Binary64.infinity
  | "nan" => some Binary64.notANumber
  | _ => readUnsigned cs

def read (s : String) : Except LiteralFault Float :=
  if s.isEmpty then .error .empty
  else
    let (negative, cs) := splitSign s.toList
    match readMagnitude cs with
    | none => .error .invalid
    | some x => .ok (if negative then -x else x)

end DerivedSeries.Decimal
