/-!
# Integer literals

A literal is an optional sign and one or more ASCII digits. The digits are read from the left, and
the first one that cannot be used decides the fault: a character that is no digit, or a digit that
takes the value out of the range.
-/

namespace DerivedSeries.Text

/-- Why a text is no integer literal of a range. -/
inductive IntegerFault where
  | empty
  | invalidDigit
  | tooLarge
  | tooSmall
  deriving DecidableEq, Repr

def IntegerFault.message : IntegerFault → String
  | .empty => "cannot parse integer from empty string"
  | .invalidDigit => "invalid digit found in string"
  | .tooLarge => "number too large to fit in target type"
  | .tooSmall => "number too small to fit in target type"

/-- The value of an ASCII digit. -/
def digit? (c : Char) : Option Nat :=
  if c.isDigit then some (c.toNat - '0'.toNat) else none

/-- Reads digits into `acc` while the value stays at most `limit`. -/
def readMagnitude (limit : Nat) (overflow : IntegerFault) (acc : Nat) :
    List Char → Except IntegerFault Nat
  | [] => .ok acc
  | c :: cs =>
    match digit? c with
    | none => .error .invalidDigit
    | some d =>
      if acc * 10 + d ≤ limit then readMagnitude limit overflow (acc * 10 + d) cs
      else .error overflow

/-- Reads the digits after a sign: there has to be one at least. -/
def readSigned (limit : Nat) (overflow : IntegerFault) (cs : List Char) :
    Except IntegerFault Nat :=
  if cs.isEmpty then .error .invalidDigit else readMagnitude limit overflow 0 cs

/-- A literal of the signed 64-bit range. -/
def readInt64 (s : String) : Except IntegerFault Int64 :=
  match s.toList with
  | [] => .error .empty
  | '-' :: cs => (readSigned Int64.minValue.toInt.natAbs .tooSmall cs).map fun n => Int64.ofInt (-n)
  | '+' :: cs => (readSigned Int64.maxValue.toInt.natAbs .tooLarge cs).map fun n => Int64.ofInt n
  | cs => (readMagnitude Int64.maxValue.toInt.natAbs .tooLarge 0 cs).map fun n => Int64.ofInt n

/-- A literal of the unsigned 64-bit range, which takes no minus sign. -/
def readUInt64 (s : String) : Except IntegerFault UInt64 :=
  match s.toList with
  | [] => .error .empty
  | '+' :: cs => (readSigned (UInt64.size - 1) .tooLarge cs).map UInt64.ofNat
  | cs => (readMagnitude (UInt64.size - 1) .tooLarge 0 cs).map UInt64.ofNat

end DerivedSeries.Text
