import DerivedSeries.Json.Numeral
import DerivedSeries.Decimal.Literal
import DerivedSeries.Sample

/-!
# The numbers that numerals denote

A numeral without fraction and exponent denotes an integer if a 64-bit word holds it. Every other
numeral denotes a double, found in steps that round: the digits are gathered into a 64-bit
significand for as long as they fit, and the significand is multiplied or divided by a power of
ten. The result may differ from the nearest double in its last bits. A numeral that overflows
denotes nothing.
-/

namespace DerivedSeries.Json

inductive Number where
  | natural (n : UInt64)
  /-- A negative integer. -/
  | negative (n : Int64)
  | real (x : Float)
  deriving DecidableEq

namespace Number

/-- Appends digits to a significand while a 64-bit word holds it, and returns those left over. -/
def gather (significand : Nat) : List Char → Nat × List Char
  | [] => (significand, [])
  | c :: cs =>
    let next := significand * 10 + (c.toNat - '0'.toNat)
    if next < UInt64.size then gather next cs else (significand, c :: cs)

/-- The power of ten nearest to `10 ^ n`. -/
def power (n : Nat) : Float :=
  Decimal.scaled 1 n

/-- Multiplies by `10 ^ e`. An exponent below all powers of ten that doubles hold is taken up in
steps, until the value vanishes. -/
def shift (x : Float) (e : Int) : Option Float :=
  if e < -308 then if x == 0 then some x else shift (x / power 308) (e + 308)
  else if e < 0 then some (x / power e.natAbs)
  else if e ≤ 308 then
    let y := x * power e.natAbs
    if y.isInf then none else some y
  else if x == 0 then some x
  else none
termination_by (-e).toNat

/-- The double of a significand and an exponent as written. An exponent that no 32-bit word holds
stands for an overflow or for zero. -/
def magnitude (significand : Nat) (exponent : Int) (written : Option Exponent) : Option Float :=
  let x := Binary64.ofInt significand
  match written with
  | none => shift x exponent
  | some w =>
    let n := Decimal.valueOf w.digits
    let down := w.sign == some '-'
    if n ≤ Int32.maxValue.toInt then shift x (if down then exponent - n else exponent + n)
    else if significand = 0 || down then some 0
    else none

/-- The double that a numeral denotes, whatever its form. -/
def realOf (n : Numeral) : Option Float := do
  let (significand, left) := gather 0 n.whole
  let (significand, lost) := gather significand n.fraction
  let exponent := (left.length : Int) - (n.fraction.length - lost.length : Nat)
  let x ← magnitude significand exponent n.exponent
  return if n.negative then -x else x

/-- The integer that a numeral without fraction and exponent denotes. Minus zero is none. -/
def integer? (n : Numeral) : Option Number :=
  if n.fraction.isEmpty && n.exponent.isNone then
    let v := Decimal.valueOf n.whole
    if n.negative then
      if v = 0 then none else (int64? (-v)).map negative
    else if v < UInt64.size then some (natural (UInt64.ofNat v)) else none
  else none

def ofNumeral (n : Numeral) : Option Number :=
  match integer? n with
  | some v => some v
  | none => (realOf n).map real

/-- The signed 64-bit integer that a number is. -/
def toInt64? : Number → Option Int64
  | natural n => int64? n.toNat
  | negative n => some n
  | real _ => none

def toUInt64? : Number → Option UInt64
  | natural n => some n
  | _ => none

def toFloat : Number → Float
  | natural n => Binary64.ofInt n.toNat
  | negative n => Binary64.ofInt n.toInt
  | real x => x

/-- A number as a sample: an integer where a signed 64-bit word holds it, and a double else. -/
def toSample (n : Number) : Sample :=
  match n.toInt64? with
  | some v => .int v
  | none => .float n.toFloat

end Number
end DerivedSeries.Json
