/-!
# Double precision numbers

What the library needs of `Float` beyond its arithmetic: conversions from and to integers, and the
greater of two numbers. All of it goes through the bit-level model of the core library, so a proof
can follow it.
-/

namespace DerivedSeries.Binary64

/-- The double nearest to an integer, ties going to the even significand. -/
def ofInt (n : Int) : Float :=
  .ofModel (.ofInt n)

/-- Drops the fraction and clamps to the signed 64-bit range; what is no number becomes zero. -/
def truncate (x : Float) : Int64 :=
  x.toModel.toInt64

/-- The greatest finite double. -/
def greatest : Float := .ofBits 0x7fefffffffffffff

/-- The least finite double. -/
def least : Float := .ofBits 0xffefffffffffffff

def negativeZero : Float := .ofBits 0x8000000000000000

def infinity : Float := .ofBits 0x7ff0000000000000

def notANumber : Float := .ofBits 0x7ff8000000000000

/-- The integer that `x` is, if `x` is an integer of the signed 64-bit range. -/
def toInt64? (x : Float) : Option Int64 :=
  let n := truncate x
  if x < ofInt (Int64.maxValue.toInt + 1) && x == ofInt n.toInt then some n else none

/-- The greater of two numbers; an operand that is no number gives way to the other. -/
def greater (x y : Float) : Float :=
  if x.isNaN then y else if y.isNaN then x else if x < y then y else x

end DerivedSeries.Binary64
