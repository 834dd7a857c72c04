import DerivedSeries.Decimal.Shortest

/-!
# Positional notation

A double is shown by its shortest decimal written out in full, never with an exponent: `1e21` has
twenty-two digits, and a whole number has no point.
-/

namespace DerivedSeries.Decimal

def digitChars (n : Nat) : List Char :=
  Nat.toDigits 10 n

/-- Writes `digits · 10 ^ exponent` in full. -/
def positional (d : Decimal) : List Char :=
  let ds := digitChars d.digits
  let places := (-d.exponent).toNat
  if 0 ≤ d.exponent then ds ++ List.replicate d.exponent.toNat '0'
  else if places < ds.length then
    let (whole, fraction) := ds.splitAt (ds.length - places)
    whole ++ '.' :: fraction
  else '0' :: '.' :: List.replicate (places - ds.length) '0' ++ ds

def signChars : Float.Model.UnpackedFloat.Sign → List Char
  | .negative => ['-']
  | .positive => []

/-- The text of a double, the sign of a zero kept. A tie between two shortest decimals goes to the
one farther from zero. -/
def format (x : Float) : String :=
  String.ofList <|
    match x.toModel.unpack with
    | .notANumber => ['N', 'a', 'N']
    | .infinity s => signChars s ++ ['i', 'n', 'f']
    | .zero s => signChars s ++ ['0']
    | .finite s m e _ => signChars s ++ (shortest .up m e).positional

end DerivedSeries.Decimal
