import DerivedSeries.Decimal.Positional

/-!
# JSON numbers as written

A numeral is an optional minus sign, digits, an optional fraction and an optional exponent. A
double is written by its shortest decimal, a tie going to the even digit: in full from `1e-5` up
to `1e16`, with a fraction even when it is whole, and with an exponent beyond.
-/

namespace DerivedSeries.Json

/-- The part of a numeral after the letter `e`. -/
structure Exponent where
  /-- The sign as written, if there is one. -/
  sign : Option Char := none
  digits : List Char
  deriving DecidableEq, Repr

structure Numeral where
  negative : Bool := false
  whole : List Char
  /-- The digits after the point; a numeral without a point has none. -/
  fraction : List Char := []
  exponent : Option Exponent := none
  deriving DecidableEq, Repr

namespace Numeral

/-! ## Reading and writing -/

/-- The digits before the point: a zero, or digits that start with another one. -/
def readWhole : List Char → Option (List Char × List Char)
  | '0' :: cs => some (['0'], cs)
  | cs =>
    let ds := cs.takeWhile Char.isDigit
    if ds.isEmpty then none else some (ds, cs.dropWhile Char.isDigit)

def readDigits (cs : List Char) : Option (List Char × List Char) :=
  let ds := cs.takeWhile Char.isDigit
  if ds.isEmpty then none else some (ds, cs.dropWhile Char.isDigit)

def readFraction : List Char → Option (List Char × List Char)
  | '.' :: cs => readDigits cs
  | cs => some ([], cs)

def readExponent : List Char → Option (Option Exponent × List Char)
  | c :: cs =>
    if c == 'e' || c == 'E' then
      let (sign, cs) : Option Char × List Char :=
        match cs with
        | '+' :: r => (some '+', r)
        | '-' :: r => (some '-', r)
        | r => (none, r)
      (readDigits cs).map fun r => (some ⟨sign, r.1⟩, r.2)
    else some (none, c :: cs)
  | [] => some (none, [])

/-- Reads a numeral off the front of a text. -/
def read (cs : List Char) : Option (Numeral × List Char) := do
  let (negative, cs) : Bool × List Char :=
    match cs with
    | '-' :: r => (true, r)
    | r => (false, r)
  let (whole, cs) ← readWhole cs
  let (fraction, cs) ← readFraction cs
  let (exponent, cs) ← readExponent cs
  return (⟨negative, whole, fraction, exponent⟩, cs)

theorem length_lt_of_readDigits {cs ds rest : List Char} (h : readDigits cs = some (ds, rest)) :
    rest.length < cs.length := by
  have e := congrArg List.length (List.takeWhile_append_dropWhile (p := Char.isDigit) (l := cs))
  simp only [readDigits, List.isEmpty_iff] at h
  split at h
  · simp at h
  · have := List.length_pos_iff.2 ‹_›
    simp only [List.length_append] at e
    grind

theorem length_lt_of_readWhole {cs ds rest : List Char} (h : readWhole cs = some (ds, rest)) :
    rest.length < cs.length := by
  unfold readWhole at h
  split at h
  · simp_all
  · exact length_lt_of_readDigits h

theorem length_le_of_readFraction {cs ds rest : List Char}
    (h : readFraction cs = some (ds, rest)) : rest.length ≤ cs.length := by
  unfold readFraction at h
  split at h
  · exact Nat.le_succ_of_le (Nat.le_of_lt (length_lt_of_readDigits h))
  · simp_all

theorem length_le_of_readExponent {cs rest : List Char} {e : Option Exponent}
    (h : readExponent cs = some (e, rest)) : rest.length ≤ cs.length := by
  unfold readExponent at h
  split at h
  · split at h
    · obtain ⟨r, hr, e⟩ := Option.map_eq_some_iff.1 h
      have := length_lt_of_readDigits hr
      grind
    · simp_all
  · simp_all

/-- Reading takes up at least one digit. -/
theorem length_lt_of_read {cs rest : List Char} {n : Numeral} (h : read cs = some (n, rest)) :
    rest.length < cs.length := by
  unfold read at h
  simp only [Option.bind_eq_bind, Option.bind_eq_some_iff, Option.pure_def, Option.some.injEq,
      Prod.mk.injEq] at h
  obtain ⟨w, hw, f, hf, e, he, -, rfl⟩ := h
  have := length_lt_of_readWhole hw
  have := length_le_of_readFraction hf
  have := length_le_of_readExponent he
  grind

def writeExponent (e : Exponent) : List Char :=
  'e' :: e.sign.toList ++ e.digits

def write (n : Numeral) : List Char :=
  (if n.negative then ['-'] else []) ++ n.whole
    ++ (if n.fraction.isEmpty then [] else '.' :: n.fraction)
    ++ n.exponent.elim [] writeExponent

/-! ## Numerals of numbers -/

def ofInt (n : Int) : Numeral where
  negative := n < 0
  whole := Decimal.digitChars n.natAbs

/-- In full, with at least one digit after the point. -/
def inFull (negative : Bool) (ds : List Char) (exponent : Int) : Numeral :=
  let places := (-exponent).toNat
  if 0 ≤ exponent then
    { negative, whole := ds ++ List.replicate exponent.toNat '0', fraction := ['0'] }
  else if places < ds.length then
    { negative, whole := ds.take (ds.length - places), fraction := ds.drop (ds.length - places) }
  else { negative, whole := ['0'], fraction := List.replicate (places - ds.length) '0' ++ ds }

/-- One digit before the point, and an exponent with its sign. -/
def scientific (negative : Bool) (ds : List Char) (power : Int) : Numeral where
  negative := negative
  whole := ds.take 1
  fraction := ds.drop 1
  exponent := some ⟨some (if power < 0 then '-' else '+'), Decimal.digitChars power.natAbs⟩

def ofDecimal (negative : Bool) (d : Decimal) : Numeral :=
  let ds := Decimal.digitChars d.digits
  let power := d.exponent + ds.length - 1
  if -5 ≤ power ∧ power < 16 then inFull negative ds d.exponent
  else scientific negative ds power

/-- The numeral of a double; infinities and what is no number have none. -/
def ofFloat? (x : Float) : Option Numeral :=
  match x.toModel.unpack with
  | .notANumber | .infinity _ => none
  | .zero s => some (inFull (s == .negative) ['0'] 0)
  | .finite s m e _ => some (ofDecimal (s == .negative) (Decimal.shortest .even m e))

end Numeral
end DerivedSeries.Json
