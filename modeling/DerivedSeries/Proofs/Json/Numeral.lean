import DerivedSeries.Json.Number
import DerivedSeries.Proofs.Text.Digits

/-!
# Written numerals

A numeral whose parts are of the form that the format asks for (`Numeral.IsValid`) is read as it is
written, if nothing follows that could continue it (`Numeral.read_write`).
-/

namespace DerivedSeries.Json

open Text (IsDigits NoDigitFirst Unpadded)

structure Exponent.IsValid (e : Exponent) : Prop where
  sign : e.sign = none ∨ e.sign = some '+' ∨ e.sign = some '-'
  digits : IsDigits e.digits

namespace Numeral

/-- Digits without an idle zero in front, then a fraction and an exponent of digits, if any. -/
structure IsValid (n : Numeral) : Prop where
  whole : IsDigits n.whole
  unpadded : Unpadded n.whole
  fraction : ∀ c ∈ n.fraction, c.isDigit = true
  exponent : ∀ e ∈ n.exponent, e.IsValid

/-- The text does not begin with what continues a numeral. -/
def Ends (cs : List Char) : Prop :=
  ∀ c ∈ cs.head?, c.isDigit = false ∧ c ≠ '.' ∧ c ≠ 'e' ∧ c ≠ 'E'

variable {cs ds rest : List Char}

theorem Ends.noDigitFirst (h : Ends rest) : NoDigitFirst rest :=
  fun c hc => (h c hc).1

/-! ## Reading what is written -/

theorem readDigits_append (hds : IsDigits ds) (hrest : NoDigitFirst rest) :
    readDigits (ds ++ rest) = some (ds, rest) := by
  obtain ⟨htake, hdrop⟩ := Text.span_isDigit hds.2 hrest
  have hne : ds.isEmpty = false := by simpa using hds.1
  simp [readDigits, htake, hdrop, hne]

theorem readWhole_append (hds : IsDigits ds) (hzero : Unpadded ds) (hrest : NoDigitFirst rest) :
    readWhole (ds ++ rest) = some (ds, rest) := by
  have hread := readDigits_append hds hrest
  obtain ⟨c, cs, rfl⟩ := List.exists_cons_of_ne_nil hds.1
  by_cases hc : c = '0'
  · subst hc
    rw [hzero rfl]
    rfl
  · have hwhole : readWhole (c :: cs ++ rest) = readDigits (c :: cs ++ rest) := by
      unfold readWhole
      split
      · rename_i heq
        cases heq
        exact absurd rfl hc
      · rfl
    rw [hwhole, hread]

/-- The digits after the point, with the point. -/
def fractionText (fs : List Char) : List Char :=
  if fs.isEmpty then [] else '.' :: fs

theorem readFraction_append {fs : List Char} (hfs : ∀ c ∈ fs, c.isDigit = true)
    (hrest : NoDigitFirst rest) (hpoint : ∀ r, rest ≠ '.' :: r) :
    readFraction (fractionText fs ++ rest) = some (fs, rest) := by
  cases fs with
  | nil =>
    show readFraction rest = some ([], rest)
    unfold readFraction
    split
    · exact absurd rfl (hpoint _)
    · rfl
  | cons c fs => exact readDigits_append ⟨by simp, hfs⟩ hrest

/-- The exponent with its letter. -/
def exponentText (e : Option Exponent) : List Char :=
  e.elim [] writeExponent

theorem readExponent_of_isDigits (hds : IsDigits ds) (hrest : NoDigitFirst rest) :
    readExponent ('e' :: (ds ++ rest)) = some (some ⟨none, ds⟩, rest) := by
  have hread := readDigits_append hds hrest
  obtain ⟨c, cs, rfl⟩ := List.exists_cons_of_ne_nil hds.1
  have hc : c.isDigit = true := hds.2 c (by simp)
  have hplus : c ≠ '+' := Text.ne_of_isDigit hc rfl
  have hminus : c ≠ '-' := Text.ne_of_isDigit hc rfl
  rw [List.cons_append] at hread ⊢
  simp [readExponent, hplus, hminus, hread]

theorem readExponent_append {e : Option Exponent} (he : ∀ x ∈ e, x.IsValid) (hrest : Ends rest) :
    readExponent (exponentText e ++ rest) = some (e, rest) := by
  rcases e with _ | ⟨sign, digits⟩
  · show readExponent rest = some (none, rest)
    cases rest with
    | nil => rfl
    | cons c rest =>
      obtain ⟨-, -, hlower, hupper⟩ := hrest c rfl
      simp [readExponent, hlower, hupper]
  · obtain ⟨hsign, hdigits⟩ := he _ rfl
    have hread := readDigits_append hdigits hrest.noDigitFirst
    rcases hsign with hsign | hsign | hsign <;> cases hsign
    · exact readExponent_of_isDigits hdigits hrest.noDigitFirst
    · show (readDigits (digits ++ rest)).map _ = _
      rw [hread]
      rfl
    · show (readDigits (digits ++ rest)).map _ = _
      rw [hread]
      rfl

theorem write_eq (n : Numeral) :
    n.write = (if n.negative then ['-'] else []) ++
      (n.whole ++ (fractionText n.fraction ++ exponentText n.exponent)) := by
  simp only [write, fractionText, exponentText, List.append_assoc]

theorem noDigitFirst_exponentText (e : Option Exponent) (hrest : Ends rest) :
    NoDigitFirst (exponentText e ++ rest) ∧ ∀ r, exponentText e ++ rest ≠ '.' :: r := by
  cases e with
  | none =>
    refine ⟨hrest.noDigitFirst, ?_⟩
    rintro r rfl
    exact (hrest '.' rfl).2.1 rfl
  | some x =>
    refine ⟨?_, nofun⟩
    rintro c ⟨⟩
    rfl

theorem noDigitFirst_fractionText (fs : List Char) (hrest : NoDigitFirst rest) :
    NoDigitFirst (fractionText fs ++ rest) := by
  cases fs with
  | nil => exact hrest
  | cons c fs =>
    rintro d ⟨⟩
    rfl

/-- Reads the parts of a numeral after its sign. -/
def readParts (negative : Bool) (cs : List Char) : Option (Numeral × List Char) := do
  let (whole, cs) ← readWhole cs
  let (fraction, cs) ← readFraction cs
  let (exponent, cs) ← readExponent cs
  return (⟨negative, whole, fraction, exponent⟩, cs)

theorem read_of_ne (h : ∀ r, cs ≠ '-' :: r) : read cs = readParts false cs := by
  simp [read, readParts]

theorem read_write {n : Numeral} (h : n.IsValid) (hrest : Ends rest) :
    read (n.write ++ rest) = some (n, rest) := by
  obtain ⟨negative, whole, fraction, exponent⟩ := n
  obtain ⟨hexponent, hpoint⟩ := noDigitFirst_exponentText exponent hrest
  have hparts : readParts negative (whole ++ (fractionText fraction ++ (exponentText exponent ++ rest))) =
      some (⟨negative, whole, fraction, exponent⟩, rest) := by
    simp [readParts, readExponent_append h.exponent hrest,
      readWhole_append h.whole h.unpadded (noDigitFirst_fractionText fraction hexponent),
      readFraction_append h.fraction hexponent hpoint]
  rw [write_eq, List.append_assoc, List.append_assoc, List.append_assoc]
  cases negative with
  | true => exact hparts
  | false =>
    obtain ⟨c, cs, rfl⟩ := List.exists_cons_of_ne_nil h.whole.1
    have hc : c ≠ '-' := Text.ne_of_isDigit (h.whole.2 c (by simp)) rfl
    refine (read_of_ne ?_).trans hparts
    rintro r ⟨⟩
    exact hc rfl

/-! ## What integers are read from -/

theorem readDigits_sound (h : readDigits cs = some (ds, rest)) : cs = ds ++ rest ∧ IsDigits ds := by
  simp only [readDigits, List.isEmpty_iff] at h
  split at h
  · cases h
  · rename_i hne
    cases h
    exact ⟨List.takeWhile_append_dropWhile.symm, hne, Text.isDigit_of_mem_takeWhile cs⟩

theorem readWhole_sound (h : readWhole cs = some (ds, rest)) :
    cs = ds ++ rest ∧ IsDigits ds ∧ Unpadded ds := by
  unfold readWhole at h
  split at h
  · cases h
    exact ⟨rfl, ⟨by simp, by simp⟩, fun _ => rfl⟩
  · rename_i hzero
    obtain ⟨rfl, hds⟩ := readDigits_sound h
    refine ⟨rfl, hds, fun hhead => ?_⟩
    obtain ⟨tail, rfl⟩ := List.head?_eq_some_iff.1 hhead
    exact absurd rfl (hzero _)

theorem readFraction_nil (h : readFraction cs = some ([], rest)) : cs = rest := by
  unfold readFraction at h
  split at h
  · exact absurd rfl (readDigits_sound h).2.1
  · cases h
    rfl

theorem readExponent_none (h : readExponent cs = some (none, rest)) : cs = rest := by
  unfold readExponent at h
  split at h
  · split at h
    · obtain ⟨r, -, hr⟩ := Option.map_eq_some_iff.1 h
      cases hr
    · cases h
      rfl
  · cases h
    rfl

/-- A numeral without fraction and exponent is read from its sign and its digits. -/
theorem read_sound {n : Numeral} (h : read cs = some (n, rest)) (hfraction : n.fraction = [])
    (hexponent : n.exponent = none) :
    cs = (if n.negative then ['-'] else []) ++ n.whole ++ rest ∧ IsDigits n.whole ∧
      Unpadded n.whole := by
  have hparts : ∃ negative left, cs = (if negative then ['-'] else []) ++ left ∧
      readParts negative left = some (n, rest) := by
    by_cases hminus : ∃ r, cs = '-' :: r
    · obtain ⟨r, rfl⟩ := hminus
      exact ⟨true, r, rfl, h⟩
    · rw [read_of_ne fun r hr => hminus ⟨r, hr⟩] at h
      exact ⟨false, cs, rfl, h⟩
  obtain ⟨negative, left, rfl, hread⟩ := hparts
  simp only [readParts, Option.bind_eq_bind, Option.bind_eq_some_iff, Option.pure_def,
    Option.some.injEq, Prod.mk.injEq, Prod.exists] at hread
  obtain ⟨whole, _, hw, fraction, _, hf, exponent, _, he, rfl, rfl⟩ := hread
  cases hfraction
  cases hexponent
  obtain ⟨rfl, hdigits, hzero⟩ := readWhole_sound hw
  rw [readFraction_nil hf, readExponent_none he, List.append_assoc]
  exact ⟨rfl, hdigits, hzero⟩

end Numeral
end DerivedSeries.Json
