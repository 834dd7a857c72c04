import DerivedSeries.Decimal.Positional
import DerivedSeries.Proofs.Text.Numeral
import DerivedSeries.Text.Blank

/-!
# Numbers as digits

The digits of a number denote it (`valueOf_digitChars`), and digits in front of which no zero is idle are
those of the number that they denote (`digitChars_valueOf`). A word shows a minus sign if it is negative,
and then the digits of its amount (`toList_toString`); what it shows is read as the word
(`readInt64_toString`) and has no blanks to trim (`trim_toString`).
-/

namespace DerivedSeries.Text

open Decimal (digitChars valueOf)

/-- No zero stands in front of other digits. -/
def Unpadded (ds : List Char) : Prop :=
  ds.head? = some '0' → ds = ['0']

theorem ne_of_isDigit {c d : Char} (hc : c.isDigit = true) (hd : d.isDigit = false) : c ≠ d := by
  rintro rfl
  rw [hc] at hd
  cases hd

theorem valueOf_digitChars (n : Nat) : valueOf (digitChars n) = n := by
  have hfold : valueOf (digitChars n) = Nat.ofDigitChars 10 (Nat.toDigits 10 n) 0 := by
    simp only [valueOf, digitChars, Nat.ofDigitChars_eq_foldl, Nat.mul_comm]
  rw [hfold, Nat.ofDigitChars_ten_toDigits]

theorem isDigits_digitChars (n : Nat) : IsDigits (digitChars n) :=
  ⟨Nat.toDigits_ne_nil, fun _ hc => Nat.isDigit_of_mem_toDigits (by decide) (by decide) hc⟩

theorem head?_digitChars_ne {n : Nat} (hn : 0 < n) : (digitChars n).head? ≠ some '0' := by
  induction n using Nat.strongRecOn with
  | ind n ih =>
    unfold digitChars
    rcases Nat.lt_or_ge n 10 with hlt | hge
    · rw [Nat.toDigits_of_lt_base hlt]
      simp only [List.head?_cons, ne_eq, Option.some.injEq, Nat.digitChar_eq_zero]
      omega
    · -- the first digit is that of a tenth
      have hfront : (Nat.toDigits 10 (n / 10)).head? ≠ some '0' := ih (n / 10) (by omega) (by omega)
      obtain ⟨c, cs, hcs⟩ := List.exists_cons_of_ne_nil (Nat.toDigits_ne_nil (n := n / 10) (b := 10))
      rw [Nat.toDigits_of_base_le (by decide) hge]
      rw [hcs] at hfront ⊢
      exact hfront

theorem unpadded_digitChars (n : Nat) : Unpadded (digitChars n) := by
  intro h
  rcases Nat.eq_zero_or_pos n with rfl | hn
  · rfl
  · exact absurd h (head?_digitChars_ne hn)

/-! ## The digits of a value -/

theorem digit_bounds {c : Char} (h : c.isDigit = true) : 48 ≤ c.toNat ∧ c.toNat ≤ 57 := by
  simpa [Char.isDigit, UInt32.le_iff_toNat_le] using h

/-- A digit is the one that its value is written with. -/
theorem digitChar_of_isDigit {c : Char} (h : c.isDigit = true) :
    (c.toNat - '0'.toNat).digitChar = c := by
  obtain ⟨hmin, hmax⟩ := digit_bounds h
  have hzero : '0'.toNat = 48 := rfl
  apply Char.toNat_inj.1
  rw [Nat.toNat_digitChar_of_lt_ten (by omega)]
  omega

/-- Digits are appended to those of a number that is not zero. -/
theorem digitChars_foldl {acc : Nat} (hacc : 0 < acc) {cs : List Char}
    (hcs : ∀ c ∈ cs, c.isDigit = true) :
    digitChars (cs.foldl (fun n c => n * 10 + (c.toNat - '0'.toNat)) acc) = digitChars acc ++ cs := by
  induction cs generalizing acc with
  | nil => exact (List.append_nil _).symm
  | cons c cs ih =>
    obtain ⟨hc, hcs⟩ := List.forall_mem_cons.1 hcs
    obtain ⟨hmin, hmax⟩ := digit_bounds hc
    have hzero : '0'.toNat = 48 := rfl
    have hlt : c.toNat - '0'.toNat < 10 := by omega
    have hstep : digitChars (acc * 10 + (c.toNat - '0'.toNat)) = digitChars acc ++ [c] := by
      unfold digitChars
      rw [Nat.mul_comm, ← Nat.toDigits_append_toDigits (by decide) hacc hlt,
        Nat.toDigits_of_lt_base hlt, digitChar_of_isDigit hc]
    rw [List.foldl_cons, ih (by omega) hcs, hstep, List.append_assoc]
    rfl

theorem digitChars_valueOf {ds : List Char} (hds : IsDigits ds) (h : Unpadded ds) :
    digitChars (valueOf ds) = ds := by
  obtain ⟨c, cs, rfl⟩ := List.exists_cons_of_ne_nil hds.1
  obtain ⟨hc, hcs⟩ := List.forall_mem_cons.1 hds.2
  by_cases hc0 : c = '0'
  · subst hc0
    rw [h rfl]
    rfl
  · obtain ⟨hmin, hmax⟩ := digit_bounds hc
    have hzero : '0'.toNat = 48 := rfl
    have hne : c.toNat ≠ '0'.toNat := fun he => hc0 (Char.toNat_inj.1 he)
    have hlt : c.toNat - '0'.toNat < 10 := by omega
    show digitChars (cs.foldl _ (0 * 10 + (c.toNat - '0'.toNat))) = c :: cs
    rw [Nat.zero_mul, Nat.zero_add, digitChars_foldl (by omega) hcs, digitChars,
      Nat.toDigits_of_lt_base hlt, digitChar_of_isDigit hc]
    rfl

/-! ## Words -/

/-- What a word shows. -/
theorem toList_toString (v : Int64) :
    (toString v).toList =
      (if v.toInt < 0 then ['-'] else []) ++ digitChars v.toInt.natAbs := by
  show (toString v.toInt).toList = _
  rw [Int.toString_eq_repr, Int.repr_eq_if]
  by_cases h : v.toInt < 0
  · rw [if_neg (by omega), if_pos h, String.toList_append, Nat.toList_repr,
      show (-v.toInt).toNat = v.toInt.natAbs by omega]
    rfl
  · rw [if_pos (by omega), if_neg h, Nat.toList_repr, show v.toInt.toNat = v.toInt.natAbs by omega]
    rfl

/-- A word shows a minus sign and digits, and nothing else. -/
theorem mem_toString {v : Int64} : ∀ c ∈ (toString v).toList, c = '-' ∨ c.isDigit = true := by
  rw [toList_toString]
  intro c hc
  rcases List.mem_append.1 hc with hc | hc
  · split at hc
    · exact .inl (List.mem_singleton.1 hc)
    · cases hc
  · exact .inr ((isDigits_digitChars _).2 c hc)

theorem numeral_toString (v : Int64) : Numeral (toString v).toList v.toInt := by
  rw [toList_toString]
  have hvalue := valueOf_digitChars v.toInt.natAbs
  have hdigits := isDigits_digitChars v.toInt.natAbs
  by_cases h : v.toInt < 0
  · have hminus := Numeral.minus hdigits
    rw [hvalue, show -(v.toInt.natAbs : Int) = v.toInt by omega] at hminus
    rwa [if_pos h, List.singleton_append]
  · have hunsigned := Numeral.unsigned hdigits
    rw [hvalue, show (v.toInt.natAbs : Int) = v.toInt by omega] at hunsigned
    rwa [if_neg h, List.nil_append]

theorem readInt64_toString (v : Int64) : readInt64 (toString v) = .ok v :=
  readInt64_eq_ok_iff.2 (numeral_toString v)

theorem toString_injective : Function.Injective fun v : Int64 => toString v := by
  intro v w h
  have hread := readInt64_toString v
  rw [show toString v = toString w from h, readInt64_toString] at hread
  exact (Except.ok.inj hread).symm

theorem trim_toString (v : Int64) : trim (toString v) = toString v := by
  have hblank : ∀ c ∈ (toString v).toList, isBlank c = false := by
    intro c hc
    rcases mem_toString c hc with rfl | hc
    · rfl
    · have hbounds := digit_bounds hc
      simp [isBlank, inRanges, blankRanges]
      omega
  rw [trim, stripEnds_eq_self, String.ofList_toList]
  · exact fun c hc => hblank c (List.mem_of_mem_head? hc)
  · exact fun c hc => hblank c (List.mem_of_mem_getLast? hc)

end DerivedSeries.Text
