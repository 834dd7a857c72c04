import DerivedSeries.Proofs.Json.Numeral

/-!
# Integers in JSON

A numeral is a word just if it has neither fraction nor exponent and its digits, with its sign, denote the
word; minus zero is none (`toInt64?_eq_some_iff`). So words are read from the numerals that they are
written as, and from no other text (`toString_of_read`).
-/

namespace DerivedSeries.Json

open Decimal (digitChars valueOf)

theorem Numeral.isValid_ofInt (n : Int) : (Numeral.ofInt n).IsValid :=
  ⟨Text.isDigits_digitChars _, Text.unpadded_digitChars _, nofun, nofun⟩

namespace Number

variable {n : Numeral} {v : Int64}

theorem toInt64?_ofNumeral (n : Numeral) :
    (ofNumeral n).bind toInt64? = (integer? n).bind toInt64? := by
  unfold ofNumeral
  cases integer? n with
  | some m => rfl
  | none => cases realOf n <;> rfl

theorem integer?_of_ne (h : n.fraction ≠ [] ∨ n.exponent ≠ none) : integer? n = none := by
  have hcond : ¬ (n.fraction.isEmpty && n.exponent.isNone) = true := by
    simp only [Bool.and_eq_true, List.isEmpty_iff, Option.isNone_iff_eq_none]
    rintro ⟨hfraction, hexponent⟩
    rcases h with h | h
    · exact h hfraction
    · exact h hexponent
  rw [integer?, if_neg hcond]

theorem bind_map_negative (k : Int) : ((int64? k).map negative).bind toInt64? = int64? k := by
  cases int64? k <;> rfl

theorem bind_natural (k : Nat) :
    (if k < UInt64.size then some (natural (UInt64.ofNat k)) else none).bind toInt64? = int64? k := by
  by_cases h : k < UInt64.size
  · rw [if_pos h]
    show int64? (UInt64.ofNat k).toNat = int64? k
    rw [UInt64.toNat_ofNat_of_lt' h]
  · -- a word is smaller than the numbers without a sign
    have hsize : UInt64.size = 18446744073709551616 := rfl
    have hmax : Int64.maxValue.toInt = 9223372036854775807 := rfl
    rw [if_neg h, int64?, if_neg (by omega)]
    rfl

theorem toInt64?_ofNumeral_of_whole (hfraction : n.fraction = []) (hexponent : n.exponent = none) :
    (ofNumeral n).bind toInt64? =
      if n.negative then if valueOf n.whole = 0 then none else int64? (-(valueOf n.whole : Int))
      else int64? (valueOf n.whole) := by
  rw [toInt64?_ofNumeral, integer?, hfraction, hexponent]
  simp only [List.isEmpty_nil, Option.isNone_none, Bool.and_self, if_true]
  cases n.negative with
  | true =>
    by_cases hzero : valueOf n.whole = 0
    · simp [hzero]
    · simp only [if_true, hzero, if_false, bind_map_negative]
  | false => exact bind_natural _

theorem toInt64?_eq_some_iff :
    (ofNumeral n).bind toInt64? = some v ↔
      n.fraction = [] ∧ n.exponent = none ∧ (n.negative = true → valueOf n.whole ≠ 0) ∧
        v.toInt = if n.negative then -(valueOf n.whole : Int) else valueOf n.whole := by
  by_cases hwhole : n.fraction = [] ∧ n.exponent = none
  · obtain ⟨hfraction, hexponent⟩ := hwhole
    rw [toInt64?_ofNumeral_of_whole hfraction hexponent]
    cases n.negative with
    | true => by_cases hzero : valueOf n.whole = 0 <;>
        simp [hfraction, hexponent, hzero, int64?_eq_some_iff]
    | false => simp [hfraction, hexponent, int64?_eq_some_iff]
  · have hnone : integer? n = none := integer?_of_ne (Classical.not_and_iff_not_or_not.1 hwhole)
    rw [toInt64?_ofNumeral, hnone]
    exact iff_of_false nofun fun h => hwhole ⟨h.1, h.2.1⟩

/-! ## Words as numerals -/

theorem toInt64?_ofInt (v : Int64) : (ofNumeral (.ofInt v.toInt)).bind toInt64? = some v := by
  have hvalue : valueOf (Numeral.ofInt v.toInt).whole = v.toInt.natAbs := Text.valueOf_digitChars _
  rw [toInt64?_eq_some_iff, hvalue]
  refine ⟨rfl, rfl, ?_, ?_⟩
  · intro hneg
    have hlt : v.toInt < 0 := of_decide_eq_true hneg
    omega
  · show v.toInt = if decide (v.toInt < 0) = true then _ else _
    by_cases hlt : v.toInt < 0
    · simp only [hlt, decide_true, if_true]
      omega
    · simp only [hlt, decide_false, Bool.false_eq_true, if_false]
      omega

theorem ofNumeral_ofInt_natural (u : UInt64) : ofNumeral (.ofInt u.toNat) = some (.natural u) := by
  have hvalue : valueOf (Numeral.ofInt u.toNat).whole = u.toNat := Text.valueOf_digitChars _
  have hneg : (Numeral.ofInt u.toNat).negative = false := by
    show decide ((u.toNat : Int) < 0) = false
    exact decide_eq_false (by omega)
  have hlt : u.toNat < UInt64.size := u.toNat_lt
  have hinteger : integer? (.ofInt u.toNat) = some (.natural u) := by
    simp [integer?, hneg, hvalue, hlt, show (Numeral.ofInt u.toNat).fraction = [] from rfl,
      show (Numeral.ofInt u.toNat).exponent = none from rfl]
  rw [ofNumeral, hinteger]

/-- The text of a word is the one that reads as the word. -/
theorem toString_of_read {cs : List Char} {m : Number} (hread : Numeral.read cs = some (n, []))
    (hm : ofNumeral n = some m) (hv : m.toInt64? = some v) : (toString v).toList = cs := by
  have hword : (ofNumeral n).bind toInt64? = some v := by rw [hm, Option.bind_some, hv]
  obtain ⟨hfraction, hexponent, hzero, hvalue⟩ := toInt64?_eq_some_iff.1 hword
  obtain ⟨rfl, hdigits, hunpadded⟩ := Numeral.read_sound hread hfraction hexponent
  have habs : digitChars v.toInt.natAbs = n.whole := by
    rw [show v.toInt.natAbs = valueOf n.whole by split at hvalue <;> omega]
    exact Text.digitChars_valueOf hdigits hunpadded
  rw [Text.toList_toString, habs, List.append_nil]
  cases hneg : n.negative with
  | true =>
    have hne := hzero hneg
    simp only [hneg, if_true] at hvalue
    rw [if_pos (by omega)]
    rfl
  | false =>
    simp only [hneg, Bool.false_eq_true, if_false] at hvalue
    rw [if_neg (by omega)]
    rfl

end Number
end DerivedSeries.Json
