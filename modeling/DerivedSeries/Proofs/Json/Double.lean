import DerivedSeries.Proofs.Binary64.Packing
import DerivedSeries.Proofs.Decimal.Shortest
import DerivedSeries.Proofs.Json.Number

/-!
# Doubles in JSON

Every finite double has a numeral, and the numeral has a point or an exponent
(`Numeral.exists_ofFloat?_of_isFinite`). So a double that is written is never read as an integer
(`Number.ofNumeral_of_isReal`).
-/

namespace DerivedSeries.Json

namespace Numeral

open Text (IsDigits)

/-- The numeral is of the form that the format asks for, and has a point or an exponent. -/
structure IsReal (n : Numeral) : Prop where
  valid : n.IsValid
  marked : n.fraction ≠ [] ∨ n.exponent ≠ none

variable {ds : List Char}

theorem unpadded_of_head?_ne (h : ds.head? ≠ some '0') : Text.Unpadded ds :=
  fun hhead => absurd hhead h

theorem isDigit_of_mem_replicate {k : Nat} : ∀ c ∈ List.replicate k '0', c.isDigit = true := by
  intro c hc
  rw [List.eq_of_mem_replicate hc]
  rfl

theorem isReal_inFull (negative : Bool) (hds : IsDigits ds) (hhead : ds.head? ≠ some '0')
    (exponent : Int) : (inFull negative ds exponent).IsReal := by
  have hlength : 0 < ds.length := List.length_pos_iff.2 hds.1
  unfold inFull
  simp only
  split
  · -- zeros behind the digits
    refine ⟨⟨⟨?_, ?_⟩, ?_, by simp, nofun⟩, .inl (by simp)⟩
    · simp [hds.1]
    · exact List.forall_mem_append.2 ⟨hds.2, isDigit_of_mem_replicate⟩
    · apply unpadded_of_head?_ne
      rwa [List.head?_append_of_ne_nil _ hds.1]
  split
  · -- the point among the digits
    refine ⟨⟨⟨?_, ?_⟩, ?_, ?_, nofun⟩, .inl ?_⟩
    · rw [← List.length_pos_iff, List.length_take]
      omega
    · exact fun c hc => hds.2 c (List.mem_of_mem_take hc)
    · apply unpadded_of_head?_ne
      rwa [List.head?_take, if_neg (by omega)]
    · exact fun c hc => hds.2 c (List.mem_of_mem_drop hc)
    · rw [← List.length_pos_iff, List.length_drop]
      omega
  · -- the point before the digits
    refine ⟨⟨⟨by simp, by simp⟩, fun _ => rfl, ?_, nofun⟩, .inl (by simp [hds.1])⟩
    exact List.forall_mem_append.2 ⟨isDigit_of_mem_replicate, hds.2⟩

/-- Zero has a digit on both sides of the point. -/
theorem isReal_zero (negative : Bool) : (inFull negative ['0'] 0).IsReal := by
  have hdigits : ∀ c ∈ ['0'], c.isDigit = true := by simp
  have hzero : inFull negative ['0'] 0 = ⟨negative, ['0'], ['0'], none⟩ := rfl
  rw [hzero]
  exact ⟨⟨⟨List.cons_ne_nil _ _, hdigits⟩, fun _ => rfl, hdigits, nofun⟩, .inl (List.cons_ne_nil _ _)⟩

theorem isReal_scientific (negative : Bool) (hds : IsDigits ds) (hhead : ds.head? ≠ some '0')
    (power : Int) : (scientific negative ds power).IsReal := by
  refine ⟨⟨⟨?_, ?_⟩, ?_, ?_, ?_⟩, .inr nofun⟩
  · rw [← List.length_pos_iff]
    show 0 < (ds.take 1).length
    have hlength : 0 < ds.length := List.length_pos_iff.2 hds.1
    rw [List.length_take]
    omega
  · exact fun c hc => hds.2 c (List.mem_of_mem_take hc)
  · apply unpadded_of_head?_ne
    show (ds.take 1).head? ≠ some '0'
    rwa [List.head?_take, if_neg (by omega)]
  · exact fun c hc => hds.2 c (List.mem_of_mem_drop hc)
  · rintro e ⟨⟩
    refine ⟨?_, Text.isDigits_digitChars _⟩
    show some (if power < 0 then '-' else '+') = none ∨ _
    split
    · exact .inr (.inr rfl)
    · exact .inr (.inl rfl)

theorem isReal_ofDecimal (negative : Bool) {d : Decimal} (h : 0 < d.digits) :
    (ofDecimal negative d).IsReal := by
  have hds : IsDigits (Decimal.digitChars d.digits) := Text.isDigits_digitChars _
  have hhead := Text.head?_digitChars_ne h
  unfold ofDecimal
  simp only
  split
  · exact isReal_inFull negative hds hhead _
  · exact isReal_scientific negative hds hhead _

theorem exists_ofFloat?_of_isFinite {x : Float} (h : x.isFinite = true) :
    ∃ n, ofFloat? x = some n ∧ n.IsReal := by
  have h : x.toModel.unpack.isFinite = true := h
  unfold ofFloat?
  cases hx : x.toModel.unpack with
  | notANumber => rw [hx] at h; cases h
  | infinity s => rw [hx] at h; cases h
  | zero s => exact ⟨_, rfl, isReal_zero _⟩
  | finite s m e hm =>
    obtain ⟨hm', hlo, hhi⟩ := Binary64.bounds_of_unpack hx
    exact ⟨_, rfl, isReal_ofDecimal _ (Decimal.shortest_digits_pos .even hm hm' hlo hhi)⟩

end Numeral

theorem Number.ofNumeral_of_isReal {n : Numeral} (h : n.IsReal) :
    ofNumeral n = (realOf n).map real := by
  rw [ofNumeral, integer?_of_ne h.marked]

end DerivedSeries.Json
