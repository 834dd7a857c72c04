import DerivedSeries.Proofs.Binary64.Nearest
import DerivedSeries.Proofs.Binary64.Whole

/-!
# The numbers that doubles are

A finite double is a number, in its canonical form (`canonical_of_value?`), and so representable. Doubles are in
the order of their numbers (`le_of_value?_le`), and each of them is below `2 ^ 1024` (`abs_lt_of_value?`).
-/

namespace DerivedSeries.Binary64

open Float.Model Float.Model.UnpackedFloat

/-! ## Signs -/

theorem neg_apply (s : Sign) (n : ℤ) : (-s).apply n = -s.apply n := by
  cases s
  · exact (Int.neg_neg n).symm
  · rfl

theorem apply_mul (s t : Sign) : ((s * t).apply 1 : ℚ) = s.apply 1 * t.apply 1 := by
  have hsign : (s * t).apply 1 = s.apply 1 * t.apply 1 := by cases s <;> cases t <;> rfl
  rw [hsign, Int.cast_mul]

theorem apply_div (s t : Sign) : ((s / t).apply 1 : ℚ) = s.apply 1 / t.apply 1 := by
  have hsign : (s / t).apply 1 * t.apply 1 = s.apply 1 := by cases s <;> cases t <;> rfl
  have hunit : (t.apply 1 : ℚ) ≠ 0 := by cases t <;> norm_num [Sign.apply]
  rw [eq_div_iff hunit, ← Int.cast_mul, hsign]

theorem abs_apply (s : Sign) (m : ℕ) (e : ℤ) : |((s.apply m : ℤ) : ℚ) * 2 ^ e| = m * 2 ^ e := by
  have hpow : (0 : ℚ) < 2 ^ e := by positivity
  rw [abs_mul, abs_of_pos hpow]
  cases s <;> simp [Sign.apply]

theorem apply_pos {m : ℕ} (hm : 0 < m) (e : ℤ) : (0 : ℚ) < (Sign.positive.apply m : ℤ) * 2 ^ e := by
  show (0 : ℚ) < (m : ℤ) * 2 ^ e
  positivity

theorem apply_negative (m : ℕ) (e : ℤ) :
    ((Sign.negative.apply m : ℤ) : ℚ) * 2 ^ e = -((Sign.positive.apply m : ℤ) * 2 ^ e) := by
  rw [show Sign.negative.apply (m : ℤ) = -Sign.positive.apply (m : ℤ) from rfl, Int.cast_neg, neg_mul]

/-! ## Canonical forms -/

/-- A significand has 53 bits, or fewer at the least exponent. -/
def Fitting (m : ℕ) (e : ℤ) : Prop :=
  m < 2 ^ 53 ∧ -1074 ≤ e ∧ (2 ^ 52 ≤ m ∨ e = -1074)

/-- The unpacked number is the canonical form of a number, were there no greatest exponent. -/
inductive Canonical : ℚ → UnpackedFloat → Prop where
  | zero (s : Sign) : Canonical 0 (.zero s)
  | finite (s : Sign) (m : ℕ) (e : ℤ) (hm : 0 < m) (h : Fitting m e) :
    Canonical ((s.apply m : ℤ) * 2 ^ e) (.finite s m e hm)

section
variable {p q : ℚ} {u v : UnpackedFloat}

theorem Canonical.neg (h : Canonical q u) : Canonical (-q) u.neg := by
  cases h with
  | zero s =>
    rw [neg_zero]
    exact .zero (-s)
  | finite s m e hm hfit =>
    rw [← neg_mul, ← Int.cast_neg, ← neg_apply]
    exact .finite (-s) m e hm hfit

theorem Canonical.representable (h : Canonical q u) : Representable q := by
  cases h with
  | zero s => exact representable_zero
  | finite s m e hm hfit =>
    refine ⟨s.apply m, e, ?_, hfit.2.1, rfl⟩
    have habs : |s.apply (m : ℤ)| = m := by cases s <;> simp [Sign.apply]
    rw [habs]
    exact_mod_cast hfit.1.le

/-- Significands that fit are in the order of their exponents first. -/
theorem lex_of_mul_two_zpow_le {m n : ℕ} {e f : ℤ} (hm : Fitting m e) (hn : Fitting n f)
    (h : (m * 2 ^ e : ℚ) ≤ n * 2 ^ f) : e < f ∨ e = f ∧ m ≤ n := by
  have hpow : (0 : ℚ) < 2 ^ f := by positivity
  rcases lt_trichotomy e f with hlt | rfl | hgt
  · exact .inl hlt
  · exact .inr ⟨rfl, by exact_mod_cast (mul_le_mul_iff_left₀ hpow).1 h⟩
  · have hbits : 2 ^ 52 ≤ m := hm.2.2.resolve_right (by have := hn.2.1; omega)
    have hbits : (2 ^ 52 : ℚ) ≤ m := by exact_mod_cast hbits
    have hlt : (n : ℚ) < 2 ^ 53 := by exact_mod_cast hn.1
    have hnext : (n * 2 ^ f : ℚ) < m * 2 ^ e := by
      calc (n * 2 ^ f : ℚ) < 2 ^ 53 * 2 ^ f := mul_lt_mul_of_pos_right hlt hpow
        _ = 2 ^ 52 * 2 ^ (f + 1) := by rw [zpow_add_one₀ two_ne_zero]; ring
        _ ≤ 2 ^ 52 * 2 ^ e := by
          exact mul_le_mul_of_nonneg_left (zpow_le_zpow_right₀ one_le_two (by omega)) (by positivity)
        _ ≤ m * 2 ^ e := mul_le_mul_of_nonneg_right hbits (by positivity)
    exact absurd h hnext.not_ge

theorem keyOf_isLE (hu : Canonical p u) (hv : Canonical q v) (h : p ≤ q) :
    (compare (keyOf u) (keyOf v)).isLE = true := by
  cases hu with
  | zero s =>
    cases hv with
    | zero t => rfl
    | finite t n f hn _ =>
      cases t with
      | positive => rfl
      | negative =>
        rw [apply_negative] at h
        exact absurd h (neg_lt_zero.2 (apply_pos hn f)).not_ge
  | finite s m e hm hfit =>
    have hpos := apply_pos hm e
    cases hv with
    | zero t =>
      cases s with
      | positive => exact absurd h hpos.not_ge
      | negative => rfl
    | finite t n f hn hfit' =>
      have hpos' := apply_pos hn f
      cases s with
      | positive =>
        cases t with
        | positive =>
          have hlex := lex_of_mul_two_zpow_le hfit hfit' h
          exact compare_triple_isLE (by omega)
        | negative =>
          rw [apply_negative n] at h
          linarith
      | negative =>
        cases t with
        | positive => rfl
        | negative =>
          rw [apply_negative, apply_negative, neg_le_neg_iff] at h
          have hlex := lex_of_mul_two_zpow_le hfit' hfit h
          exact compare_triple_isLE (by omega)

end

/-! ## Finite doubles -/

theorem mul_two_zpow_lt {m : ℕ} {e : ℤ} (hm : m < 2 ^ 53) (he : e ≤ 971) :
    (m * 2 ^ e : ℚ) < 2 ^ (1024 : ℤ) := by
  have hm : (m : ℚ) < 2 ^ 53 := by exact_mod_cast hm
  calc (m * 2 ^ e : ℚ) < 2 ^ 53 * 2 ^ e := mul_lt_mul_of_pos_right hm (by positivity)
    _ = 2 ^ (53 + e) := by rw [zpow_add₀ two_ne_zero]; norm_num
    _ ≤ 2 ^ (1024 : ℤ) := zpow_le_zpow_right₀ one_le_two (by omega)

section
variable {x y : Float} {p q : ℚ}

theorem canonical_of_value? (h : value? x = some q) : Canonical q x.toModel.unpack := by
  rcases unpack_of_value? h with ⟨s, hx, rfl⟩ | ⟨s, m, e, hm, hx, hvalue⟩
  · rw [hx]
    exact .zero s
  · have hcanonical := canonical_of_unpack hx
    rw [hx, ← Option.some.inj hvalue]
    exact .finite s m e hm ⟨by omega, by omega, by omega⟩

theorem representable_of_value? (h : value? x = some q) : Representable q :=
  (canonical_of_value? h).representable

theorem abs_lt_of_value? (h : value? x = some q) : |q| < 2 ^ (1024 : ℤ) := by
  rcases unpack_of_value? h with ⟨s, -, rfl⟩ | ⟨s, m, e, hm, hx, hvalue⟩
  · rw [abs_zero]
    positivity
  · obtain ⟨hlt, -, hle⟩ := bounds_of_unpack hx
    rw [← Option.some.inj hvalue, abs_apply]
    exact mul_two_zpow_lt hlt hle

/-- Doubles are in the order of the numbers that they are. -/
theorem le_of_value?_le (hx : value? x = some p) (hy : value? y = some q) (h : p ≤ q) : x ≤ y := by
  rw [le_iff (isNaN_of_value? hx) (isNaN_of_value? hy)]
  exact keyOf_isLE (canonical_of_value? hx) (canonical_of_value? hy) h

theorem isFinite_of_value? (h : value? x = some q) : x.isFinite = true := by
  show x.toModel.unpack.isFinite = true
  rcases unpack_of_value? h with ⟨s, hx, -⟩ | ⟨s, m, e, hm, hx, -⟩
  · rw [hx]
    rfl
  · rw [hx]
    rfl

theorem unpack_of_isInf (h : x.isInf = true) : ∃ s, x.toModel.unpack = .infinity s := by
  have h : x.toModel.unpack.isInf = true := h
  cases hx : x.toModel.unpack with
  | infinity s => exact ⟨s, rfl⟩
  | notANumber => simp [hx, UnpackedFloat.isInf] at h
  | zero s => simp [hx, UnpackedFloat.isInf] at h
  | finite s m e hm => simp [hx, UnpackedFloat.isInf] at h

theorem not_isFinite_of_isInf (h : x.isInf = true) : ¬ x.isFinite = true := by
  obtain ⟨s, hx⟩ := unpack_of_isInf h
  show ¬ x.toModel.unpack.isFinite = true
  rw [hx]
  exact Bool.false_ne_true

end

end DerivedSeries.Binary64
