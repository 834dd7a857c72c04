import DerivedSeries.Sample
import DerivedSeries.Proofs.Binary64.Whole

/-!
# Multiples of integers

An integral factor multiplies an integer exactly while the product fits. Beyond, the product is one of
doubles, truncated and clamped. It mostly ends on the limit, as the exact product does, but not always: a
sample that is rounded down can leave the product of doubles below the limit (`FallsShort`), and then the
multiple is the last double before it.
-/

namespace DerivedSeries.Sample

open Binary64

/-- The product of `v` and `k` is out of range, but with `v` as a double it is nearer to the last double
below the limit than to the limit. -/
def FallsShort (v k : Int) : Prop :=
  ¬ Fits (v * k) ∧ (nearest v * k).natAbs < 2 ^ 63 - 512

instance (v k : Int) : Decidable (FallsShort v k) :=
  inferInstanceAs (Decidable (_ ∧ _))

/-- A sample of at most 53 bits never falls short. -/
theorem not_fallsShort_of_natAbs_lt {v : Int} (h : v.natAbs < 2 ^ 53) (k : Int) : ¬ FallsShort v k := by
  rintro ⟨hfits, hshort⟩
  rw [nearest_of_natAbs_lt h] at hshort
  rw [not_fits_iff] at hfits
  omega

section
variable {v k : Int}

/-- Rounding `v` takes the product back by one double below the limit at most. -/
theorem le_natAbs_nearest_mul (h : ¬ Fits (v * k)) : 2 ^ 63 - 1024 ≤ (nearest v * k).natAbs := by
  have hle := Nat.mul_le_mul_right k.natAbs (kept_error v.natAbs).1
  rw [Nat.add_mul, Nat.mul_assoc, Nat.mul_assoc, ← natAbs_nearest, ← Int.natAbs_mul,
    ← Int.natAbs_mul] at hle
  rw [not_fits_iff] at h
  omega

theorem kept_of_fallsShort (h : FallsShort v k) : kept (nearest v * k).natAbs = 2 ^ 63 - 1024 := by
  have hlt : (nearest v * k).natAbs < 2 ^ 63 := Nat.lt_of_lt_of_le h.2 (by decide)
  rw [kept_below_limit (le_natAbs_nearest_mul h.1) hlt, if_pos h.2]

theorem le_kept_of_not_fallsShort (h : ¬ Fits (v * k)) (hshort : ¬ FallsShort v k) :
    2 ^ 63 ≤ kept (nearest v * k).natAbs := by
  rcases Nat.lt_or_ge (nearest v * k).natAbs (2 ^ 63) with hlt | hge
  · rw [kept_below_limit (le_natAbs_nearest_mul h) hlt, if_neg fun hless => hshort ⟨h, hless⟩]
  · exact two_pow_le_kept hge

theorem nearest_product (v k : Int) :
    nearest (nearest v * k) = (v * k).sign * kept (nearest v * k).natAbs := by
  rw [nearest, Int.sign_mul, sign_nearest, Int.sign_mul]

/-- Out of range, the product of doubles ends on the limit unless it falls short. -/
theorem clamp_nearest_product (h : ¬ Fits (v * k)) :
    clamp (nearest (nearest v * k)) =
      if FallsShort v k then (v * k).sign * (2 ^ 63 - 1024) else clamp (v * k) := by
  have hmin := Int64.toInt_minValue
  have hmax := Int64.toInt_maxValue
  have hsign : (v * k).sign = -1 ∧ v * k < -2 ^ 63 ∨ (v * k).sign = 1 ∧ 2 ^ 63 ≤ v * k :=
    (not_fits_iff.1 h).imp (fun hneg => ⟨Int.sign_eq_neg_one_of_neg (by omega), hneg⟩)
      fun hpos => ⟨Int.sign_eq_one_of_pos (by omega), hpos⟩
  rw [nearest_product]
  by_cases hshort : FallsShort v k
  · rw [if_pos hshort, kept_of_fallsShort hshort]
    apply clamp_of_fits
    unfold Fits
    omega
  · have hge := le_kept_of_not_fallsShort h hshort
    rw [if_neg hshort]
    unfold clamp
    rcases hsign with ⟨hunit, hneg⟩ | ⟨hunit, hpos⟩
    · rw [hunit]
      omega
    · rw [hunit]
      omega

end

section
variable {f : Float} {v k p : Int64}

theorem scale_of_fits (hf : value? f = some (k.toInt : ℚ)) (hp : p.toInt = v.toInt * k.toInt) :
    scale f (int v) = int p := by
  have hexact : ofInt? (v.toInt * k.toInt) = some (int p) := by
    rw [ofInt?, int64?_eq_some_iff.2 hp]
    rfl
  rw [scale, toInt64?_of_value? hf]
  simp only [Option.bind_some, hexact, Option.getD_some]

theorem scale_of_not_fits (hf : value? f = some (k.toInt : ℚ)) (h : ¬ Fits (v.toInt * k.toInt)) :
    scale f (int v) = int (truncate (ofInt v.toInt * f)) := by
  have hnone : ofInt? (v.toInt * k.toInt) = none := by
    rw [ofInt?, int64?_eq_none_iff.2 h]
    rfl
  rw [scale, toInt64?_of_value? hf]
  simp only [Option.bind_some, hnone, Option.getD_none]

/-- As doubles, the sample is rounded, and then the product is. -/
theorem toInt_truncate_mul (hf : value? f = some (k.toInt : ℚ)) (h : v.toInt * k.toInt ≠ 0) :
    (truncate (ofInt v.toInt * f)).toInt = clamp (nearest (nearest v.toInt * k.toInt)) := by
  obtain ⟨hv, hk⟩ := Int.mul_ne_zero_iff.1 h
  have hvle : v.toInt.natAbs ≤ 2 ^ 63 := natAbs_toInt_le v
  have hkle : k.toInt.natAbs ≤ 2 ^ 63 := natAbs_toInt_le k
  have hne : nearest v.toInt ≠ 0 := by
    rw [← Int.natAbs_ne_zero, natAbs_nearest]
    exact (kept_pos (Int.natAbs_ne_zero.2 hv)).ne'
  have hle : (nearest v.toInt * k.toInt).natAbs ≤ 2 ^ 127 := by
    have hkept := (kept_error v.toInt.natAbs).2
    calc (nearest v.toInt * k.toInt).natAbs = kept v.toInt.natAbs * k.toInt.natAbs := by
          rw [Int.natAbs_mul, natAbs_nearest]
      _ ≤ 2 ^ 64 * 2 ^ 63 := Nat.mul_le_mul (by omega) hkle
  have hproduct : ofInt v.toInt * f = ofInt (nearest v.toInt * k.toInt) :=
    mul_eq_ofInt (value?_ofInt (Nat.le_trans (log2_le_of_le hvle) (by decide))) hf hne hk
  rw [hproduct, toInt_truncate (value?_ofInt (Nat.le_trans (log2_le_of_le hle) (by decide)))]

theorem exists_scale (hf : value? f = some (k.toInt : ℚ)) (v : Int64) :
    ∃ p : Int64, scale f (int v) = int p ∧
      p.toInt = if FallsShort v.toInt k.toInt then (v.toInt * k.toInt).sign * (2 ^ 63 - 1024)
        else clamp (v.toInt * k.toInt) := by
  by_cases h : Fits (v.toInt * k.toInt)
  · obtain ⟨p, hp⟩ := fits_iff.1 h
    refine ⟨p, scale_of_fits hf hp, ?_⟩
    rw [if_neg fun hshort => hshort.1 h, clamp_of_fits h, hp]
  · have hne : v.toInt * k.toInt ≠ 0 := fun hzero => h (hzero ▸ by decide)
    exact ⟨_, scale_of_not_fits hf h, by rw [toInt_truncate_mul hf hne, clamp_nearest_product h]⟩

end

/-- An integral factor `k` multiplies every integer to an integer: the exact product, clamped to the range of
words, unless the product falls short of the limit. Apart from those, the multiples by a factor that is not
negative are in the order of the samples. -/
theorem scale_integral {f : Float} {k : Int64} (hf : value? f = some (k.toInt : ℚ)) :
    ∃ p : Int64 → Int64, (∀ v, scale f (int v) = int (p v)) ∧
      (∀ v : Int64, (p v).toInt =
        if FallsShort v.toInt k.toInt then (v.toInt * k.toInt).sign * (2 ^ 63 - 1024)
        else clamp (v.toInt * k.toInt)) ∧
      (∀ v : Int64, v.toInt.natAbs < 2 ^ 53 → ¬ FallsShort v.toInt k.toInt) ∧
      (0 ≤ k → ∀ v w : Int64, v ≤ w → ¬ FallsShort v.toInt k.toInt → ¬ FallsShort w.toInt k.toInt →
        p v ≤ p w) := by
  choose p hscale hp using exists_scale hf
  refine ⟨p, hscale, hp, fun v hv => not_fallsShort_of_natAbs_lt hv _, ?_⟩
  intro hk v w hvw hv hw
  have hproducts : v.toInt * k.toInt ≤ w.toInt * k.toInt :=
    Int.mul_le_mul_of_nonneg_right (Int64.le_iff_toInt_le.1 hvw) (Int64.le_iff_toInt_le.1 hk)
  rw [Int64.le_iff_toInt_le, hp, hp, if_neg hv, if_neg hw]
  exact clamp_le_clamp hproducts

/-- One sample falls short of the limit with a factor of 501, and the next one reaches it. -/
theorem scale_by_501 :
    value? (ofInt 501) = some ((501 : Int64).toInt : ℚ) ∧
      ∃ p : Int64 → Int64, (∀ v, scale (ofInt 501) (int v) = int (p v)) ∧
        (p 18409924225259034).toInt = 2 ^ 63 - 1024 ∧
        (p 18409924225259035).toInt = Int64.maxValue.toInt := by
  have hf : value? (ofInt 501) = some ((501 : Int64).toInt : ℚ) := value?_ofInt (by decide)
  obtain ⟨p, hscale, hp, -⟩ := scale_integral hf
  exact ⟨hf, p, hscale, (hp _).trans (by decide), (hp _).trans (by decide)⟩

/-- Of two neighbours, the greater has the lesser multiple: exact products would be 501 apart, and the second
one out of range. -/
theorem scale_falls_short :
    value? (ofInt 501) = some ((501 : Int64).toInt : ℚ) ∧
      scale (ofInt 501) (int 18409924225259033) = int 9223372036854775533 ∧
      scale (ofInt 501) (int 18409924225259034) = int 9223372036854774784 ∧
      clamp ((18409924225259034 : Int64).toInt * (501 : Int64).toInt) = 9223372036854775807 := by
  refine ⟨?_, by decide, by decide, by decide⟩
  exact value?_ofInt (by decide)

end DerivedSeries.Sample
