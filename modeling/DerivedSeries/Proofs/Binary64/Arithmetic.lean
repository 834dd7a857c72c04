import DerivedSeries.Proofs.Binary64.Values

/-!
# Arithmetic of doubles

A sum, difference, product or quotient of finite doubles is the nearest double to the exact one, or an
infinity if that is beyond the greatest double (`Yields`). The first step is common to all of them: an exact
result of any length is cut to 53 bits, and the bits that are dropped say how it went on (`Begins`), which is
enough to round it to the nearest (`rounds_roundWithAccuracy`).
-/

namespace DerivedSeries.Binary64

open Float.Model Float.Model.UnpackedFloat

/-! ## The bits behind a mantissa -/

/-- The number `x` begins with the mantissa, and the bits behind it say how it goes on. -/
def Begins (em : ExtendedMantissa) (x : ℚ) : Prop :=
  match em.accuracy with
  | .exact => x = em.mantissa
  | .inexact .lt => em.mantissa < x ∧ x < em.mantissa + 1 / 2
  | .inexact .eq => x = em.mantissa + 1 / 2
  | .inexact .gt => em.mantissa + 1 / 2 < x ∧ x < em.mantissa + 1

section
variable {em : ExtendedMantissa} {x : ℚ}

theorem Begins.shiftRightOne (h : Begins em x) : Begins em.shiftRightOne (x / 2) := by
  obtain ⟨m, r, s⟩ := em
  have hsplit : (m : ℚ) = 2 * (m / 2 : ℕ) + (m % 2 : ℕ) := by exact_mod_cast (Nat.div_add_mod m 2).symm
  rcases Nat.mod_two_eq_zero_or_one m with hbit | hbit <;> cases r <;> cases s <;>
    simp [Begins, ExtendedMantissa.shiftRightOne, ExtendedMantissa.accuracy, hbit] at h hsplit ⊢ <;>
    grind

theorem Begins.shiftRight (h : Begins em x) (n : ℕ) : Begins (em >>> n) (x / 2 ^ n) := by
  show Begins (n.repeat ExtendedMantissa.shiftRightOne em) _
  induction n with
  | zero => simpa [Nat.repeat] using h
  | succ n ih =>
    rw [pow_succ, ← div_div]
    exact ih.shiftRightOne

theorem Begins.bounds (h : Begins em x) : em.mantissa ≤ x ∧ x < em.mantissa + 1 := by
  unfold Begins at h
  split at h <;> constructor <;> linarith

theorem roundedMantissa_bounds (em : ExtendedMantissa) :
    em.mantissa ≤ em.roundedMantissa ∧ em.roundedMantissa ≤ em.mantissa + 1 := by
  obtain ⟨m, r, s⟩ := em
  rw [roundedMantissa_mk]
  split_ifs <;> simp only <;> omega

theorem Begins.error (h : Begins em x) : |(em.roundedMantissa : ℚ) - x| ≤ 1 / 2 := by
  have hbit : ((em.mantissa % 2 : ℕ) : ℚ) = 0 ∨ ((em.mantissa % 2 : ℕ) : ℚ) = 1 := by
    rcases Nat.mod_two_eq_zero_or_one em.mantissa with hbit | hbit <;> simp [hbit]
  unfold Begins at h
  unfold ExtendedMantissa.roundedMantissa
  rw [abs_le]
  split at h <;> rename_i hacc <;> rw [hacc] <;> simp only [Accuracy.roundToNearestEven] <;> push_cast
  · constructor <;> linarith
  · constructor <;> linarith
  · rcases hbit with hbit | hbit <;> rw [hbit] <;> constructor <;> linarith
  · constructor <;> linarith

end

theorem begins_exact (m : ℕ) : Begins (.ofMantissaAndAccuracy m .exact) m := rfl

theorem accuracy_ofMantissaAndAccuracy (m : ℕ) (acc : Accuracy) :
    (ExtendedMantissa.ofMantissaAndAccuracy m acc).accuracy = acc ∧
      (ExtendedMantissa.ofMantissaAndAccuracy m acc).mantissa = m := by
  rcases acc with _ | _ | _ | _ <;> exact ⟨rfl, rfl⟩

/-- A quotient begins with its whole part. -/
theorem begins_div (n : ℕ) {d : ℕ} (hd : 0 < d) :
    Begins (.ofMantissaAndAccuracy (n / d) (accuracyOfFraction (n % d) d)) (n / d) := by
  have hd' : (0 : ℚ) < d := Nat.cast_pos.2 hd
  have hlt : ((n % d : ℕ) : ℚ) < d := by exact_mod_cast Nat.mod_lt n hd
  have hsplit : (n : ℚ) = (n / d : ℕ) * d + (n % d : ℕ) := by exact_mod_cast (Nat.div_add_mod' n d).symm
  obtain ⟨hacc, hmantissa⟩ :=
    accuracy_ofMantissaAndAccuracy (n / d) (accuracyOfFraction (n % d) d)
  unfold Begins
  rw [hacc, hmantissa]
  generalize n / d = q at *
  generalize n % d = r at *
  unfold accuracyOfFraction
  split_ifs with hr
  · show (n / d : ℚ) = q
    rw [hsplit, hr, Nat.cast_zero, add_zero, mul_div_cancel_right₀ _ hd'.ne']
  · have hr' : (0 : ℚ) < r := Nat.cast_pos.2 (Nat.pos_of_ne_zero hr)
    cases hcompare : compare (2 * r) d with
    | lt =>
      have hhalf : (2 * r : ℚ) < d := by exact_mod_cast Nat.compare_eq_lt.1 hcompare
      show (q : ℚ) < n / d ∧ (n / d : ℚ) < q + 1 / 2
      rw [lt_div_iff₀ hd', div_lt_iff₀ hd']
      constructor <;> linarith
    | eq =>
      have hhalf : (2 * r : ℚ) = d := by exact_mod_cast Nat.compare_eq_eq.1 hcompare
      show (n / d : ℚ) = q + 1 / 2
      rw [div_eq_iff hd'.ne']
      linarith
    | gt =>
      have hhalf : (d : ℚ) < 2 * r := by exact_mod_cast Nat.compare_eq_gt.1 hcompare
      show (q + 1 / 2 : ℚ) < n / d ∧ (n / d : ℚ) < q + 1
      rw [lt_div_iff₀ hd', div_lt_iff₀ hd']
      constructor <;> linarith

/-! ## Rounding -/

/-- The unpacked number is what `q` is rounded to, were there no greatest exponent. -/
def Rounds (q : ℚ) (u : UnpackedFloat) : Prop :=
  ∃ r, Canonical r u ∧ Nearest q r

theorem Canonical.rounds {q : ℚ} {u : UnpackedFloat} (h : Canonical q u) : Rounds q u :=
  ⟨q, h, nearest_self h.representable⟩

/-- A rounded significand is brought into its form without loss, also if it has become too long. -/
theorem exists_shiftToTargetExponent {m : ℕ} {e : ℤ} (hm : m ≤ 2 ^ 53) (he : -1074 ≤ e)
    (hbits : 2 ^ 52 ≤ m ∨ e = -1074) :
    ∃ a f, shiftToTargetExponent .binary64 m e .exact = (.ofMantissaAndAccuracy a .exact, f) ∧
      Fitting a f ∧ (a * 2 ^ f : ℚ) = m * 2 ^ e := by
  rcases Nat.lt_or_eq_of_le hm with hlt | rfl
  · exact ⟨m, e, shiftToTargetExponent_of_lt hlt he, ⟨hlt, he, hbits⟩, rfl⟩
  · refine ⟨2 ^ 52, e + 1, shiftToTargetExponent_carry he, ⟨by norm_num, by omega, .inl le_rfl⟩, ?_⟩
    rw [zpow_add_one₀ two_ne_zero]
    push_cast
    ring

theorem canonical_roundWithAccuracy {sign : Sign} {m a : ℕ} {e e₁ e₂ : ℤ} {acc : Accuracy}
    {em : ExtendedMantissa} (h₁ : shiftToTargetExponent .binary64 m e acc = (em, e₁))
    (h₂ : shiftToTargetExponent .binary64 em.roundedMantissa e₁ .exact =
      (.ofMantissaAndAccuracy a .exact, e₂)) (ha : Fitting a e₂) :
    Canonical (sign.apply a * 2 ^ e₂) (roundWithAccuracy .binary64 sign m e acc) := by
  rcases Nat.eq_zero_or_pos a with rfl | hpos
  · have hzero : roundWithAccuracy .binary64 sign m e acc = .zero sign := by
      unfold roundWithAccuracy
      simp only [h₁, h₂]
      rfl
    have happly : sign.apply ((0 : ℕ) : ℤ) = 0 := by cases sign <;> rfl
    rw [hzero, happly, Int.cast_zero, zero_mul]
    exact .zero sign
  · rw [roundWithAccuracy_of_shifts h₁ h₂ hpos]
    exact .finite sign a e₂ hpos ha

theorem Nearest.apply {q r : ℚ} (h : Nearest q r) (s : Sign) :
    Nearest (s.apply 1 * q) (s.apply 1 * r) := by
  cases s with
  | negative => simpa [Sign.apply] using h.neg
  | positive => simpa [Sign.apply] using h

/-- A number that is known to the last of its 53 bits, or to the least exponent, is cut there: the result `y`
counts the units that remain. -/
theorem exists_begins {m : ℕ} {e : ℤ} {acc : Accuracy} {x : ℚ}
    (hx : Begins (.ofMantissaAndAccuracy m acc) x) (hbits : 2 ^ 52 ≤ m ∨ e ≤ -1074) :
    ∃ em t y, shiftToTargetExponent .binary64 m e acc = (em, t) ∧ Begins em y ∧ y * 2 ^ t = x * 2 ^ e ∧
      -1074 ≤ t ∧ y < 2 ^ 53 ∧ (2 ^ 52 ≤ y ∨ t = -1074) := by
  obtain ⟨t, ht⟩ : ∃ t, t = max (m.log2 + e - 52) (-1074) := ⟨_, rfl⟩
  have hlog : 2 ^ 52 ≤ m → 52 ≤ m.log2 := fun h => (Nat.le_log2 (by omega)).2 h
  obtain ⟨k, hk⟩ := Int.eq_ofNat_of_zero_le (show 0 ≤ t - e by omega)
  obtain ⟨hlo, hhi⟩ := hx.bounds
  rw [(accuracy_ofMantissaAndAccuracy m acc).2] at hlo hhi
  refine ⟨_, t, x / 2 ^ k, ?_, hx.shiftRight k, ?_, by omega, ?_, ?_⟩
  · unfold shiftToTargetExponent shiftToExponent
    rw [targetExponent_totalExponent, ← ht]
    simp only [hk, Int.toNat_natCast]
    exact congrArg _ (show e + (k : ℤ) = t by omega)
  · rw [show t = k + e by omega, zpow_add₀ two_ne_zero, zpow_natCast, ← mul_assoc,
      div_mul_cancel₀ _ (by positivity)]
  · rw [div_lt_iff₀ (by positivity)]
    have hpow : 2 ^ (m.log2 + 1) ≤ 2 ^ 53 * 2 ^ k := by
      rw [← pow_add]
      exact Nat.pow_le_pow_right Nat.two_pos (by omega)
    have hm : (m + 1 : ℚ) ≤ 2 ^ 53 * 2 ^ k := by exact_mod_cast Nat.le_trans Nat.lt_log2_self hpow
    linarith
  · refine or_iff_not_imp_right.2 fun hne => ?_
    rw [le_div_iff₀ (by positivity)]
    have hm : m ≠ 0 := by
      rintro rfl
      rw [Nat.log2_zero] at ht
      omega
    have hpow : 2 ^ 52 * 2 ^ k ≤ 2 ^ m.log2 := by
      rw [← pow_add]
      exact Nat.pow_le_pow_right Nat.two_pos (by omega)
    have hm : (2 ^ 52 * 2 ^ k : ℚ) ≤ m := by exact_mod_cast Nat.le_trans hpow (Nat.log2_self_le hm)
    linarith

section
variable {em : ExtendedMantissa} {y : ℚ} {t : ℤ}

theorem Begins.roundedMantissa_bounds (h : Begins em y) (hy : y < 2 ^ 53)
    (hbits : 2 ^ 52 ≤ y ∨ t = -1074) :
    em.roundedMantissa ≤ 2 ^ 53 ∧ (2 ^ 52 ≤ em.roundedMantissa ∨ t = -1074) := by
  obtain ⟨hfloor, hceil⟩ := h.bounds
  obtain ⟨hdown, hup⟩ := Binary64.roundedMantissa_bounds em
  have hlt : em.mantissa < 2 ^ 53 := by
    have hlt : (em.mantissa : ℚ) < 2 ^ 53 := lt_of_le_of_lt hfloor hy
    exact_mod_cast hlt
  refine ⟨by omega, hbits.imp_left fun hge => ?_⟩
  have hge : (2 ^ 52 : ℚ) < em.mantissa + 1 := lt_of_le_of_lt hge hceil
  have hge : 2 ^ 52 < em.mantissa + 1 := by exact_mod_cast hge
  omega

theorem Begins.nearest (h : Begins em y) (ht : -1074 ≤ t) (hy : y < 2 ^ 53)
    (hbits : 2 ^ 52 ≤ y ∨ t = -1074) : Nearest (y * 2 ^ t) (em.roundedMantissa * 2 ^ t) := by
  have hpow : (0 : ℚ) < 2 ^ t := by positivity
  rw [← Int.cast_natCast]
  refine nearest_of_multiple ?_ ht ?_ ?_
  · rw [Nat.abs_cast]
    exact_mod_cast (h.roundedMantissa_bounds hy hbits).1
  · refine hbits.symm.imp_right fun hge => ?_
    rw [two_zpow_add_52]
    exact (mul_le_mul_of_nonneg_right hge hpow.le).trans (le_abs_self _)
  · have herror := mul_le_mul_of_nonneg_right h.error hpow.le
    rw [Int.cast_natCast, ← sub_mul, abs_mul, abs_of_pos hpow]
    linarith

end

/-- A number that is known to the last of its 53 bits, or to the least exponent, is rounded to the nearest. -/
theorem rounds_roundWithAccuracy (sign : Sign) {m : ℕ} {e : ℤ} {acc : Accuracy} {x : ℚ}
    (hx : Begins (ExtendedMantissa.ofMantissaAndAccuracy m acc) x) (hbits : 2 ^ 52 ≤ m ∨ e ≤ -1074) :
    Rounds (sign.apply 1 * (x * 2 ^ e)) (roundWithAccuracy .binary64 sign m e acc) := by
  obtain ⟨em, t, y, hfirst, hy, hscale, ht, hlt, hbits⟩ := exists_begins hx hbits
  obtain ⟨hup, hdown⟩ := hy.roundedMantissa_bounds hlt hbits
  obtain ⟨a, f, hsecond, hfitting, hvalue⟩ := exists_shiftToTargetExponent hup ht hdown
  refine ⟨_, canonical_roundWithAccuracy hfirst hsecond hfitting, ?_⟩
  rw [cast_apply sign a, mul_assoc, Int.cast_natCast, hvalue, ← hscale]
  exact (hy.nearest ht hlt hbits).apply sign

/-- Zeros behind a significand are made up for by the exponent. -/
theorem shiftLeft_mul_zpow (m k : ℕ) (e : ℤ) : ((m <<< k : ℕ) : ℚ) * 2 ^ (e - k) = m * 2 ^ e := by
  have hshift := mul_two_zpow_eq m (show e - k ≤ e by omega)
  rw [sub_sub_cancel, Int.toNat_natCast] at hshift
  rw [Nat.shiftLeft_eq]
  exact_mod_cast hshift

theorem rounds_round (sign : Sign) {m : ℕ} (hm : m ≠ 0) (e : ℤ) :
    Rounds (sign.apply 1 * (m * 2 ^ e)) (UnpackedFloat.round .binary64 sign m e) := by
  obtain ⟨k, hk⟩ : ∃ k, k = (e - max (m.log2 + e - 52) (-1074)).toNat := ⟨_, rfl⟩
  have hround : UnpackedFloat.round .binary64 sign m e =
      roundWithAccuracy .binary64 sign (m <<< k) (e - k) .exact := by
    unfold UnpackedFloat.round
    rw [targetExponent_totalExponent, hk]
    rfl
  have hbits : 2 ^ 52 ≤ m <<< k ∨ e - k ≤ -1074 := by
    rw [← Nat.le_log2 (shiftLeft_ne_zero hm k), log2_shiftLeft hm]
    omega
  rw [hround, ← shiftLeft_mul_zpow m k e]
  exact rounds_roundWithAccuracy sign (begins_exact _) hbits

theorem rounds_zero (s : Sign) : Rounds 0 (.zero s) :=
  (Canonical.zero s).rounds

theorem rounds_normalize (n e : ℤ) (zeroSign : Sign) :
    Rounds (n * 2 ^ e) (UnpackedFloat.normalize .binary64 n e zeroSign) := by
  unfold UnpackedFloat.normalize
  cases hcompare : compare n 0 with
  | lt =>
    have hn := Int.compare_eq_lt.1 hcompare
    have hround := rounds_round .negative (m := (-n).toNat) (by omega) e
    rwa [← mul_assoc, ← Int.cast_natCast, Int.toNat_of_nonneg (by omega), ← Int.cast_mul,
      show Sign.negative.apply 1 * -n = n by simp [Sign.apply]] at hround
  | eq =>
    rw [Int.compare_eq_eq.1 hcompare, Int.cast_zero, zero_mul]
    exact rounds_zero zeroSign
  | gt =>
    have hn := Int.compare_eq_gt.1 hcompare
    have hround := rounds_round .positive (m := n.toNat) (by omega) e
    rwa [← mul_assoc, ← Int.cast_natCast, Int.toNat_of_nonneg (by omega), ← Int.cast_mul,
      show Sign.positive.apply 1 * n = n by simp [Sign.apply]] at hround

/-! ## Operations -/

section
variable {p q : ℚ} {u v : UnpackedFloat}

theorem apply_decreaseExponent (s : Sign) (m : ℕ) {e t : ℤ} (h : t ≤ e) :
    ((s.apply (decreaseExponent m e t).1 : ℤ) : ℚ) * 2 ^ t = (s.apply m : ℤ) * 2 ^ e := by
  have hshift := shiftLeft_mul_zpow m (e - t).toNat e
  rw [show e - ((e - t).toNat : ℤ) = t by omega] at hshift
  rw [cast_apply, cast_apply s m, mul_assoc, mul_assoc, Int.cast_natCast, Int.cast_natCast, ← hshift]
  rfl

theorem rounds_add (hu : Canonical p u) (hv : Canonical q v) :
    Rounds (p + q) (UnpackedFloat.add .binary64 u v) := by
  cases hu with
  | zero s =>
    rw [zero_add]
    cases hv with
    | zero t =>
      show Rounds 0 (if s == t then .zero s else .zero .positive)
      split
      all_goals exact rounds_zero _
    | finite t n f hn hfit => exact (Canonical.finite t n f hn hfit).rounds
  | finite s m e hm hfit =>
    cases hv with
    | zero t =>
      rw [add_zero]
      exact (Canonical.finite s m e hm hfit).rounds
    | finite t n f hn _ =>
      have hsum := rounds_normalize (s.apply (decreaseExponent m e (min e f)).1 +
        t.apply (decreaseExponent n f (min e f)).1) (min e f) .positive
      rw [Int.cast_add, add_mul, apply_decreaseExponent s m (min_le_left e f),
        apply_decreaseExponent t n (min_le_right e f)] at hsum
      exact hsum

/-- To subtract is to add the opposite. -/
theorem sub_eq_add (u v : UnpackedFloat) :
    UnpackedFloat.sub .binary64 u v = UnpackedFloat.add .binary64 u v.neg := by
  cases u <;> cases v <;>
    simp [UnpackedFloat.sub, UnpackedFloat.add, UnpackedFloat.neg, neg_apply, Int.sub_eq_add_neg]

theorem rounds_sub (hu : Canonical p u) (hv : Canonical q v) :
    Rounds (p - q) (UnpackedFloat.sub .binary64 u v) := by
  rw [sub_eq_add_neg, sub_eq_add]
  exact rounds_add hu hv.neg

theorem rounds_mul (hu : Canonical p u) (hv : Canonical q v) :
    Rounds (p * q) (UnpackedFloat.mul .binary64 u v) := by
  cases hu with
  | zero s =>
    rw [zero_mul]
    cases hv
    all_goals exact rounds_zero _
  | finite s m e hm hfit =>
    cases hv with
    | zero t =>
      rw [mul_zero]
      exact rounds_zero _
    | finite t n f hn hfit' =>
      have hbits : 2 ^ 52 ≤ m * n ∨ e + f ≤ -1074 := by
        rcases hfit.2.2 with hlong | rfl
        · exact .inl (Nat.le_trans hlong (Nat.le_mul_of_pos_right m hn))
        rcases hfit'.2.2 with hlong | rfl
        · exact .inl (Nat.le_trans hlong (Nat.le_mul_of_pos_left n hm))
        · exact .inr (by norm_num)
      have hproduct := rounds_roundWithAccuracy (s * t) (begins_exact (m * n)) hbits
      have hvalue : ((s * t).apply 1 * ((m * n : ℕ) * 2 ^ (e + f)) : ℚ) =
          (s.apply m : ℤ) * 2 ^ e * ((t.apply n : ℤ) * 2 ^ f) := by
        rw [cast_apply s m, cast_apply t n, apply_mul, zpow_add₀ two_ne_zero]
        push_cast
        ring
      rwa [hvalue] at hproduct

/-- A quotient of significands has 53 bits, or goes to the least exponent. -/
theorem le_div_or_le {m n : ℕ} (hm : m ≠ 0) (hn : 0 < n) (e f : ℤ) {t : ℤ}
    (ht : t = min (e - f) (Format.binary64.targetExponent (totalExponent m e - totalExponent n f))) :
    2 ^ 52 ≤ m <<< (e - f - t).toNat / n ∨ t ≤ -1074 := by
  have htarget (k : ℤ) : Format.binary64.targetExponent k = max (k - 53) (-1074) := rfl
  have htotal (m : ℕ) (e : ℤ) : totalExponent m e = m.log2 + 1 + e := rfl
  rw [htarget, htotal, htotal] at ht
  refine or_iff_not_imp_right.2 fun hne => ?_
  rw [Nat.le_div_iff_mul_le hn]
  calc 2 ^ 52 * n ≤ 2 ^ 52 * 2 ^ (n.log2 + 1) := Nat.mul_le_mul_left _ Nat.lt_log2_self.le
    _ = 2 ^ (52 + (n.log2 + 1)) := (pow_add 2 52 _).symm
    _ ≤ 2 ^ (m.log2 + (e - f - t).toNat) := Nat.pow_le_pow_right Nat.two_pos (by omega)
    _ = 2 ^ (m <<< (e - f - t).toNat).log2 := by rw [log2_shiftLeft hm]
    _ ≤ m <<< (e - f - t).toNat := Nat.log2_self_le (shiftLeft_ne_zero hm _)

theorem rounds_div (hu : Canonical p u) (hv : Canonical q v) (hq : q ≠ 0) :
    Rounds (p / q) (UnpackedFloat.div .binary64 u v) := by
  cases hv with
  | zero t => exact absurd rfl hq
  | finite t n f hn _ =>
    cases hu with
    | zero s =>
      rw [zero_div]
      exact rounds_zero _
    | finite s m e hm _ =>
      obtain ⟨r, hr⟩ : ∃ r, r = min (e - f)
        (Format.binary64.targetExponent (totalExponent m e - totalExponent n f)) := ⟨_, rfl⟩
      have hquot := rounds_roundWithAccuracy (s / t) (begins_div (m <<< (e - f - r).toNat) hn)
        (le_div_or_le hm.ne' hn e f hr)
      have hle : r ≤ e - f := hr ▸ min_le_left _ _
      have hvalue : ((s / t).apply 1 * ((m <<< (e - f - r).toNat : ℕ) / n * 2 ^ r) : ℚ) =
          (s.apply m : ℤ) * 2 ^ e / ((t.apply n : ℤ) * 2 ^ f) := by
        have hshift := shiftLeft_mul_zpow m (e - f - r).toNat (e - f)
        rw [Int.toNat_of_nonneg (by omega), sub_sub_cancel] at hshift
        rw [div_mul_eq_mul_div, hshift, cast_apply s m, cast_apply t n, apply_div, zpow_sub₀ two_ne_zero]
        push_cast
        field_simp
      rw [hvalue, hr] at hquot
      exact hquot

end

/-! ## Doubles -/

/-- The double that an operation makes whose exact result is `q`: the nearest one, or an infinity if that is
beyond the greatest double. -/
def Yields (q : ℚ) (x : Float) : Prop :=
  ∃ r, Nearest q r ∧ (|r| < 2 ^ (1024 : ℤ) ∧ value? x = some r ∨ 2 ^ (1024 : ℤ) ≤ |r| ∧ x.isInf = true)

theorem unpack_pack_of_fitting {s : Sign} {m : ℕ} {e : ℤ} (hm : 0 < m) (h : Fitting m e) (he : e ≤ 971) :
    (Float.Model.pack (.finite s m e hm)).unpack = .finite s m e hm := by
  obtain ⟨hlt, hmin, hbits⟩ := h
  rcases Nat.lt_or_ge m (2 ^ 52) with hsub | hnormal
  · obtain rfl : e = -1074 := by omega
    exact unpack_pack_subnormal hm hsub
  · exact unpack_pack hm hnormal hlt hmin he

theorem yields_pack {q : ℚ} {u : UnpackedFloat} (h : Rounds q u) :
    Yields q (.ofModel (Float.Model.pack u)) := by
  obtain ⟨r, hr, hq⟩ := h
  refine ⟨r, hq, ?_⟩
  cases hr with
  | zero s =>
    left
    rw [abs_zero]
    exact ⟨by positivity, by cases s <;> rfl⟩
  | finite s m e hm hfit =>
    rw [abs_apply]
    rcases le_or_gt e 971 with hle | hgt
    · refine .inl ⟨mul_two_zpow_lt hfit.1 hle, ?_⟩
      show valueOf (Float.Model.pack (.finite s m e hm)).unpack = _
      rw [unpack_pack_of_fitting hm hfit hle]
      rfl
    · refine .inr ⟨?_, ?_⟩
      · have hbits : 2 ^ 52 ≤ m := hfit.2.2.resolve_right (by omega)
        have hbits : (2 ^ 52 : ℚ) ≤ m := by exact_mod_cast hbits
        calc (2 : ℚ) ^ (1024 : ℤ)
            ≤ 2 ^ (e + 52) := zpow_le_zpow_right₀ one_le_two (by omega)
          _ = 2 ^ 52 * 2 ^ e := two_zpow_add_52 e
          _ ≤ m * 2 ^ e := mul_le_mul_of_nonneg_right hbits (by positivity)
      · show (Float.Model.pack (.finite s m e hm)).unpack.isInf = true
        rw [unpack_pack_infinity hm hgt]
        rfl

section
variable {x y : Float} {p q : ℚ}

theorem yields_add (hx : value? x = some p) (hy : value? y = some q) : Yields (p + q) (x + y) :=
  yields_pack (rounds_add (canonical_of_value? hx) (canonical_of_value? hy))

theorem yields_sub (hx : value? x = some p) (hy : value? y = some q) : Yields (p - q) (x - y) :=
  yields_pack (rounds_sub (canonical_of_value? hx) (canonical_of_value? hy))

theorem yields_mul (hx : value? x = some p) (hy : value? y = some q) : Yields (p * q) (x * y) :=
  yields_pack (rounds_mul (canonical_of_value? hx) (canonical_of_value? hy))

theorem yields_div (hx : value? x = some p) (hy : value? y = some q) (hq : q ≠ 0) :
    Yields (p / q) (x / y) :=
  yields_pack (rounds_div (canonical_of_value? hx) (canonical_of_value? hy) hq)

theorem Yields.value? (h : Yields q x) (hr : ∀ r, Nearest q r → |r| < 2 ^ (1024 : ℤ)) :
    ∃ r, Nearest q r ∧ Binary64.value? x = some r := by
  obtain ⟨r, hnear, ⟨-, hvalue⟩ | ⟨hge, -⟩⟩ := h
  · exact ⟨r, hnear, hvalue⟩
  · exact absurd hge (hr r hnear).not_ge

/-! ## Infinities -/

theorem isInf_pack (s : Sign) : (Float.ofModel (Float.Model.pack (.infinity s))).isInf = true := by
  cases s <;> rfl

/-- An infinity absorbs a number that is added to it. -/
theorem isInf_add (hx : value? x = some p) (hy : y.isInf = true) : (x + y).isInf = true := by
  obtain ⟨t, hy⟩ := unpack_of_isInf hy
  show (Float.ofModel (Float.Model.pack
    (UnpackedFloat.add .binary64 x.toModel.unpack y.toModel.unpack))).isInf = true
  rcases unpack_of_value? hx with ⟨s, hx, -⟩ | ⟨s, m, e, hm, hx, -⟩
  · rw [hx, hy]
    exact isInf_pack t
  · rw [hx, hy]
    exact isInf_pack t

/-- A multiple of an infinity is infinite, unless by zero. -/
theorem isInf_mul (hx : x.isInf = true) (hy : value? y = some q) (hq : q ≠ 0) :
    (x * y).isInf = true := by
  obtain ⟨s, hx⟩ := unpack_of_isInf hx
  show (Float.ofModel (Float.Model.pack
    (UnpackedFloat.mul .binary64 x.toModel.unpack y.toModel.unpack))).isInf = true
  rcases unpack_of_value? hy with ⟨t, -, rfl⟩ | ⟨t, n, f, hn, hy, -⟩
  · exact absurd rfl hq
  · rw [hx, hy]
    exact isInf_pack (s * t)

/-- A fraction of an infinity is infinite. -/
theorem isInf_div (hx : x.isInf = true) (hy : value? y = some q) : (x / y).isInf = true := by
  obtain ⟨s, hx⟩ := unpack_of_isInf hx
  show (Float.ofModel (Float.Model.pack
    (UnpackedFloat.div .binary64 x.toModel.unpack y.toModel.unpack))).isInf = true
  rcases unpack_of_value? hy with ⟨t, hy, -⟩ | ⟨t, n, f, hn, hy, -⟩
  · rw [hx, hy]
    exact isInf_pack (s / t)
  · rw [hx, hy]
    exact isInf_pack (s / t)

end

end DerivedSeries.Binary64
