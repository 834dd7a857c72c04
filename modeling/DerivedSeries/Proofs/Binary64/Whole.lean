import DerivedSeries.Proofs.Binary64.Rounding
import DerivedSeries.Proofs.Word

/-!
# Doubles that are integers

A finite double is a number (`value?`). One that is an integer has 53 bits, and is what that integer is
rounded to (`eq_ofInt`). So two of them are multiplied as integers, with one rounding (`mul_eq_ofInt`), and
one is truncated to itself, within the range of words (`toInt_truncate`). An integer as a double is
the nearest one of 53 bits (`value?_ofInt`).
-/

namespace DerivedSeries.Binary64

open Float.Model Float.Model.UnpackedFloat

/-- The number that a sign, a significand and an exponent stand for. -/
def valueOf : UnpackedFloat → Option ℚ
  | .zero _ => some 0
  | .finite s m e _ => some (s.apply m * 2 ^ e)
  | .infinity _ | .notANumber => none

/-- The number that a double is. The infinities and NaN are none. -/
def value? (x : Float) : Option ℚ := valueOf x.toModel.unpack

/-! ## Values without fractions -/

/-- A power of two stands on one side or on the other. -/
theorem mul_two_zpow_eq_iff (m n : Nat) (e : Int) :
    (m * 2 ^ e : ℚ) = n ↔ m * 2 ^ e.toNat = n * 2 ^ (-e).toNat := by
  have hpow : (2 : ℚ) ^ (-e).toNat ≠ 0 := by positivity
  have hexp : (2 : ℚ) ^ e * 2 ^ (-e).toNat = 2 ^ e.toNat := by
    rw [← zpow_natCast, ← zpow_natCast, ← zpow_add₀ two_ne_zero]
    congr 1
    omega
  rw [← mul_left_inj' hpow, mul_assoc, hexp]
  norm_cast

/-- A magnitude as a number of either sign. -/
theorem cast_apply (s : Sign) (n : Int) : (s.apply n : ℚ) = s.apply 1 * n := by
  cases s <;> simp [Sign.apply]

theorem signed_eq_iff {s : Sign} {a : ℚ} {k : Int} (ha : 0 < a) (hk : k ≠ 0) :
    s.apply 1 * a = k ↔ s = signOf k ∧ a = k.natAbs := by
  have habs : (k.natAbs : ℚ) = |(k : ℚ)| := by
    rw [← Int.cast_abs, Int.abs_eq_natAbs, Int.cast_natCast]
  rw [habs, signOf]
  rcases Int.lt_or_gt_of_ne hk with hneg | hpos
  · have hk' : (k : ℚ) < 0 := Int.cast_lt_zero.2 hneg
    rw [if_pos hneg, abs_of_neg hk']
    cases s with
    | negative =>
      simp only [Sign.apply, Int.cast_neg, Int.cast_one, neg_one_mul, true_and]
      exact neg_eq_iff_eq_neg
    | positive =>
      simp only [Sign.apply, Int.cast_one, one_mul, reduceCtorEq, false_and, iff_false]
      linarith
  · have hk' : (0 : ℚ) < k := Int.cast_pos.2 hpos
    rw [if_neg (by omega), abs_of_pos hk']
    cases s with
    | negative =>
      simp only [Sign.apply, Int.cast_neg, Int.cast_one, neg_one_mul, reduceCtorEq, false_and, iff_false]
      linarith
    | positive => simp [Sign.apply]

/-- What stands for an integer other than zero has its sign and its magnitude. -/
theorem valueOf_finite_eq_iff {s : Sign} {m : Nat} {e k : Int} {hm : 0 < m} (hk : k ≠ 0) :
    valueOf (.finite s m e hm) = some (k : ℚ) ↔
      s = signOf k ∧ m * 2 ^ e.toNat = k.natAbs * 2 ^ (-e).toNat := by
  have hpos : (0 : ℚ) < m * 2 ^ e := by positivity
  rw [valueOf, Option.some.injEq, cast_apply s m, mul_assoc, Int.cast_natCast, signed_eq_iff hpos hk,
    mul_two_zpow_eq_iff]

/-- A whole number written with 53 bits is normalized. -/
theorem normalized_eq {m n : Nat} {e : Int} (hn : n ≠ 0) (hlo : 2 ^ 52 ≤ m) (hhi : m < 2 ^ 53)
    (h : m * 2 ^ e.toNat = n * 2 ^ (-e).toNat) : normalized n = (m, e) := by
  have hm : m ≠ 0 := by omega
  have hbits : m.log2 = 52 := (Nat.log2_eq_iff hm).2 ⟨hlo, hhi⟩
  have hlog : m.log2 + e.toNat = n.log2 + (-e).toNat := by
    rw [← log2_shiftLeft hm, ← log2_shiftLeft hn, Nat.shiftLeft_eq, Nat.shiftLeft_eq, h]
  have hsignificand : significand n = m := by
    rw [← significand_shift hn (-e).toNat, ← h, significand_shift hm,
      significand_of_log2_le hbits.le, hbits]
    rfl
  have hexp : (n.log2 - 52 : Int) = e := by omega
  rw [normalized, hsignificand, if_pos hhi, hexp]

/-! ## Integral doubles -/

section
variable {x y : Float} {a b k : Int}

/-- What is a number is a zero or finite. -/
theorem unpack_of_value? {q : ℚ} (h : value? x = some q) :
    (∃ s, x.toModel.unpack = .zero s ∧ q = 0) ∨
      ∃ s m e hm, x.toModel.unpack = .finite s m e hm ∧ valueOf (.finite s m e hm) = some q := by
  unfold value? at h
  cases hx : x.toModel.unpack with
  | notANumber => rw [hx] at h; cases h
  | infinity s => rw [hx] at h; cases h
  | zero s =>
    rw [hx] at h
    exact .inl ⟨s, rfl, (Option.some.inj h).symm⟩
  | finite s m e hm =>
    rw [hx] at h
    exact .inr ⟨s, m, e, hm, rfl, h⟩

/-- A double that is an integer other than zero has 53 bits. -/
theorem exists_unpack_of_value? (h : value? x = some (k : ℚ)) (hk : k ≠ 0) :
    ∃ m e hm, x.toModel.unpack = .finite (signOf k) m e hm ∧ (2 ^ 52 ≤ m ∧ m < 2 ^ 53) ∧
      m * 2 ^ e.toNat = k.natAbs * 2 ^ (-e).toNat := by
  rcases unpack_of_value? h with ⟨s, -, hzero⟩ | ⟨s, m, e, hm, hx, hk'⟩
  · exact absurd (Int.cast_eq_zero.1 hzero) hk
  · obtain ⟨rfl, hvalue⟩ := (valueOf_finite_eq_iff hk).1 hk'
    refine ⟨m, e, hm, hx, ?_, hvalue⟩
    rcases canonical_of_unpack hx with ⟨hlt, rfl⟩ | ⟨hbits, -⟩
    · -- a subnormal number is less than one
      have hpow : 2 ^ 52 ≤ 2 ^ (- -1074 : Int).toNat := Nat.pow_le_pow_right Nat.two_pos (by decide)
      have hle := Nat.le_trans hpow (Nat.le_mul_of_pos_left _ (Int.natAbs_pos.2 hk))
      rw [← hvalue, show (-1074 : Int).toNat = 0 from rfl, Nat.pow_zero, Nat.mul_one] at hle
      exact absurd hlt (Nat.not_lt.2 hle)
    · exact hbits

theorem exists_unpack_of_value?_zero (h : value? x = some 0) : ∃ s, x.toModel.unpack = .zero s := by
  rcases unpack_of_value? h with ⟨s, hx, -⟩ | ⟨s, m, e, hm, -, hvalue⟩
  · exact ⟨s, hx⟩
  · have hne : ((s.apply m : Int) : ℚ) * 2 ^ e ≠ 0 := by
      cases s <;> simp [Sign.apply, hm.ne', zpow_ne_zero]
    exact absurd (Option.some.inj hvalue) hne

/-- A double that is an integer is what the integer is rounded to. -/
theorem eq_ofInt (h : value? x = some (k : ℚ)) (hk : k ≠ 0) : x = ofInt k := by
  obtain ⟨m, e, hm, hx, ⟨hlo, hhi⟩, hvalue⟩ := exists_unpack_of_value? h hk
  have hnormalized := normalized_eq (Int.natAbs_ne_zero.2 hk) hlo hhi hvalue
  show Float.ofModel x.toModel = Float.ofModel (Float.Model.pack (UnpackedFloat.ofInt .binary64 k))
  rw [unpackedOfInt_eq hk, ← pack_unpack_toModel, hx]
  simp only [hnormalized]

/-- Doubles that are integers are multiplied as integers, and the product is rounded once. -/
theorem mul_eq_ofInt (hx : value? x = some (a : ℚ)) (hy : value? y = some (b : ℚ)) (ha : a ≠ 0)
    (hb : b ≠ 0) : x * y = ofInt (a * b) := by
  obtain ⟨m, e, hm, hx, ⟨hmlo, -⟩, hm'⟩ := exists_unpack_of_value? hx ha
  obtain ⟨n, f, hn, hy, ⟨hnlo, -⟩, hn'⟩ := exists_unpack_of_value? hy hb
  have hab : a * b ≠ 0 := Int.mul_ne_zero ha hb
  have hbits : 2 ^ 52 ≤ m * n := Nat.le_trans hmlo (Nat.le_mul_of_pos_right m hn)
  have hexp : e + f = ((e.toNat + f.toNat : Nat) : Int) - ((-e).toNat + (-f).toNat : Nat) := by omega
  have hvalue : m * n * 2 ^ (e.toNat + f.toNat) = (a * b).natAbs * 2 ^ ((-e).toNat + (-f).toNat) := by
    rw [Int.natAbs_mul, Nat.pow_add, Nat.pow_add, Nat.mul_mul_mul_comm, hm', hn', Nat.mul_mul_mul_comm]
  show Float.ofModel (Float.Model.pack
    (UnpackedFloat.mul .binary64 x.toModel.unpack y.toModel.unpack)) =
      Float.ofModel (Float.Model.pack (UnpackedFloat.ofInt .binary64 (a * b)))
  rw [hx, hy, unpackedOfInt_eq hab, UnpackedFloat.mul, ← signOf_mul ha hb, hexp,
    roundWithAccuracy_whole _ (Int.natAbs_ne_zero.2 hab) hbits hvalue]

/-! ## Conversion to words -/

theorem apply_signOf (k : Int) : (signOf k).apply k.natAbs = k := by
  unfold signOf
  split
  · show -(k.natAbs : Int) = k
    omega
  · show (k.natAbs : Int) = k
    omega

theorem roundToInt_eq (s : Sign) (m : Nat) (e : Int) :
    roundToInt s m e = s.apply (m * 2 ^ e.toNat / 2 ^ (-e).toNat : Nat) := by
  unfold roundToInt decreaseExponent shiftToExponent
  simp only [exact_shiftRight, Nat.shiftLeft_eq, Int.sub_zero]
  rw [show (0 - (e - e.toNat)).toNat = (-e).toNat by omega]

/-- A double that is an integer is truncated to that integer, within the range of words. -/
theorem toInt_truncate (h : value? x = some (k : ℚ)) : (truncate x).toInt = clamp k := by
  have hclamp : (truncate x).toInt =
      clamp (toInt Int64.minValue.toInt Int64.maxValue.toInt x.toModel.unpack) :=
    toInt_ofIntClamp _
  rw [hclamp]
  congr 1
  by_cases hk : k = 0
  · subst hk
    obtain ⟨s, hx⟩ := exists_unpack_of_value?_zero (h.trans (by norm_num))
    rw [hx]
    rfl
  · obtain ⟨m, e, hm, hx, -, hvalue⟩ := exists_unpack_of_value? h hk
    rw [hx]
    show roundToInt _ _ _ = k
    rw [roundToInt_eq, hvalue, Nat.mul_div_cancel _ (Nat.two_pow_pos _), apply_signOf]

theorem isNaN_of_value? {q : ℚ} (h : value? x = some q) : x.isNaN = false := by
  show x.toModel.unpack.isNaN = false
  rcases unpack_of_value? h with ⟨s, hx, -⟩ | ⟨s, m, e, hm, hx, -⟩
  · rw [hx]
    rfl
  · rw [hx]
    rfl

/-- A double that is a word is below the limit that no word reaches. -/
theorem lt_ofInt_limit (h : value? x = some (k : ℚ)) (hk : Fits k) :
    x < ofInt (Int64.maxValue.toInt + 1) := by
  have hlimit : key (ofInt (Int64.maxValue.toInt + 1)) = [1, 11, 2 ^ 52] := by decide
  rw [lt_iff (isNaN_of_value? h) (isNaN_ofInt _), hlimit, key]
  by_cases hzero : k = 0
  · subst hzero
    obtain ⟨s, hx⟩ := exists_unpack_of_value?_zero (h.trans (by norm_num))
    rw [hx]
    rfl
  obtain ⟨m, e, hm, hx, ⟨hlo, -⟩, hvalue⟩ := exists_unpack_of_value? h hzero
  rw [hx, signOf]
  split
  · rfl
  · have hexp : e < 11 := by
      by_contra hge
      have hpow : 2 ^ 11 ≤ 2 ^ e.toNat := Nat.pow_le_pow_right Nat.two_pos (by omega)
      have hle := Nat.mul_le_mul hlo hpow
      rw [hvalue, show (-e).toNat = 0 by omega] at hle
      have hmax := hk.2
      rw [Int64.toInt_maxValue] at hmax
      omega
    show compare [1, e, (m : Int)] [1, 11, 2 ^ 52] = .lt
    rw [compare_triple, Int.compare_eq_lt.2 hexp]
    rfl

/-- A double that is a word is taken for that word. -/
theorem toInt64?_of_value? {v : Int64} (h : value? x = some (v.toInt : ℚ)) : toInt64? x = some v := by
  have htruncate : truncate x = v := by
    rw [← Int64.toInt_inj, toInt_truncate h, clamp_of_fits (fits_toInt v)]
  have hlt := lt_ofInt_limit h (fits_toInt v)
  have heq : (x == ofInt v.toInt) = true := by
    rw [beq_iff (isNaN_of_value? h) (isNaN_ofInt _)]
    by_cases hzero : v.toInt = 0
    · rw [hzero] at h ⊢
      obtain ⟨s, hx⟩ := exists_unpack_of_value?_zero (h.trans (by norm_num))
      rw [key, hx]
      rfl
    · rw [eq_ofInt h hzero, Std.ReflOrd.compare_self]
  unfold toInt64?
  simp only [htruncate, hlt, heq, decide_true, Bool.and_self, if_true]

end

/-! ## The nearest number of 53 bits -/

/-- A whole number, rounded to its first 53 bits. -/
def kept (m : Nat) : Nat := rounded m (m.log2 - 52) * 2 ^ (m.log2 - 52)

/-- The integer that an integer becomes as a double. -/
def nearest (n : Int) : Int := n.sign * kept n.natAbs

theorem kept_of_log2_le {m : Nat} (h : m.log2 ≤ 52) : kept m = m := by
  rw [kept, Nat.sub_eq_zero_of_le h, rounded_zero, Nat.pow_zero, Nat.mul_one]

theorem normalized_kept {m : Nat} (hm : m ≠ 0) :
    (normalized m).1 * 2 ^ (normalized m).2.toNat = kept m * 2 ^ (-(normalized m).2).toNat := by
  rcases Nat.le_total m.log2 52 with hle | hge
  · rw [normalized_of_log2_le hm hle, kept_of_log2_le hle]
    show m <<< (52 - m.log2) * 2 ^ (m.log2 - 52 : Int).toNat = m * 2 ^ (-(m.log2 - 52 : Int)).toNat
    rw [show (m.log2 - 52 : Int).toNat = 0 by omega, Nat.shiftLeft_eq, Nat.pow_zero, Nat.mul_one,
      show (-(m.log2 - 52 : Int)).toNat = 52 - m.log2 by omega]
  · have hsignificand : significand m = rounded m (m.log2 - 52) := by
      rw [significand, Nat.sub_eq_zero_of_le hge, Nat.shiftLeft_zero]
    have hbounds := significand_bounds hm
    unfold normalized kept
    rw [← hsignificand]
    split
    · show significand m * 2 ^ (m.log2 - 52 : Int).toNat = _ * 2 ^ (-(m.log2 - 52 : Int)).toNat
      rw [show (m.log2 - 52 : Int).toNat = m.log2 - 52 by omega,
        show (-(m.log2 - 52 : Int)).toNat = 0 by omega, Nat.pow_zero, Nat.mul_one]
    · -- the carry makes up for the bit that the significand loses
      have hcarry : significand m = 2 ^ 52 * 2 := by omega
      show 2 ^ 52 * 2 ^ (m.log2 - 51 : Int).toNat = _ * 2 ^ (-(m.log2 - 51 : Int)).toNat
      rw [hcarry, show (m.log2 - 51 : Int).toNat = 1 + (m.log2 - 52) by omega,
        show (-(m.log2 - 51 : Int)).toNat = 0 by omega, Nat.pow_zero, Nat.mul_one, Nat.pow_add,
        Nat.pow_one, Nat.mul_assoc]

/-- Rounding keeps the first bit. -/
theorem two_pow_log2_le_kept {m : Nat} (hm : m ≠ 0) : 2 ^ m.log2 ≤ kept m := by
  have hquot : 2 ^ (m.log2 - (m.log2 - 52)) ≤ m / 2 ^ (m.log2 - 52) := by
    rw [Nat.le_div_iff_mul_le (Nat.two_pow_pos _), ← Nat.pow_add, Nat.sub_add_cancel (Nat.sub_le _ _)]
    exact Nat.log2_self_le hm
  calc 2 ^ m.log2 = 2 ^ (m.log2 - (m.log2 - 52)) * 2 ^ (m.log2 - 52) := by
        rw [← Nat.pow_add, Nat.sub_add_cancel (Nat.sub_le _ _)]
    _ ≤ kept m := Nat.mul_le_mul_right _ (Nat.le_trans hquot (rounded_bounds _ _).1)

theorem two_pow_le_kept {m j : Nat} (h : 2 ^ j ≤ m) : 2 ^ j ≤ kept m := by
  have hm : m ≠ 0 := (Nat.lt_of_lt_of_le (Nat.two_pow_pos j) h).ne'
  have hpow : 2 ^ j ≤ 2 ^ m.log2 := Nat.pow_le_pow_right Nat.two_pos ((Nat.le_log2 hm).2 h)
  exact Nat.le_trans hpow (two_pow_log2_le_kept hm)

theorem kept_pos {m : Nat} (hm : m ≠ 0) : 0 < kept m :=
  Nat.lt_of_lt_of_le (Nat.two_pow_pos _) (two_pow_log2_le_kept hm)

/-- Just below `2 ^ 63` the doubles are 1024 apart, and what is half way is rounded up. -/
theorem kept_below_limit {m : Nat} (hlo : 2 ^ 63 - 1024 ≤ m) (hhi : m < 2 ^ 63) :
    kept m = if m < 2 ^ 63 - 512 then 2 ^ 63 - 1024 else 2 ^ 63 := by
  have hlog : m.log2 = 62 := (Nat.log2_eq_iff (by omega)).2 ⟨by omega, hhi⟩
  rw [kept, hlog, rounded_eq]
  have hquot : m / 2 ^ (62 - 52) = 2 ^ 53 - 1 := by omega
  rw [hquot]
  by_cases hhalf : m < 2 ^ 63 - 512
  · rw [if_pos (by omega), if_pos hhalf]
    rfl
  · rw [if_neg (by omega), if_neg hhalf]
    split <;> rfl

/-- The error of rounding is at most one part in `2 ^ 53`. -/
theorem kept_error (m : Nat) :
    2 ^ 53 * m ≤ 2 ^ 53 * kept m + m ∧ 2 ^ 53 * kept m ≤ 2 ^ 53 * m + m := by
  rcases Nat.le_total m.log2 52 with hle | hge
  · rw [kept_of_log2_le hle]
    omega
  have hm : m ≠ 0 := fun h => by simp [h] at hge
  have hfirst : 2 ^ 52 * 2 ^ (m.log2 - 52) ≤ m := by
    rw [← Nat.pow_add, Nat.add_sub_cancel' hge]
    exact Nat.log2_self_le hm
  have herror := rounded_error m (m.log2 - 52)
  unfold kept
  omega

theorem natAbs_nearest (n : Int) : (nearest n).natAbs = kept n.natAbs := by
  by_cases hn : n = 0
  · subst hn
    rfl
  · rw [nearest, Int.natAbs_mul, Int.natAbs_sign_of_ne_zero hn, Nat.one_mul, Int.natAbs_natCast]

theorem nearest_of_natAbs_lt {n : Int} (h : n.natAbs < 2 ^ 53) : nearest n = n := by
  have hlog : n.natAbs.log2 ≤ 52 := by
    rcases Nat.eq_zero_or_pos n.natAbs with hzero | hpos
    · simp [hzero]
    · exact Nat.le_of_lt_succ ((Nat.log2_lt hpos.ne').2 h)
  rw [nearest, kept_of_log2_le hlog, Int.sign_mul_natAbs]

theorem sign_nearest (n : Int) : (nearest n).sign = n.sign := by
  by_cases hn : n = 0
  · subst hn
    rfl
  · have hkept : 0 < (kept n.natAbs : Int) := Int.natCast_pos.2 (kept_pos (Int.natAbs_ne_zero.2 hn))
    rw [nearest, Int.sign_mul, Int.sign_sign, Int.sign_eq_one_of_pos hkept, Int.mul_one]

theorem signOf_nearest (n : Int) : signOf (nearest n) = signOf n := by
  have hneg : nearest n < 0 ↔ n < 0 := by
    rw [← Int.sign_neg_iff, sign_nearest, Int.sign_neg_iff]
  simp only [signOf, hneg]

/-- An integer as a double is the nearest number of 53 bits. -/
theorem value?_ofInt {n : Int} (h : n.natAbs.log2 ≤ 1022) : value? (ofInt n) = some (nearest n : ℚ) := by
  by_cases hn : n = 0
  · subst hn
    have hzero : value? (ofInt 0) = some 0 := rfl
    rw [hzero]
    norm_num [nearest]
  · have hne : nearest n ≠ 0 := by
      rw [← Int.natAbs_ne_zero, natAbs_nearest]
      exact (kept_pos (Int.natAbs_ne_zero.2 hn)).ne'
    rw [value?, unpack_ofInt hn h, valueOf_finite_eq_iff hne, signOf_nearest, natAbs_nearest]
    exact ⟨rfl, normalized_kept (Int.natAbs_ne_zero.2 hn)⟩

/-- Integers of at most 53 bits are exact. -/
theorem value?_ofInt_of_natAbs_lt {n : Int} (h : n.natAbs < 2 ^ 53) : value? (ofInt n) = some (n : ℚ) := by
  have hlog := log2_le_of_le h.le
  rw [value?_ofInt (by omega), nearest_of_natAbs_lt h]

end DerivedSeries.Binary64
