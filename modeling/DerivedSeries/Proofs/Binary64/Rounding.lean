import DerivedSeries.Proofs.Binary64.Order

/-!
# Integers as doubles

A whole number becomes a double by its first 53 bits, rounded to the nearest (`round_whole`). Rounding
keeps the order: a greater integer of 64 bits is never the lesser double (`ofInt_le`). It may lose the
distance, but not up to `2 ^ 53`, where distinct integers are distinct doubles (`ofInt_inj`).
-/

namespace DerivedSeries.Binary64

open Float.Model Float.Model.UnpackedFloat

/-! ## Dropping bits -/

/-- A shift keeps the quotient; of the bits dropped, the first one and whether any other is set. -/
theorem exact_shiftRight (m s : Nat) :
    ExtendedMantissa.ofMantissaAndAccuracy m .exact >>> s =
      ⟨m / 2 ^ s, 2 * m / 2 ^ s % 2 != 0, 2 * m % 2 ^ s != 0⟩ := by
  show s.repeat ExtendedMantissa.shiftRightOne _ = _
  induction s with
  | zero => simp [Nat.repeat, ExtendedMantissa.ofMantissaAndAccuracy, Nat.mod_one]
  | succ s ih =>
    have hhalf : 2 * m / 2 ^ (s + 1) = m / 2 ^ s := by
      rw [Nat.pow_succ', Nat.mul_div_mul_left _ _ Nat.two_pos]
    have hquot : m / 2 ^ (s + 1) = m / 2 ^ s / 2 := by
      rw [Nat.div_div_eq_div_mul, Nat.pow_succ]
    have hrest : 2 * m % 2 ^ (s + 1) = 2 * m % 2 ^ s + 2 ^ s * (2 * m / 2 ^ s % 2) :=
      Nat.mod_pow_succ
    rw [Nat.repeat, ih, hhalf, hquot, hrest, ExtendedMantissa.shiftRightOne]
    congr 1
    rw [Bool.eq_iff_iff]
    simp [Nat.add_eq_zero_iff]
    tauto

/-- A whole number without its last `s` bits, rounded to the nearest, ties to even. -/
def rounded (m s : Nat) : Nat :=
  (ExtendedMantissa.ofMantissaAndAccuracy m .exact >>> s).roundedMantissa

theorem rounded_zero (m : Nat) : rounded m 0 = m := rfl

theorem roundedMantissa_mk (q : Nat) (r t : Bool) :
    (ExtendedMantissa.mk q r t).roundedMantissa = q + if r then if t then 1 else q % 2 else 0 := by
  cases r <;> cases t <;> rfl

/-- What is dropped decides: less than half goes down, more goes up, and half goes to the even side. -/
theorem rounded_eq (m s : Nat) :
    rounded m s = m / 2 ^ s +
      if 2 * (m % 2 ^ s) < 2 ^ s then 0
      else if 2 * (m % 2 ^ s) = 2 ^ s then m / 2 ^ s % 2 else 1 := by
  have hpow := Nat.two_pow_pos s
  have hlt := Nat.mod_lt m hpow
  have hm : 2 * m = 2 * (m % 2 ^ s) + 2 ^ s * (2 * (m / 2 ^ s)) := by
    have hdiv := Nat.div_add_mod m (2 ^ s)
    rw [Nat.mul_left_comm]
    omega
  rw [rounded, exact_shiftRight, hm, Nat.add_mul_div_left _ _ hpow, Nat.add_mul_mod_self_left _ (2 ^ s),
    roundedMantissa_mk, Nat.add_mul_mod_self_left]
  generalize m % 2 ^ s = r at *
  -- doubled, the rest makes up a whole or does not
  rcases Nat.lt_or_ge (2 * r) (2 ^ s) with hless | hmore
  · rw [Nat.div_eq_of_lt hless, if_pos hless]
    rfl
  · have hquot : 2 * r / 2 ^ s = 1 := Nat.div_eq_of_lt_le (by omega) (by omega)
    have hrest : 2 * r % 2 ^ s = 2 * r - 2 ^ s := by
      rw [Nat.mod_eq_sub_mod hmore, Nat.mod_eq_of_lt (by omega)]
    rw [hquot, hrest, if_neg (Nat.not_lt.2 hmore)]
    congr 1
    by_cases heq : 2 * r = 2 ^ s
    · simp [heq]
    · have hne : 2 * r - 2 ^ s ≠ 0 := by omega
      simp [heq, hne]

/-- Zeros behind a number are dropped without a trace. -/
theorem rounded_shift (m s j : Nat) : rounded (m * 2 ^ j) (s + j) = rounded m s := by
  have hpow := Nat.two_pow_pos j
  rw [rounded, rounded, exact_shiftRight, exact_shiftRight, ← Nat.mul_assoc, Nat.pow_add,
    Nat.mul_div_mul_right _ _ hpow, Nat.mul_div_mul_right _ _ hpow, Nat.mul_mod_mul_right,
    roundedMantissa_mk, roundedMantissa_mk]
  have hrest : (2 * m % 2 ^ s * 2 ^ j != 0) = (2 * m % 2 ^ s != 0) := by
    rw [Bool.eq_iff_iff]
    simp
  rw [hrest]

theorem rounded_bounds (m s : Nat) : m / 2 ^ s ≤ rounded m s ∧ rounded m s ≤ m / 2 ^ s + 1 := by
  rw [rounded_eq]
  split_ifs <;> omega

theorem rounded_le_rounded {m n : Nat} (h : m ≤ n) (s : Nat) : rounded m s ≤ rounded n s := by
  rcases Nat.lt_or_ge (m / 2 ^ s) (n / 2 ^ s) with hlt | hge
  · have hm := (rounded_bounds m s).2
    have hn := (rounded_bounds n s).1
    omega
  have hquot : m / 2 ^ s = n / 2 ^ s := Nat.le_antisymm (Nat.div_le_div_right h) hge
  have hrest : m % 2 ^ s ≤ n % 2 ^ s := by
    have hm := Nat.div_add_mod m (2 ^ s)
    have hn := Nat.div_add_mod n (2 ^ s)
    rw [hquot] at hm
    omega
  -- With equal quotients, what is dropped decides.
  rw [rounded_eq, rounded_eq, hquot]
  split_ifs <;> omega

/-- The error of rounding is at most half of what the last bit counts. -/
theorem rounded_error (m s : Nat) :
    2 * m ≤ 2 * (rounded m s * 2 ^ s) + 2 ^ s ∧ 2 * (rounded m s * 2 ^ s) ≤ 2 * m + 2 ^ s := by
  have hdiv := Nat.div_add_mod m (2 ^ s)
  have hrest := Nat.mod_lt m (Nat.two_pow_pos s)
  rw [rounded_eq, Nat.add_mul, Nat.mul_comm (m / 2 ^ s)]
  generalize 2 ^ s * (m / 2 ^ s) = quotient at *
  split_ifs with hless hhalf
  · omega
  · rcases Nat.mod_two_eq_zero_or_one (m / 2 ^ s) with heven | hodd
    · rw [heven]
      omega
    · rw [hodd]
      omega
  · omega

/-! ## Whole numbers -/

/-- The significand of a positive whole number before a carry: its first 53 bits, rounded. -/
def significand (m : Nat) : Nat :=
  rounded (m <<< (52 - m.log2)) (m.log2 - 52)

/-- The significand and the exponent of a positive whole number. -/
def normalized (m : Nat) : Nat × Int :=
  if significand m < 2 ^ 53 then (significand m, m.log2 - 52) else (2 ^ 52, m.log2 - 51)

theorem shiftLeft_ne_zero {m : Nat} (hm : m ≠ 0) (k : Nat) : m <<< k ≠ 0 := by
  rw [Nat.shiftLeft_eq]
  exact Nat.mul_ne_zero hm (Nat.two_pow_pos k).ne'

theorem log2_shiftLeft {m : Nat} (hm : m ≠ 0) (k : Nat) : (m <<< k).log2 = m.log2 + k := by
  have hlo := Nat.log2_self_le hm
  have hhi := Nat.lt_log2_self (n := m)
  rw [Nat.log2_eq_iff (shiftLeft_ne_zero hm k), Nat.shiftLeft_eq, Nat.pow_add, Nat.add_right_comm, Nat.pow_add]
  exact ⟨Nat.mul_le_mul_right _ hlo, Nat.mul_lt_mul_of_pos_right hhi (Nat.two_pow_pos k)⟩

theorem significand_bounds {m : Nat} (hm : m ≠ 0) :
    2 ^ 52 ≤ significand m ∧ significand m ≤ 2 ^ 53 := by
  have hbounds := rounded_bounds (m <<< (52 - m.log2)) (m.log2 - 52)
  have hlog := log2_shiftLeft hm (52 - m.log2)
  rw [Nat.log2_eq_iff (shiftLeft_ne_zero hm _)] at hlog
  have hexp : m.log2 + (52 - m.log2) = 52 + (m.log2 - 52) := by omega
  rw [hexp, Nat.add_right_comm, Nat.pow_add, Nat.pow_add] at hlog
  have hlo := (Nat.le_div_iff_mul_le (Nat.two_pow_pos _)).2 hlog.1
  have hhi := (Nat.div_lt_iff_lt_mul (Nat.two_pow_pos _)).2 hlog.2
  unfold significand
  omega

/-- Zeros behind a number do not count. -/
theorem significand_shift {m : Nat} (hm : m ≠ 0) (j : Nat) : significand (m * 2 ^ j) = significand m := by
  have hlog : (m * 2 ^ j).log2 = m.log2 + j := by rw [← Nat.shiftLeft_eq, log2_shiftLeft hm]
  have hbits : m * 2 ^ j * 2 ^ (52 - (m.log2 + j)) =
      m * 2 ^ (52 - m.log2) * 2 ^ (j + (52 - (m.log2 + j)) - (52 - m.log2)) := by
    rw [Nat.mul_assoc, Nat.mul_assoc, ← Nat.pow_add, ← Nat.pow_add]
    congr 2
    omega
  unfold significand
  rw [hlog, Nat.shiftLeft_eq, Nat.shiftLeft_eq, hbits,
    show m.log2 + j - 52 = m.log2 - 52 + (j + (52 - (m.log2 + j)) - (52 - m.log2)) by omega, rounded_shift]

/-- While no bits are dropped, the significand is exact. -/
theorem significand_of_log2_le {m : Nat} (h : m.log2 ≤ 52) :
    significand m = m <<< (52 - m.log2) := by
  rw [significand, Nat.sub_eq_zero_of_le h, rounded_zero]

theorem targetExponent_totalExponent (m : Nat) (e : Int) :
    Format.binary64.targetExponent (totalExponent m e) = max (m.log2 + e - 52) (-1074) := by
  have hbits : (Format.binary64.mantissaBits : Int) = 53 := by decide
  have hmin : Format.binary64.minExponent = -1074 := by decide
  unfold Format.targetExponent totalExponent
  rw [hbits, hmin]
  omega

theorem targetExponent_eq (m : Nat) {e : Int} (h : -1022 ≤ m.log2 + e) :
    Format.binary64.targetExponent (totalExponent m e) = m.log2 + e - 52 := by
  rw [targetExponent_totalExponent]
  omega

/-- A significand of at most 53 bits stays as it is. -/
theorem shiftToTargetExponent_of_lt {a : Nat} {e : Int} (hhi : a < 2 ^ 53) (he : -1074 ≤ e) :
    shiftToTargetExponent .binary64 a e .exact = (.ofMantissaAndAccuracy a .exact, e) := by
  have hlog : a.log2 < 53 := by
    rcases Nat.eq_zero_or_pos a with rfl | hpos
    · simp
    · exact (Nat.log2_lt hpos.ne').2 hhi
  unfold shiftToTargetExponent shiftToExponent
  rw [targetExponent_totalExponent]
  simp only [show (max (a.log2 + e - 52) (-1074) - e).toNat = 0 by omega]
  exact congrArg _ (Int.add_zero e)

/-- A carry leaves the least significand of the next exponent. -/
theorem shiftToTargetExponent_carry {e : Int} (he : -1074 ≤ e) :
    shiftToTargetExponent .binary64 (2 ^ 53) e .exact =
      (.ofMantissaAndAccuracy (2 ^ 52) .exact, e + 1) := by
  have hlog : (2 ^ 53 : Nat).log2 = 53 := Nat.log2_two_pow
  unfold shiftToTargetExponent shiftToExponent
  rw [targetExponent_eq _ (by omega), hlog]
  simp only [show ((53 : Nat) + e - 52 - e : Int).toNat = 1 by omega]
  rfl

theorem shiftToTargetExponent_significand {m : Nat} (hm : m ≠ 0) :
    shiftToTargetExponent .binary64 (significand m) (m.log2 - 52) .exact =
      (.ofMantissaAndAccuracy (normalized m).1 .exact, (normalized m).2) := by
  obtain ⟨hlo, hhi⟩ := significand_bounds hm
  have he : -1074 ≤ (m.log2 - 52 : Int) := by omega
  unfold normalized
  by_cases hcarry : significand m < 2 ^ 53
  · rw [if_pos hcarry, shiftToTargetExponent_of_lt hcarry he]
  · have hmax : significand m = 2 ^ 53 := by omega
    rw [if_neg hcarry, hmax, shiftToTargetExponent_carry he]
    exact congrArg _ (by omega)

theorem roundWithAccuracy_of_shifts {sign : Sign} {m a : Nat} {e e₁ e₂ : Int} {acc : Accuracy}
    {em : ExtendedMantissa} (h₁ : shiftToTargetExponent .binary64 m e acc = (em, e₁))
    (h₂ : shiftToTargetExponent .binary64 em.roundedMantissa e₁ .exact =
      (.ofMantissaAndAccuracy a .exact, e₂)) (ha : 0 < a) :
    roundWithAccuracy .binary64 sign m e acc = .finite sign a e₂ ha := by
  unfold roundWithAccuracy
  simp only [h₁, h₂]
  exact dif_neg ha.ne'

theorem normalized_bounds {m : Nat} (hm : m ≠ 0) :
    2 ^ 52 ≤ (normalized m).1 ∧ (normalized m).1 < 2 ^ 53 := by
  have h := significand_bounds hm
  unfold normalized
  split <;> omega

theorem normalized_pos {m : Nat} (hm : m ≠ 0) : 0 < (normalized m).1 :=
  Nat.lt_of_lt_of_le (by decide) (normalized_bounds hm).1

/-- Whatever the exponent is that a whole number is written with, it is rounded to its first 53 bits. -/
theorem roundWithAccuracy_whole (sign : Sign) {a m p q : Nat} (hm : m ≠ 0) (ha : 2 ^ 52 ≤ a)
    (h : a * 2 ^ p = m * 2 ^ q) :
    roundWithAccuracy .binary64 sign a (p - q) .exact =
      .finite sign (normalized m).1 (normalized m).2 (normalized_pos hm) := by
  have ha0 : a ≠ 0 := by omega
  have hlog : a.log2 + p = m.log2 + q := by
    rw [← log2_shiftLeft ha0, ← log2_shiftLeft hm, Nat.shiftLeft_eq, Nat.shiftLeft_eq, h]
  have hbits : 52 ≤ a.log2 := (Nat.le_log2 ha0).2 ha
  have hfirst : shiftToTargetExponent .binary64 a (p - q) .exact =
      (ExtendedMantissa.ofMantissaAndAccuracy a .exact >>> (a.log2 - 52), (m.log2 - 52 : Int)) := by
    unfold shiftToTargetExponent shiftToExponent
    rw [targetExponent_eq a (by omega)]
    refine Prod.ext ?_ ?_
    · show _ >>> _ = _ >>> _
      congr 1
      omega
    · show _ + _ = (_ : Int)
      omega
  have hsignificand : (ExtendedMantissa.ofMantissaAndAccuracy a .exact >>>
      (a.log2 - 52)).roundedMantissa = significand m := by
    rw [← significand_shift hm q, ← h, significand_shift ha0, significand,
      Nat.sub_eq_zero_of_le hbits]
    rfl
  refine roundWithAccuracy_of_shifts hfirst ?_ _
  rw [hsignificand]
  exact shiftToTargetExponent_significand hm

theorem round_whole (sign : Sign) {m : Nat} (hm : m ≠ 0) :
    UnpackedFloat.round .binary64 sign m 0 =
      .finite sign (normalized m).1 (normalized m).2 (normalized_pos hm) := by
  have hround : UnpackedFloat.round .binary64 sign m 0 =
      roundWithAccuracy .binary64 sign (m <<< (52 - m.log2)) ((0 : Nat) - (52 - m.log2 : Nat)) .exact := by
    unfold UnpackedFloat.round decreaseExponent
    rw [targetExponent_eq m (by omega)]
    simp only [show (0 - (m.log2 + 0 - 52) : Int).toNat = 52 - m.log2 by omega]
    rfl
  have hbits : 2 ^ 52 ≤ m <<< (52 - m.log2) := by
    rw [← Nat.le_log2 (shiftLeft_ne_zero hm _), log2_shiftLeft hm]
    omega
  rw [hround]
  exact roundWithAccuracy_whole sign hm hbits (by rw [Nat.shiftLeft_eq, Nat.pow_zero, Nat.mul_one])

/-! ## The order of whole numbers -/

theorem log2_le_log2 {m n : Nat} (hm : m ≠ 0) (h : m ≤ n) : m.log2 ≤ n.log2 := by
  have hn : n ≠ 0 := by omega
  exact (Nat.le_log2 hn).2 (Nat.le_trans (Nat.log2_self_le hm) h)

theorem significand_le {m n : Nat} (hlog : m.log2 = n.log2) (h : m ≤ n) :
    significand m ≤ significand n := by
  unfold significand
  rw [hlog]
  apply rounded_le_rounded
  rw [Nat.shiftLeft_eq, Nat.shiftLeft_eq]
  exact Nat.mul_le_mul_right _ h

theorem normalized_le {m n : Nat} (hm : m ≠ 0) (h : m ≤ n) :
    (normalized m).2 < (normalized n).2 ∨
      (normalized m).2 = (normalized n).2 ∧ (normalized m).1 ≤ (normalized n).1 := by
  have hn : n ≠ 0 := by omega
  have hlog := log2_le_log2 hm h
  have hbm := significand_bounds hm
  have hbn := significand_bounds hn
  unfold normalized
  rcases Nat.lt_or_eq_of_le hlog with hlt | heq
  · split <;> split <;> dsimp only <;> omega
  · have hle := significand_le heq h
    split <;> split <;> dsimp only <;> omega

/-- Whole numbers of at most 53 bits are exact. -/
theorem normalized_of_log2_le {m : Nat} (hm : m ≠ 0) (h : m.log2 ≤ 52) :
    normalized m = (m <<< (52 - m.log2), (m.log2 - 52 : Int)) := by
  have hlt : m <<< (52 - m.log2) < 2 ^ 53 := by
    have hshift := Nat.lt_log2_self (n := m <<< (52 - m.log2))
    rw [log2_shiftLeft hm] at hshift
    rwa [show m.log2 + (52 - m.log2) + 1 = 53 by omega] at hshift
  unfold normalized
  rw [significand_of_log2_le h, if_pos hlt]

theorem normalized_lt {m n : Nat} (hm : m ≠ 0) (h : m < n) (hn : n ≤ 2 ^ 53) :
    (normalized m).2 < (normalized n).2 ∨
      (normalized m).2 = (normalized n).2 ∧ (normalized m).1 < (normalized n).1 := by
  have hlog := log2_le_log2 hm h.le
  have hmlog : m.log2 ≤ 52 := by
    have := (Nat.log2_lt (k := 53) hm).2 (by omega)
    omega
  rw [normalized_of_log2_le hm hmlog]
  rcases Nat.lt_or_eq_of_le hlog with hlt | heq
  · left
    unfold normalized
    split <;> dsimp only <;> omega
  · right
    rw [normalized_of_log2_le (by omega) (heq ▸ hmlog), heq]
    refine ⟨rfl, ?_⟩
    show m <<< _ < n <<< _
    rw [Nat.shiftLeft_eq, Nat.shiftLeft_eq]
    exact Nat.mul_lt_mul_of_pos_right h (Nat.two_pow_pos _)

/-! ## Integers -/

theorem normalized_exponent {m : Nat} (h : m.log2 ≤ 1022) :
    -1074 ≤ (normalized m).2 ∧ (normalized m).2 ≤ 971 := by
  unfold normalized
  split <;> dsimp only <;> omega

/-- The sign of an integer other than zero. -/
def signOf (n : Int) : Sign := if n < 0 then .negative else .positive

theorem signOf_mul {a b : Int} (ha : a ≠ 0) (hb : b ≠ 0) : signOf (a * b) = signOf a * signOf b := by
  have hneg (h : a < 0) : a * b < 0 ↔ ¬ b < 0 := by
    rw [Int.mul_neg_iff]
    omega
  have hpos (h : ¬ a < 0) : a * b < 0 ↔ b < 0 := by
    rw [Int.mul_neg_iff]
    omega
  unfold signOf
  by_cases h : a < 0
  · by_cases h' : b < 0 <;> simp [hneg h, h, h'] <;> rfl
  · by_cases h' : b < 0 <;> simp [hpos h, h, h'] <;> rfl

/-- An integer is its sign and its magnitude, rounded. -/
theorem unpackedOfInt_eq {n : Int} (hn : n ≠ 0) :
    UnpackedFloat.ofInt .binary64 n =
      .finite (signOf n) (normalized n.natAbs).1 (normalized n.natAbs).2
        (normalized_pos (Int.natAbs_ne_zero.2 hn)) := by
  unfold UnpackedFloat.ofInt UnpackedFloat.normalize signOf
  rcases Int.lt_or_gt_of_ne hn with hneg | hpos
  · rw [Int.compare_eq_lt.2 hneg, if_pos hneg]
    simp only [show (-n).toNat = n.natAbs by omega]
    exact round_whole .negative (by omega)
  · rw [Int.compare_eq_gt.2 hpos, if_neg (by omega)]
    simp only [show n.toNat = n.natAbs by omega]
    exact round_whole .positive (by omega)

theorem unpack_ofInt {n : Int} (hn : n ≠ 0) (h : n.natAbs.log2 ≤ 1022) :
    (ofInt n).toModel.unpack =
      .finite (signOf n) (normalized n.natAbs).1 (normalized n.natAbs).2
        (normalized_pos (Int.natAbs_ne_zero.2 hn)) := by
  obtain ⟨hlo, hhi⟩ := normalized_bounds (Int.natAbs_ne_zero.2 hn)
  obtain ⟨hmin, hmax⟩ := normalized_exponent h
  show (Float.Model.pack (UnpackedFloat.ofInt .binary64 n)).unpack = _
  rw [unpackedOfInt_eq hn, unpack_pack _ hlo hhi hmin hmax]

theorem log2_le_of_le {m k : Nat} (h : m ≤ 2 ^ k) : m.log2 ≤ k := by
  rcases Nat.eq_zero_or_pos m with rfl | hm
  · simp
  · have hlt := (Nat.log2_lt hm.ne').2 (Nat.lt_of_le_of_lt h (Nat.pow_lt_pow_succ Nat.one_lt_two))
    omega

theorem key_ofInt_zero : key (ofInt 0) = [0] := by decide

theorem key_ofInt_of_pos {n : Int} (h : 0 < n) (hn : n.natAbs ≤ 2 ^ 63) :
    key (ofInt n) = [1, (normalized n.natAbs).2, (normalized n.natAbs).1] := by
  have hlog := log2_le_of_le hn
  rw [key, unpack_ofInt h.ne' (by omega), signOf, if_neg (by omega)]
  rfl

theorem key_ofInt_of_neg {n : Int} (h : n < 0) (hn : n.natAbs ≤ 2 ^ 63) :
    key (ofInt n) = [-1, -(normalized n.natAbs).2, -(normalized n.natAbs).1] := by
  have hlog := log2_le_of_le hn
  rw [key, unpack_ofInt h.ne (by omega), signOf, if_pos h]
  rfl

theorem compare_triple_isLE {k e f m n : Int} (h : e < f ∨ e = f ∧ m ≤ n) :
    (compare [k, e, m] [k, f, n]).isLE := by
  rw [compare_triple]
  rcases h with h | ⟨rfl, h⟩
  · rw [Int.compare_eq_lt.2 h]
    rfl
  · rw [Std.ReflOrd.compare_self]
    exact Int.isLE_compare.2 h

/-- A greater integer is no lesser double. -/
theorem ofInt_le {a b : Int} (h : a ≤ b) (ha : a.natAbs ≤ 2 ^ 63) (hb : b.natAbs ≤ 2 ^ 63) :
    ofInt a ≤ ofInt b := by
  rw [le_iff (isNaN_ofInt a) (isNaN_ofInt b)]
  rcases Int.lt_trichotomy a 0 with hna | rfl | hpa
  · rw [key_ofInt_of_neg hna ha]
    rcases Int.lt_trichotomy b 0 with hnb | rfl | hpb
    · rw [key_ofInt_of_neg hnb hb]
      have hle := normalized_le (m := b.natAbs) (n := a.natAbs) (by omega) (by omega)
      exact compare_triple_isLE (by omega)
    · rw [key_ofInt_zero]
      rfl
    · rw [key_ofInt_of_pos hpb hb]
      rfl
  · rcases Int.lt_or_eq_of_le h with hpb | rfl
    · rw [key_ofInt_zero, key_ofInt_of_pos hpb hb]
      rfl
    · rw [Std.ReflOrd.compare_self]
      rfl
  · have hpb : 0 < b := by omega
    rw [key_ofInt_of_pos hpa ha, key_ofInt_of_pos hpb hb]
    have hle := normalized_le (m := a.natAbs) (n := b.natAbs) (by omega) (by omega)
    exact compare_triple_isLE (by omega)

theorem normalized_inj {m n : Nat} (hm : m ≠ 0) (hn : n ≠ 0) (hm' : m ≤ 2 ^ 53) (hn' : n ≤ 2 ^ 53)
    (h : normalized m = normalized n) : m = n := by
  rcases Nat.lt_trichotomy m n with hlt | heq | hgt
  · have hlt := normalized_lt hm hlt hn'
    rw [h] at hlt
    omega
  · exact heq
  · have hgt := normalized_lt hn hgt hm'
    rw [h] at hgt
    omega

/-- Distinct integers up to `2 ^ 53` are distinct doubles. -/
theorem ofInt_inj {a b : Int} (ha : a.natAbs ≤ 2 ^ 53) (hb : b.natAbs ≤ 2 ^ 53)
    (h : (ofInt a == ofInt b) = true) : a = b := by
  have hkey : key (ofInt a) = key (ofInt b) :=
    Std.LawfulEqOrd.eq_of_compare ((beq_iff (isNaN_ofInt a) (isNaN_ofInt b)).1 h)
  have hinj (hne : a.natAbs ≠ 0 ∧ b.natAbs ≠ 0)
      (hexp : (normalized a.natAbs).2 = (normalized b.natAbs).2)
      (hsig : (normalized a.natAbs).1 = (normalized b.natAbs).1) : a.natAbs = b.natAbs :=
    normalized_inj hne.1 hne.2 ha hb (Prod.ext hsig hexp)
  rcases Int.lt_trichotomy a 0 with hna | rfl | hpa
  · rw [key_ofInt_of_neg hna (by omega)] at hkey
    rcases Int.lt_trichotomy b 0 with hnb | rfl | hpb
    · simp only [key_ofInt_of_neg hnb (by omega), List.cons.injEq] at hkey
      have := hinj (by omega) (by omega) (by omega)
      omega
    · simp [key_ofInt_zero] at hkey
    · simp [key_ofInt_of_pos hpb (by omega)] at hkey
  · rw [key_ofInt_zero] at hkey
    rcases Int.lt_trichotomy b 0 with hnb | rfl | hpb
    · simp [key_ofInt_of_neg hnb (by omega)] at hkey
    · rfl
    · simp [key_ofInt_of_pos hpb (by omega)] at hkey
  · rw [key_ofInt_of_pos hpa (by omega)] at hkey
    rcases Int.lt_trichotomy b 0 with hnb | rfl | hpb
    · simp [key_ofInt_of_neg hnb (by omega)] at hkey
    · simp [key_ofInt_zero] at hkey
    · simp only [key_ofInt_of_pos hpb (by omega), List.cons.injEq] at hkey
      have := hinj (by omega) (by omega) (by omega)
      omega

/-- The next integer is no double, and rounds to even. -/
example : (ofInt (2 ^ 53) == ofInt (2 ^ 53 + 1)) = true := by decide

end DerivedSeries.Binary64
