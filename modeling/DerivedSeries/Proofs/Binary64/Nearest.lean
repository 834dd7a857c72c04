import Mathlib

/-!
# The nearest number of 53 bits

The numbers that doubles are, were there no greatest exponent (`Representable`), and the one of them that is
nearest to a given number (`Nearest`). Nothing representable lies between a number and the nearest one
(`Nearest.le_of_le`), and the distance is at most one part in `2 ^ 53` (`Nearest.error`), except for a
number that is tiny and no multiple of the least one (`Nearest.error_of_onGrid`).
-/

namespace DerivedSeries.Binary64

/-- At most 53 bits, at an exponent that is not below the least one. -/
def Representable (q : ℚ) : Prop :=
  ∃ n e : ℤ, |n| ≤ 2 ^ 53 ∧ -1074 ≤ e ∧ q = n * 2 ^ e

/-- The number `r` is representable, and no such number is nearer to `q`. Which one it is where two are equally
near is left open. -/
structure Nearest (q r : ℚ) : Prop where
  representable : Representable r
  near : ∀ s, Representable s → |r - q| ≤ |s - q|

/-- A multiple of the least positive double. -/
def OnGrid (q : ℚ) : Prop := ∃ n : ℤ, q = n * 2 ^ (-1074 : ℤ)

theorem representable_zero : Representable 0 :=
  ⟨0, 0, by norm_num, by norm_num, by norm_num⟩

theorem representable_two_zpow {e : ℤ} (he : -1074 ≤ e) : Representable (2 ^ e) :=
  ⟨1, e, by norm_num, he, by norm_num⟩

theorem Representable.neg {q : ℚ} (h : Representable q) : Representable (-q) := by
  obtain ⟨n, e, hn, he, rfl⟩ := h
  exact ⟨-n, e, by rwa [abs_neg], he, by rw [Int.cast_neg, neg_mul]⟩

/-! ## The grid -/

section
variable {p q r : ℚ}

theorem OnGrid.sub (hp : OnGrid p) (hq : OnGrid q) : OnGrid (p - q) := by
  obtain ⟨m, rfl⟩ := hp
  obtain ⟨n, rfl⟩ := hq
  exact ⟨m - n, by rw [Int.cast_sub, sub_mul]⟩

theorem OnGrid.mul_int (h : OnGrid q) (k : ℤ) : OnGrid (q * k) := by
  obtain ⟨n, rfl⟩ := h
  exact ⟨n * k, by rw [Int.cast_mul, mul_right_comm]⟩

/-- The first number with 53 bits, in units of the last one. -/
theorem two_zpow_add_52 (t : ℤ) : (2 : ℚ) ^ (t + 52) = 2 ^ 52 * 2 ^ t := by
  rw [add_comm, zpow_add₀ two_ne_zero]
  norm_num

/-- A number at a greater exponent is a multiple of a power of two at a lesser one. -/
theorem mul_two_zpow_eq (n : ℤ) {e f : ℤ} (h : f ≤ e) :
    ((n * 2 ^ (e - f).toNat : ℤ) : ℚ) * 2 ^ f = n * 2 ^ e := by
  have hsplit : (2 : ℚ) ^ (e - f).toNat * 2 ^ f = 2 ^ e := by
    rw [← zpow_natCast, ← zpow_add₀ two_ne_zero, Int.toNat_of_nonneg (by omega), sub_add_cancel]
  push_cast
  rw [mul_assoc, hsplit]

theorem Representable.onGrid (h : Representable q) : OnGrid q := by
  obtain ⟨n, e, -, he, rfl⟩ := h
  exact ⟨_, (mul_two_zpow_eq n he).symm⟩

/-- What is tiny and on the grid is representable. -/
theorem OnGrid.representable (h : OnGrid q) (hq : |q| ≤ 2 ^ (-1022 : ℤ)) : Representable q := by
  obtain ⟨n, rfl⟩ := h
  refine ⟨n, -1074, ?_, le_rfl, rfl⟩
  have hpow : (0 : ℚ) < 2 ^ (-1074 : ℤ) := by positivity
  rw [abs_mul, abs_of_pos hpow, show (-1022 : ℤ) = -1074 + 52 by norm_num, two_zpow_add_52,
    mul_le_mul_iff_left₀ hpow] at hq
  have hn : |n| ≤ 2 ^ 52 := by exact_mod_cast hq
  omega

/-! ## Order -/

theorem Nearest.neg (h : Nearest q r) : Nearest (-q) (-r) where
  representable := h.representable.neg
  near s hs := by
    calc |-r - -q| = |r - q| := by rw [neg_sub_neg, abs_sub_comm]
      _ ≤ |-s - q| := h.near (-s) hs.neg
      _ = |s - -q| := by rw [← abs_neg, neg_sub, sub_neg_eq_add, sub_neg_eq_add, add_comm]

/-- No representable number lies strictly between a number and the nearest one. -/
theorem Nearest.le_of_le {s : ℚ} (h : Nearest q r) (hs : Representable s) (hq : q ≤ s) : r ≤ s := by
  by_contra hlt
  have hnear := h.near s hs
  rw [abs_of_nonneg (by linarith), abs_of_nonneg (by linarith)] at hnear
  linarith

theorem Nearest.ge_of_ge {s : ℚ} (h : Nearest q r) (hs : Representable s) (hq : s ≤ q) : s ≤ r :=
  neg_le_neg_iff.1 (h.neg.le_of_le hs.neg (neg_le_neg hq))

theorem Nearest.eq (h : Nearest q r) (hq : Representable q) : r = q :=
  le_antisymm (h.le_of_le hq le_rfl) (h.ge_of_ge hq le_rfl)

theorem Nearest.nonneg (h : Nearest q r) (hq : 0 ≤ q) : 0 ≤ r :=
  h.ge_of_ge representable_zero hq

theorem nearest_self (hq : Representable q) : Nearest q q :=
  ⟨hq, fun s _ => by rw [sub_self, abs_zero]; exact abs_nonneg _⟩

/-! ## Multiples -/

section
variable {u : ℚ} {k : ℤ}

theorem exists_multiple (hu : 0 < u) (q : ℚ) : ∃ k : ℤ, |k * u - q| ≤ u / 2 := by
  refine ⟨round (q / u), ?_⟩
  have hsplit : round (q / u) * u - q = (round (q / u) - q / u) * u := by
    rw [sub_mul, div_mul_cancel₀ _ hu.ne']
  rw [hsplit, abs_mul, abs_of_pos hu, abs_sub_comm]
  linarith [mul_le_mul_of_nonneg_right (abs_sub_round (q / u)) hu.le]

theorem abs_le_of_multiple (hu : 0 < u) (h : |k * u - q| ≤ u / 2) (hq : |q| < 2 ^ 53 * u) :
    |k| ≤ 2 ^ 53 := by
  have htriangle := abs_sub_abs_le_abs_sub (k * u) q
  rw [abs_mul, abs_of_pos hu] at htriangle
  have hlt : |(k : ℚ)| * u < (2 ^ 53 + 1) * u := by linarith
  have hlt : |k| < 2 ^ 53 + 1 := by exact_mod_cast lt_of_mul_lt_mul_right hlt hu.le
  omega

/-- A multiple of a number that is at most half of it away is the nearest multiple. -/
theorem abs_sub_le_of_multiple (hu : 0 < u) (h : |k * u - q| ≤ u / 2) (j : ℤ) :
    |k * u - q| ≤ |j * u - q| := by
  rcases eq_or_ne j k with rfl | hne
  · exact le_rfl
  have hgap : (1 : ℚ) ≤ |(j : ℚ) - k| := by
    exact_mod_cast Int.one_le_abs (sub_ne_zero.2 hne)
  have hdist : u ≤ |j * u - k * u| := by
    rw [← sub_mul, abs_mul, abs_of_pos hu]
    exact le_mul_of_one_le_left hu.le hgap
  have htriangle := abs_sub_le (j * u) q (k * u)
  rw [abs_sub_comm q] at htriangle
  linarith

end

/-! ## Distance -/

theorem exists_representable (hq : 2 ^ (-1022 : ℤ) ≤ |q|) :
    ∃ s, Representable s ∧ |s - q| ≤ |q| / 2 ^ 53 := by
  have hpos : 0 < |q| := lt_of_lt_of_le (by positivity) hq
  obtain ⟨e, hlo, hhi⟩ := exists_mem_Ico_zpow hpos (one_lt_two (α := ℚ))
  have he : -1022 < e + 1 := (zpow_lt_zpow_iff_right₀ one_lt_two).1 (lt_of_le_of_lt hq hhi)
  obtain ⟨t, rfl⟩ : ∃ t, e = t + 52 := ⟨e - 52, by omega⟩
  have hpow : (0 : ℚ) < 2 ^ t := by positivity
  rw [zpow_add_one₀ two_ne_zero] at hhi
  rw [two_zpow_add_52] at hlo hhi
  obtain ⟨k, hk⟩ := exists_multiple hpow q
  have hbits := abs_le_of_multiple hpow hk (by linarith)
  refine ⟨k * 2 ^ t, ⟨k, t, hbits, by omega, rfl⟩, hk.trans ?_⟩
  rw [le_div_iff₀ (by positivity)]
  linarith

/-- The relative error of rounding. -/
theorem Nearest.error (h : Nearest q r) (hq : 2 ^ (-1022 : ℤ) ≤ |q|) : |r - q| ≤ |q| / 2 ^ 53 := by
  obtain ⟨s, hs, herror⟩ := exists_representable hq
  exact (h.near s hs).trans herror

theorem Nearest.error_of_onGrid (h : Nearest q r) (hq : OnGrid q) : |r - q| ≤ |q| / 2 ^ 53 := by
  rcases le_total (2 ^ (-1022 : ℤ)) |q| with hlarge | htiny
  · exact h.error hlarge
  · rw [h.eq (hq.representable htiny), sub_self, abs_zero]
    positivity

/-- A number with a lesser exponent is at most the first one of 53 bits with this exponent. -/
theorem abs_mul_two_zpow_le {n f t : ℤ} (hn : |n| ≤ 2 ^ 53) (h : f < t) :
    |(n : ℚ) * 2 ^ f| ≤ 2 ^ 52 * 2 ^ t := by
  have hpow : (0 : ℚ) < 2 ^ f := by positivity
  have hn : |(n : ℚ)| ≤ 2 ^ 53 := by exact_mod_cast hn
  rw [abs_mul, abs_of_pos hpow]
  calc |(n : ℚ)| * 2 ^ f ≤ 2 ^ 53 * 2 ^ f := mul_le_mul_of_nonneg_right hn hpow.le
    _ = 2 ^ 52 * 2 ^ (f + 1) := by
      rw [zpow_add_one₀ two_ne_zero]
      ring
    _ ≤ 2 ^ 52 * 2 ^ t :=
      mul_le_mul_of_nonneg_left (zpow_le_zpow_right₀ one_le_two (by omega)) (by positivity)

/-- A multiple of a power of two that is at most half of it away is nearest, as 53 bits give no finer
multiples there. -/
theorem nearest_of_multiple {k t : ℤ} (hk : |k| ≤ 2 ^ 53) (ht : -1074 ≤ t)
    (hq : t = -1074 ∨ 2 ^ (t + 52) ≤ |q|) (h : |k * 2 ^ t - q| ≤ 2 ^ t / 2) :
    Nearest q (k * 2 ^ t) := by
  have hpow : (0 : ℚ) < 2 ^ t := by positivity
  refine ⟨⟨k, t, hk, ht, rfl⟩, ?_⟩
  rintro s ⟨n, f, hn, hf, rfl⟩
  rcases le_or_gt t f with hge | hlt
  · rw [← mul_two_zpow_eq n hge]
    exact abs_sub_le_of_multiple hpow h _
  have hq : 2 ^ (t + 52) ≤ |q| := hq.resolve_left (by omega)
  have hs := abs_mul_two_zpow_le hn hlt
  have htriangle := abs_sub_abs_le_abs_sub q (n * 2 ^ f)
  rw [abs_sub_comm] at htriangle
  rw [two_zpow_add_52] at hq
  rcases le_total 0 q with hpos | hneg
  · have hnear := abs_sub_le_of_multiple hpow h (2 ^ 52)
    rw [abs_of_nonneg hpos] at hq htriangle
    rw [Int.cast_pow, Int.cast_ofNat, abs_sub_comm (2 ^ 52 * 2 ^ t),
      abs_of_nonneg (by linarith : 0 ≤ q - 2 ^ 52 * 2 ^ t)] at hnear
    linarith
  · have hnear := abs_sub_le_of_multiple hpow h (-2 ^ 52)
    rw [abs_of_nonpos hneg] at hq htriangle
    rw [Int.cast_neg, Int.cast_pow, Int.cast_ofNat, neg_mul,
      abs_of_nonneg (by linarith : 0 ≤ -(2 ^ 52 * 2 ^ t) - q)] at hnear
    linarith

end

end DerivedSeries.Binary64
