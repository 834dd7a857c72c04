import Mathlib
import DerivedSeries.Proofs.Interpolation
import DerivedSeries.Proofs.Word

/-!
# The line between two integers

The estimate between two integers is the exact line with its distance from the first neighbour truncated
(`onLine_lerpInt`): it is less than one short of the line and never beyond it. It moves one way as time
goes on (`lerpInt_le_lerpInt`). Words of 128 bits hold every step of the computation (`lerpChecked_eq`), so
nothing is lost on the way (`lerp_integers`).
-/

namespace DerivedSeries.Interpolation

/-! ## Truncation -/

/-- On the line from `y₀` to `y₁`, `offset` of the way of length `span`. -/
def exactLine (y₀ y₁ offset span : Int) : ℚ :=
  y₀ + (y₁ - y₀) * offset / span

/-- What the integer `n` has of the line from `y₀` to `y₁`. -/
structure OnLine (y₀ y₁ offset span n : Int) : Prop where
  inside : Min.min y₀ y₁ ≤ n ∧ n ≤ Max.max y₀ y₁
  near : |(n : ℚ) - exactLine y₀ y₁ offset span| < 1
  /-- Seen from `y₀`, the integer is not beyond the line. -/
  short : y₀ ≤ n ∧ (n : ℚ) ≤ exactLine y₀ y₁ offset span ∨
    n ≤ y₀ ∧ exactLine y₀ y₁ offset span ≤ n

theorem exactLine_neg (y₀ y₁ offset span : Int) :
    exactLine (-y₀) (-y₁) offset span = -exactLine y₀ y₁ offset span := by
  unfold exactLine
  push_cast
  ring

theorem OnLine.neg {y₀ y₁ offset span n : Int} (h : OnLine y₀ y₁ offset span n) :
    OnLine (-y₀) (-y₁) offset span (-n) where
  inside := by
    have := h.inside
    omega
  near := by
    rw [exactLine_neg, Int.cast_neg, neg_sub_neg, abs_sub_comm]
    exact h.near
  short := by
    rw [exactLine_neg, Int.cast_neg]
    rcases h.short with ⟨hfirst, hline⟩ | ⟨hfirst, hline⟩
    · exact .inr ⟨Int.neg_le_neg hfirst, neg_le_neg hline⟩
    · exact .inl ⟨Int.neg_le_neg hfirst, neg_le_neg hline⟩

/-- A quotient of numbers that are not negative is cut down to an integer. -/
theorem tdiv_bounds {a s : Int} (ha : 0 ≤ a) (hs : 0 < s) :
    (a.tdiv s : ℚ) ≤ a / s ∧ (a / s : ℚ) < a.tdiv s + 1 := by
  have hs' : (0 : ℚ) < s := Int.cast_pos.2 hs
  have hsplit := Int.mul_tdiv_add_tmod a s
  have hlo := Int.tmod_nonneg s ha
  have hhi := Int.tmod_lt_of_pos a hs
  rw [le_div_iff₀ hs', div_lt_iff₀ hs']
  constructor
  · norm_cast
    rw [Int.mul_comm]
    omega
  · norm_cast
    rw [Int.mul_comm, Int.mul_add]
    omega

section
variable {y₀ y₁ offset span : Int}

theorem onLine_of_le (hy : y₀ ≤ y₁) (hoffset : 0 ≤ offset) (hspan : offset ≤ span) (hpos : 0 < span) :
    OnLine y₀ y₁ offset span (lerpInt y₀ y₁ offset span) := by
  have harea : 0 ≤ (y₁ - y₀) * offset := Int.mul_nonneg (by omega) hoffset
  obtain ⟨hfloor, hceil⟩ := tdiv_bounds harea hpos
  have hline : exactLine y₀ y₁ offset span = y₀ + ((y₁ - y₀) * offset : Int) / span := by
    unfold exactLine
    push_cast
    rfl
  have hshort : (lerpInt y₀ y₁ offset span : ℚ) ≤ exactLine y₀ y₁ offset span := by
    rw [hline, lerpInt, Int.cast_add]
    exact add_le_add_right hfloor _
  refine ⟨lerpInt_bounds y₀ y₁ hoffset hspan hpos, ?_,
    .inl ⟨(lerpInt_bounds_of_le hy hoffset hspan hpos).1, hshort⟩⟩
  rw [abs_sub_comm, abs_of_nonneg (sub_nonneg.2 hshort), hline, lerpInt, Int.cast_add]
  linarith

theorem onLine_lerpInt (y₀ y₁ : Int) (hoffset : 0 ≤ offset) (hspan : offset ≤ span) (hpos : 0 < span) :
    OnLine y₀ y₁ offset span (lerpInt y₀ y₁ offset span) := by
  rcases Int.le_total y₀ y₁ with hy | hy
  · exact onLine_of_le hy hoffset hspan hpos
  · -- a line that falls is the opposite of one that rises
    have h := (onLine_of_le (Int.neg_le_neg hy) hoffset hspan hpos).neg
    rwa [lerpInt_neg, Int.neg_neg, Int.neg_neg, Int.neg_neg] at h

/-! ## The course of the line -/

theorem lerpInt_le_lerpInt {later : Int} (hy : y₀ ≤ y₁) (h : offset ≤ later) (hpos : 0 < span) :
    lerpInt y₀ y₁ offset span ≤ lerpInt y₀ y₁ later span :=
  Int.add_le_add_left (Int.tdiv_le_tdiv hpos (Int.mul_le_mul_of_nonneg_left h (by omega))) y₀

theorem lerpInt_le_lerpInt_of_ge {later : Int} (hy : y₁ ≤ y₀) (h : offset ≤ later) (hpos : 0 < span) :
    lerpInt y₀ y₁ later span ≤ lerpInt y₀ y₁ offset span := by
  have hrise := lerpInt_le_lerpInt (Int.neg_le_neg hy) h hpos
  rw [lerpInt_neg, lerpInt_neg] at hrise
  exact Int.neg_le_neg_iff.1 hrise

end

/-! ## Words -/

/-- An integer that fits in 128 bits. -/
def int128? (n : Int) : Option Int :=
  if -2 ^ 127 ≤ n ∧ n < 2 ^ 127 then some n else none

theorem int128?_of_natAbs_lt {n : Int} (h : n.natAbs < 2 ^ 127) : int128? n = some n :=
  if_pos (by omega)

/-- The line between two words, with times of 64 bits, samples of 128, and a check after every step. -/
def lerpChecked (t₀ t₁ t : Timestamp) (y₀ y₁ : Int64) : Option Int64 := do
  let span ← int64? (t₁.toInt - t₀.toInt)
  let offset ← int64? (t.toInt - t₀.toInt)
  let rise ← int128? (y₁.toInt - y₀.toInt)
  let area ← int128? (rise * offset.toInt)
  let delta ← int128? (area.tdiv span.toInt)
  int64? (← int128? (y₀.toInt + delta))

section
variable {t₀ t₁ t : Timestamp} {y₀ y₁ n : Int64}

/-- A rise of 65 bits over 63 bits of time is within 128 bits. -/
theorem natAbs_area_lt (y₀ y₁ : Int64) {offset : Int} (h : offset.natAbs < 2 ^ 63) :
    ((y₁.toInt - y₀.toInt) * offset).natAbs < 2 ^ 127 := by
  have hrise : (y₁.toInt - y₀.toInt).natAbs ≤ 2 ^ 64 := by
    have h₀ := natAbs_toInt_le y₀
    have h₁ := natAbs_toInt_le y₁
    omega
  calc ((y₁.toInt - y₀.toInt) * offset).natAbs
      = (y₁.toInt - y₀.toInt).natAbs * offset.natAbs := Int.natAbs_mul _ _
    _ ≤ 2 ^ 64 * offset.natAbs := Nat.mul_le_mul_right _ hrise
    _ < 2 ^ 64 * 2 ^ 63 := Nat.mul_lt_mul_of_pos_left h (by decide)

theorem lerpChecked_eq (hat : t₀ < t) (htb : t < t₁) (hspan : Fits (t₁.toInt - t₀.toInt))
    (hn : n.toInt = lerpInt y₀.toInt y₁.toInt (t.toInt - t₀.toInt) (t₁.toInt - t₀.toInt)) :
    lerpChecked t₀ t₁ t y₀ y₁ = some n := by
  have hlt := Int64.lt_iff_toInt_lt.1 hat
  have hgt := Int64.lt_iff_toInt_lt.1 htb
  have hmax := Int64.toInt_maxValue
  have hmin := Int64.toInt_minValue
  have hoffset : Fits (t.toInt - t₀.toInt) := by
    unfold Fits at hspan ⊢
    omega
  obtain ⟨span, hspan'⟩ := fits_iff.1 hspan
  obtain ⟨offset, hoffset'⟩ := fits_iff.1 hoffset
  have h₀ := natAbs_toInt_le y₀
  have h₁ := natAbs_toInt_le y₁
  have hle := natAbs_toInt_le n
  have hbits : offset.toInt.natAbs < 2 ^ 63 := by
    have := hspan.2
    omega
  have harea := natAbs_area_lt y₀ y₁ hbits
  have hsum : y₀.toInt + ((y₁.toInt - y₀.toInt) * offset.toInt).tdiv span.toInt = n.toInt := by
    rw [hn, hspan', hoffset']
    rfl
  unfold lerpChecked
  rw [int64?_eq_some_iff.2 hspan', int64?_eq_some_iff.2 hoffset']
  simp only [Option.bind_eq_bind, Option.bind_some]
  rw [int128?_of_natAbs_lt (by omega), Option.bind_some, int128?_of_natAbs_lt harea, Option.bind_some,
    int128?_of_natAbs_lt (by omega), Option.bind_some, hsum, int128?_of_natAbs_lt (by omega),
    Option.bind_some, int64?_toInt]

theorem exists_line (t₀ t₁ : Timestamp) (y₀ y₁ : Int64) :
    ∃ line : Timestamp → Int64, ∀ t, t₀ < t → t < t₁ →
      lerp.between ⟨t₀, .int y₀⟩ ⟨t₁, .int y₁⟩ t = .int (line t) ∧
      (line t).toInt = lerpInt y₀.toInt y₁.toInt (t.toInt - t₀.toInt) (t₁.toInt - t₀.toInt) := by
  have hexists : ∀ t, ∃ n : Int64, t₀ < t → t < t₁ →
      lerp.between ⟨t₀, .int y₀⟩ ⟨t₁, .int y₁⟩ t = .int n ∧
      n.toInt = lerpInt y₀.toInt y₁.toInt (t.toInt - t₀.toInt) (t₁.toInt - t₀.toInt) := by
    intro t
    by_cases ht : t₀ < t ∧ t < t₁
    · obtain ⟨n, hn, hvalue, -⟩ :=
        between_lerp (a := ⟨t₀, .int y₀⟩) (b := ⟨t₁, .int y₁⟩) rfl rfl ht.1 ht.2
      exact ⟨n, fun _ _ => ⟨hn, hvalue⟩⟩
    · exact ⟨0, fun hat htb => absurd ⟨hat, htb⟩ ht⟩
  choose line hline using hexists
  exact ⟨line, hline⟩

theorem between_lerp_neg (hat : t₀ < t) (htb : t < t₁) (h₀ : y₀ ≠ Int64.minValue)
    (h₁ : y₁ ≠ Int64.minValue) (hn : lerp.between ⟨t₀, .int y₀⟩ ⟨t₁, .int y₁⟩ t = .int n) :
    n ≠ Int64.minValue ∧ lerp.between ⟨t₀, .int (-y₀)⟩ ⟨t₁, .int (-y₁)⟩ t = .int (-n) := by
  obtain ⟨m, hm, hmin⟩ := between_ne_minValue (.inl rfl) (a := ⟨t₀, .int y₀⟩) (b := ⟨t₁, .int y₁⟩)
    rfl rfl h₀ h₁ hat htb
  have hneg := between_neg (.inl rfl) (a := ⟨t₀, .int y₀⟩) (b := ⟨t₁, .int y₁⟩) rfl rfl h₀ h₁ hat htb
  cases hn.symm.trans hm
  rw [hn, Sample.neg_int hmin, Sample.neg_int h₀, Sample.neg_int h₁] at hneg
  exact ⟨hmin, hneg⟩

end

/-- Between two integers the line gives integers. Every step of their computation is within 128 bits and the
result is a word. It lies between the two, less than one short of the exact line and never beyond it, moves
from the first neighbour toward the second as time goes on, and changes its sign with them. -/
theorem lerp_integers {t₀ t₁ : Timestamp} (y₀ y₁ : Int64) (hspan : Fits (t₁.toInt - t₀.toInt)) :
    ∃ line : Timestamp → Int64,
      (∀ t, t₀ < t → t < t₁ →
        lerp.between ⟨t₀, .int y₀⟩ ⟨t₁, .int y₁⟩ t = .int (line t) ∧
        lerpChecked t₀ t₁ t y₀ y₁ = some (line t) ∧
        OnLine y₀.toInt y₁.toInt (t.toInt - t₀.toInt) (t₁.toInt - t₀.toInt) (line t).toInt ∧
        (y₀ ≠ Int64.minValue → y₁ ≠ Int64.minValue →
          line t ≠ Int64.minValue ∧
            lerp.between ⟨t₀, .int (-y₀)⟩ ⟨t₁, .int (-y₁)⟩ t = .int (-line t))) ∧
      ∀ t u, t₀ < t → t ≤ u → u < t₁ →
        (y₀ ≤ y₁ → line t ≤ line u) ∧ (y₁ ≤ y₀ → line u ≤ line t) := by
  obtain ⟨line, hline⟩ := exists_line t₀ t₁ y₀ y₁
  refine ⟨line, fun t hat htb => ?_, fun t u hat htu hub => ?_⟩
  · have hlt := Int64.lt_iff_toInt_lt.1 hat
    have hgt := Int64.lt_iff_toInt_lt.1 htb
    obtain ⟨hbetween, hvalue⟩ := hline t hat htb
    refine ⟨hbetween, lerpChecked_eq hat htb hspan hvalue, ?_,
      fun h₀ h₁ => between_lerp_neg hat htb h₀ h₁ hbetween⟩
    rw [hvalue]
    exact onLine_lerpInt _ _ (by omega) (by omega) (by omega)
  · have hle := Int64.le_iff_toInt_le.1 htu
    have hlt := Int64.lt_iff_toInt_lt.1 hat
    have hgt := Int64.lt_iff_toInt_lt.1 hub
    have hearlier := (hline t hat (Int64.lt_of_le_of_lt htu hub)).2
    have hlater := (hline u (Int64.lt_of_lt_of_le hat htu) hub).2
    simp only [Int64.le_iff_toInt_le, hearlier, hlater]
    exact ⟨fun hy => lerpInt_le_lerpInt hy (by omega) (by omega),
      fun hy => lerpInt_le_lerpInt_of_ge hy (by omega) (by omega)⟩

/-- From the least word to the greatest, over the longest span. -/
theorem lerp_integers_widest :
    Fits ((4611686018427387903 : Int64).toInt - (-4611686018427387904 : Int64).toInt) ∧
      ∃ line : Timestamp → Int64,
        lerp.between ⟨-4611686018427387904, .int Int64.minValue⟩
          ⟨4611686018427387903, .int Int64.maxValue⟩ 4611686018427387902 =
            .int (line 4611686018427387902) ∧
        line 4611686018427387902 = 9223372036854775804 := by
  have hspan : Fits ((4611686018427387903 : Int64).toInt - (-4611686018427387904 : Int64).toInt) := by
    decide
  obtain ⟨line, hline, -⟩ := lerp_integers Int64.minValue Int64.maxValue hspan
  obtain ⟨hbetween, hchecked, -⟩ := hline 4611686018427387902 (by decide) (by decide)
  have hvalue : lerpChecked (-4611686018427387904) 4611686018427387903 4611686018427387902
      Int64.minValue Int64.maxValue = some 9223372036854775804 := by decide
  exact ⟨hspan, line, hbetween, Option.some.inj (hchecked.symm.trans hvalue)⟩

end DerivedSeries.Interpolation
