import DerivedSeries.Interpolation

/-!
# Interpolation of integers

Between two integers every policy gives an integer (`between_int`). On a line it is truncated toward
the first neighbour, and so lies between the two (`lerpInt_bounds`) and changes its sign with them
(`lerpInt_neg`); the 64-bit range cuts nothing off (`between_lerp`). A line is odd in this sense, and
so is a zero for what is missing: opposite neighbours give the opposite estimate (`between_neg`).
-/

namespace DerivedSeries.Interpolation

/-! ## On a line -/

section
variable {y₀ y₁ offset span : Int}

theorem lerpInt_neg (y₀ y₁ offset span : Int) :
    lerpInt (-y₀) (-y₁) offset span = -lerpInt y₀ y₁ offset span := by
  have hrise : -y₁ - -y₀ = -(y₁ - y₀) := by omega
  unfold lerpInt
  rw [hrise, Int.neg_mul, Int.neg_tdiv]
  omega

theorem lerpInt_bounds_of_le (hy : y₀ ≤ y₁) (hoffset : 0 ≤ offset) (hspan : offset ≤ span)
    (hpos : 0 < span) : y₀ ≤ lerpInt y₀ y₁ offset span ∧ lerpInt y₀ y₁ offset span ≤ y₁ := by
  have hrise : 0 ≤ y₁ - y₀ := by omega
  have hlo : 0 ≤ ((y₁ - y₀) * offset).tdiv span :=
    Int.tdiv_nonneg (Int.mul_nonneg hrise hoffset) (Int.le_of_lt hpos)
  have hhi : ((y₁ - y₀) * offset).tdiv span ≤ y₁ - y₀ := by
    have h := Int.tdiv_le_tdiv hpos (Int.mul_le_mul_of_nonneg_left hspan hrise)
    rwa [Int.mul_tdiv_cancel _ (Int.ne_of_gt hpos)] at h
  unfold lerpInt
  omega

/-- What lies on a line between two integers is between them. -/
theorem lerpInt_bounds (y₀ y₁ : Int) (hoffset : 0 ≤ offset) (hspan : offset ≤ span)
    (hpos : 0 < span) :
    Min.min y₀ y₁ ≤ lerpInt y₀ y₁ offset span ∧
      lerpInt y₀ y₁ offset span ≤ Max.max y₀ y₁ := by
  rcases Int.le_total y₀ y₁ with hy | hy
  · have h := lerpInt_bounds_of_le hy hoffset hspan hpos
    omega
  · -- a line that falls is the opposite of one that rises
    have h := lerpInt_bounds_of_le (Int.neg_le_neg hy) hoffset hspan hpos
    rw [lerpInt_neg] at h
    omega

end

/-! ## Between two points -/

section
variable {a b : Point} {u v : Int64} {t : Timestamp}

theorem between_lerp (ha : a.value = .int u) (hb : b.value = .int v) (hat : a.timestamp < t)
    (htb : t < b.timestamp) : ∃ n : Int64, lerp.between a b t = .int n ∧
      n.toInt = lerpInt u.toInt v.toInt (t.toInt - a.timestamp.toInt)
        (b.timestamp.toInt - a.timestamp.toInt) ∧
      Min.min u.toInt v.toInt ≤ n.toInt ∧ n.toInt ≤ Max.max u.toInt v.toInt := by
  have hlt := Int64.lt_iff_toInt_lt.1 hat
  have hgt := Int64.lt_iff_toInt_lt.1 htb
  have hspan : b.timestamp.toInt - a.timestamp.toInt ≠ 0 := by omega
  obtain ⟨hlo, hhi⟩ := lerpInt_bounds u.toInt v.toInt
    (show 0 ≤ t.toInt - a.timestamp.toInt by omega)
    (show _ ≤ b.timestamp.toInt - a.timestamp.toInt by omega) (by omega)
  have hmin : Int64.minValue.toInt ≤ Min.min u.toInt v.toInt :=
    Int.le_min.2 ⟨u.minValue_le_toInt, v.minValue_le_toInt⟩
  have hmax : Max.max u.toInt v.toInt ≤ Int64.maxValue.toInt := Int.max_le.2 ⟨u.toInt_le, v.toInt_le⟩
  have hexact := Int64.toInt_ofInt_of_le (Int.le_trans hmin hlo)
    (Int.lt_add_one_of_le (Int.le_trans hhi hmax))
  refine ⟨_, ?_, hexact, Int.le_trans hlo (Int.le_of_eq hexact.symm),
    Int.le_trans (Int.le_of_eq hexact) hhi⟩
  unfold between lerpBetween
  rw [ha, hb]
  exact if_neg hspan

theorem between_zim (ha : a.value = .int u) (hb : b.value = .int v) (t : Timestamp) :
    zim.between a b t = .int 0 := by
  simp [between, ha, hb, Sample.isInt]

theorem between_int (policy : Interpolation) (ha : a.value = .int u) (hb : b.value = .int v)
    (hat : a.timestamp < t) (htb : t < b.timestamp) :
    ∃ n : Int64, policy.between a b t = .int n := by
  cases policy with
  | lerp =>
    obtain ⟨n, hn, -⟩ := between_lerp ha hb hat htb
    exact ⟨n, hn⟩
  | zim => exact ⟨0, between_zim ha hb t⟩
  | max => exact ⟨Int64.maxValue, by simp [between, ha, hb, Sample.isInt]⟩
  | min => exact ⟨Int64.minValue, by simp [between, ha, hb, Sample.isInt]⟩

/-- The policies that give opposite neighbours the opposite estimate (`between_neg`). -/
def Odd (policy : Interpolation) : Prop := policy = lerp ∨ policy = zim

/-- Estimates of an odd policy leave out the least integer if their neighbours do. -/
theorem between_ne_minValue {policy : Interpolation} (hodd : policy.Odd) (ha : a.value = .int u)
    (hb : b.value = .int v) (hu : u ≠ Int64.minValue) (hv : v ≠ Int64.minValue)
    (hat : a.timestamp < t) (htb : t < b.timestamp) :
    ∃ n : Int64, policy.between a b t = .int n ∧ n ≠ Int64.minValue := by
  rcases hodd with rfl | rfl
  · obtain ⟨n, hn, -, hlo, -⟩ := between_lerp ha hb hat htb
    refine ⟨n, hn, fun he => ?_⟩
    have hu' : u.toInt ≠ Int64.minValue.toInt := fun h => hu (Int64.toInt_inj.1 h)
    have hv' : v.toInt ≠ Int64.minValue.toInt := fun h => hv (Int64.toInt_inj.1 h)
    have := u.minValue_le_toInt
    have := v.minValue_le_toInt
    rw [he] at hlo
    omega
  · exact ⟨0, between_zim ha hb t, by decide⟩

theorem between_neg {policy : Interpolation} (hodd : policy.Odd) (ha : a.value = .int u)
    (hb : b.value = .int v) (hu : u ≠ Int64.minValue) (hv : v ≠ Int64.minValue)
    (hat : a.timestamp < t) (htb : t < b.timestamp) :
    policy.between ⟨a.timestamp, a.value.neg⟩ ⟨b.timestamp, b.value.neg⟩ t =
      (policy.between a b t).neg := by
  obtain ⟨n, hn, hmin⟩ := between_ne_minValue hodd ha hb hu hv hat htb
  rw [hn, Sample.neg_int hmin, ha, hb, Sample.neg_int hu, Sample.neg_int hv]
  rcases hodd with rfl | rfl
  · obtain ⟨k, hk, hkline, -⟩ := between_lerp ha hb hat htb
    obtain ⟨m, hm, hmline, -⟩ := between_lerp (a := ⟨a.timestamp, .int (-u)⟩)
      (b := ⟨b.timestamp, .int (-v)⟩) rfl rfl hat htb
    cases hn.symm.trans hk
    rw [hm, Sample.int.injEq, ← Int64.toInt_inj, hmline, toInt_neg_of_ne_minValue hmin, hkline,
      toInt_neg_of_ne_minValue hu, toInt_neg_of_ne_minValue hv, lerpInt_neg]
  · cases hn.symm.trans (between_zim ha hb t)
    exact between_zim rfl rfl t

end

end DerivedSeries.Interpolation
