import DerivedSeries.Decimal.Shortest

/-!
# The search for the shortest decimal

No grid gives zero for a positive number (`gridPoint?_pos`), and a grid whose step is no wider than the
upper half of the interval has a point in it (`isSome_gridPoint?`). The last grid of the search is that fine
for every double, so the search ends with digits (`shortest_digits_pos`).
-/

namespace DerivedSeries.Decimal

namespace Interval

variable {i : Interval} {tie : Tie} {k : Int} {d : Nat}

/-- The step of the grid `10 ^ k`, in parts that are whole on both sides. -/
def step (i : Interval) (k : Int) : Nat :=
  Nat.pow 10 k.toNat * Nat.pow 2 (-i.unit).toNat

/-- How many such parts make up a unit of the interval. -/
def scale (i : Interval) (k : Int) : Nat :=
  Nat.pow 2 i.unit.toNat * Nat.pow 10 (-k).toNat

theorem step_pos (i : Interval) (k : Int) : 0 < i.step k :=
  Nat.mul_pos (Nat.pow_pos (by decide)) (Nat.pow_pos (by decide))

theorem scale_pos (i : Interval) (k : Int) : 0 < i.scale k :=
  Nat.mul_pos (Nat.pow_pos (by decide)) (Nat.pow_pos (by decide))

/-- The point of the grid at the centre or below it. -/
def below (i : Interval) (k : Int) : Nat :=
  i.centre * i.scale k / i.step k

/-- A number lies above another, or on it where the ends belong to the interval. -/
def inside (i : Interval) (low high : Nat) : Bool :=
  low < high || i.closed && low == high

theorem gridPoint?_eq (i : Interval) (tie : Tie) (k : Int) :
    i.gridPoint? tie k =
      if i.centre * i.scale k % i.step k = 0 then some (i.below k)
      else
        match i.inside (i.low * i.scale k) (i.below k * i.step k),
          i.inside ((i.below k + 1) * i.step k) (i.high * i.scale k) with
        | false, false => none
        | true, false => some (i.below k)
        | false, true => some (i.below k + 1)
        | true, true =>
          match compare (2 * (i.centre * i.scale k % i.step k)) (i.step k), tie with
          | .lt, _ => some (i.below k)
          | .gt, _ => some (i.below k + 1)
          | .eq, .up => some (i.below k + 1)
          | .eq, .even => some (if i.below k % 2 = 0 then i.below k else i.below k + 1) := rfl

/-- What a grid gives is next to the centre; from below only if it is the centre or lies inside. -/
theorem gridPoint?_cases (h : i.gridPoint? tie k = some d) :
    d = i.below k + 1 ∨ d = i.below k ∧
      (i.centre * i.scale k % i.step k = 0 ∨
        i.inside (i.low * i.scale k) (i.below k * i.step k) = true) := by
  rw [gridPoint?_eq] at h
  split at h
  · rename_i hrest
    cases h
    exact .inr ⟨rfl, .inl hrest⟩
  · cases hlower : i.inside (i.low * i.scale k) (i.below k * i.step k) <;>
      cases hupper : i.inside ((i.below k + 1) * i.step k) (i.high * i.scale k) <;>
      simp only [hlower, hupper] at h
    · cases h
    · cases h
      exact .inl rfl
    · cases h
      exact .inr ⟨rfl, .inr rfl⟩
    · have hd : d = i.below k ∨ d = i.below k + 1 := by
        split at h
        · exact .inl (Option.some.inj h).symm
        · exact .inr (Option.some.inj h).symm
        · exact .inr (Option.some.inj h).symm
        · split at h
          · exact .inl (Option.some.inj h).symm
          · exact .inr (Option.some.inj h).symm
      rcases hd with hd | hd
      · exact .inr ⟨hd, .inr rfl⟩
      · exact .inl hd

theorem gridPoint?_pos (hlow : 0 < i.low) (hcentre : 0 < i.centre)
    (h : i.gridPoint? tie k = some d) : 0 < d := by
  rcases gridPoint?_cases h with rfl | ⟨rfl, hrest | hlower⟩
  · exact Nat.succ_pos _
  · -- the step divides the centre
    have hdvd : i.step k ∣ i.centre * i.scale k := Nat.dvd_of_mod_eq_zero hrest
    exact Nat.div_pos (Nat.le_of_dvd (Nat.mul_pos hcentre (i.scale_pos k)) hdvd) (i.step_pos k)
  · refine Nat.pos_of_ne_zero fun hzero => ?_
    have hpos := Nat.mul_pos hlow (i.scale_pos k)
    simp only [inside, hzero, Nat.zero_mul, Nat.not_lt_zero, decide_false, Bool.false_or,
      Bool.and_eq_true, beq_iff_eq] at hlower
    omega

theorem isSome_gridPoint? (h : i.step k ≤ (i.high - i.centre) * i.scale k)
    (hle : i.centre ≤ i.high) : (i.gridPoint? tie k).isSome := by
  rw [gridPoint?_eq]
  split
  · rfl
  · rename_i hrest
    have hupper : i.inside ((i.below k + 1) * i.step k) (i.high * i.scale k) = true := by
      have hdiv : i.step k * i.below k + i.centre * i.scale k % i.step k = i.centre * i.scale k :=
        Nat.div_add_mod _ _
      have hwidth : (i.high - i.centre) * i.scale k + i.centre * i.scale k = i.high * i.scale k := by
        rw [← Nat.add_mul, Nat.sub_add_cancel hle]
      have hnext : (i.below k + 1) * i.step k = i.step k * i.below k + i.step k := by
        rw [Nat.add_mul, Nat.one_mul, Nat.mul_comm]
      have hlt : (i.below k + 1) * i.step k < i.high * i.scale k := by omega
      simp [inside, hlt]
    rw [hupper]
    split
    · simp_all
    · rfl
    · rfl
    · split <;> rfl

/-- The search ends with digits if one of its grids has a point. -/
theorem search_digits_pos (hlow : 0 < i.low) (hcentre : 0 < i.centre) (tries : Nat)
    (h : (i.gridPoint? tie (k - tries)).isSome) : 0 < (i.search tie tries k).digits := by
  induction tries generalizing k with
  | zero =>
    obtain ⟨d, hd⟩ := Option.isSome_iff_exists.1 h
    have hk : i.gridPoint? tie k = some d := by simpa using hd
    rw [search, hk]
    exact gridPoint?_pos hlow hcentre hk
  | succ tries ih =>
    rw [search]
    split
    · rename_i hd
      exact gridPoint?_pos hlow hcentre hd
    · apply ih
      rwa [show k - 1 - (tries : Int) = k - (tries + 1 : Nat) by omega]

end Interval

/-! ## The grids of doubles -/

/-- At twenty powers of ten below a number of `bits` bits the grid is finer than half the distance of
doubles, if these are as far apart as they can be. -/
def fineAt (bits : Int) : Bool :=
  let k := bits * 30103 / 100000 + 1 - 20
  Nat.pow 10 k.toNat * Nat.pow 2 (55 - bits).toNat ≤
    2 * (Nat.pow 2 (bits - 55).toNat * Nat.pow 10 (-k).toNat)

theorem fineAt_of_bounds {bits : Int} (hlo : -1100 ≤ bits) (hhi : bits < 1100) :
    fineAt bits = true := by
  have hall : (List.range 2200).all (fun n => fineAt ((n : Int) - 1100)) = true := by decide +kernel
  have h := List.all_eq_true.1 hall (bits + 1100).toNat (by simp only [List.mem_range]; omega)
  rwa [show ((bits + 1100).toNat : Int) - 1100 = bits by omega] at h

/-- The shortest decimal of a positive double is not zero. -/
theorem shortest_digits_pos (tie : Tie) {m : Nat} {e : Int} (hm : 0 < m) (hm' : m < Nat.pow 2 53)
    (hlo : -1074 ≤ e) (hhi : e ≤ 971) : 0 < (shortest tie m e).digits := by
  have hlog : m.log2 < 53 := (Nat.log2_lt (by omega)).2 hm'
  have hlow : 0 < (Interval.around m e).low := by
    show 0 < if m = Nat.pow 2 52 then 4 * m - 1 else 4 * m - 2
    split <;> omega
  have hcentre : 0 < (Interval.around m e).centre := by
    show 0 < 4 * m
    omega
  apply Interval.search_digits_pos hlow hcentre
  refine Interval.isSome_gridPoint? ?_ (Nat.le_add_right _ _)
  have hfine : fineAt (m.log2 + 1 + e) = true := fineAt_of_bounds (by omega) (by omega)
  simp only [fineAt, decide_eq_true_eq] at hfine
  have hhalf : (Interval.around m e).high - (Interval.around m e).centre = 2 := by
    show 4 * m + 2 - 4 * m = 2
    omega
  rw [hhalf]
  -- the number has at most 53 bits, so its unit is no finer than the powers of two of `fineAt`
  have hunit : Nat.pow 2 (-(e - 2)).toNat ≤ Nat.pow 2 (55 - (m.log2 + 1 + e)).toNat :=
    Nat.pow_le_pow_right (by decide) (by omega)
  have hunit' : Nat.pow 2 (m.log2 + 1 + e - 55).toNat ≤ Nat.pow 2 (e - 2).toNat :=
    Nat.pow_le_pow_right (by decide) (by omega)
  calc
    _ ≤ _ := Nat.mul_le_mul_left _ hunit
    _ ≤ _ := hfine
    _ ≤ _ := Nat.mul_le_mul_left _ (Nat.mul_le_mul_right _ hunit')

end DerivedSeries.Decimal
