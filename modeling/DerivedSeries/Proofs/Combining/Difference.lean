import DerivedSeries.Function
import DerivedSeries.Proofs.Combining.Sum

/-!
# Differences of integer series

A difference sums one view with the negation of another. For integers under an odd policy it is the
pointwise difference of what the two series count for (`Difference`), as negated samples count for
negated amounts (`Series.Amounts.negate`). So adding the second series again gives the first one
back wherever the difference is an integer (`mem_sum_difference`).
-/

namespace DerivedSeries

/-- Points are the pointwise difference of two series in a window. -/
structure Difference (fill : Option Interpolation) (w : Window) (x y : Series)
    (ps : List Point) : Prop where
  ascending : ps.Pairwise fun p q => p.timestamp < q.timestamp
  times : ∀ t, (∃ p ∈ ps, p.timestamp = t) ↔ ∃ q ∈ x.within w ++ y.within w, q.timestamp = t
  values : ∀ p ∈ ps, ∃ m n, x.Amounts fill w p.timestamp m ∧ y.Amounts fill w p.timestamp n ∧
    p.value.Shows (m - n)

section
variable {fill : Option Interpolation} {w : Window} {x y : Series}

theorem mem_timeline_views (x y : Series) (transform : Transform) (t : Timestamp) :
    t ∈ Merge.timeline [x.view w .identity, y.view w transform] ↔
      ∃ q ∈ x.within w ++ y.within w, q.timestamp = t := by
  simp only [Merge.mem_timeline, List.mem_cons, List.not_mem_nil, or_false, exists_eq_left,
    Series.times_view, List.mem_map, List.mem_append, or_and_right, exists_or]

/-- A negated series counts for the negated amounts. -/
theorem Series.Amounts.negate (hy : y.IntegralIn w)
    (hmin : ∀ p ∈ y.within w, p.value ≠ .int Int64.minValue) (hodd : ∀ policy ∈ fill, policy.Odd)
    {t : Timestamp} {n : Int} (h : y.Amounts fill w t n) :
    CountsFor ((y.view w .negate).contribution? fill t) (-n) := by
  have hneg := hy.negatable hmin
  have hview : y.view w .negate = (y.view w .identity).map Sample.neg := y.view_eq_map w .negate
  rw [hview, hneg.contribution?_neg hodd]
  exact h.neg fun s hs => hneg.contribution? hodd hs

theorem difference_points (hx : x.IntegralIn w) (hy : y.IntegralIn w)
    (hmin : ∀ p ∈ y.within w, p.value ≠ .int Int64.minValue)
    (hodd : ∀ policy ∈ fill, policy.Odd) :
    Difference fill w x y (Merge.points .sum fill [x.view w .identity, y.view w .negate]) where
  ascending := Merge.pairwise_points .sum fill _
  times t := (Merge.exists_mem_sum fill).trans (mem_timeline_views x y .negate t)
  values p hp := by
    obtain ⟨m, hm⟩ := hx.exists_amounts p.timestamp
    obtain ⟨n, hn⟩ := hy.exists_amounts p.timestamp
    exact ⟨m, n, hm, hn, Merge.shows_sum hp hm (hn.negate hy hmin hodd)⟩

/-- Where a difference is an integer, the sum with what was subtracted is the first operand. -/
theorem mem_sum_difference (hy : y.IntegralIn w)
    (hmin : ∀ p ∈ y.within w, p.value ≠ .int Int64.minValue)
    (hodd : ∀ policy ∈ fill, policy.Odd) {d : Series}
    (hd : d.points = Merge.points .sum fill [x.view w .identity, y.view w .negate])
    {t : Timestamp} {u v : Int64} {n : Int} (hx : ⟨t, .int u⟩ ∈ x.within w)
    (hn : y.Amounts fill w t n) (hv : v.toInt = u.toInt - n) :
    ⟨t, .int u⟩ ∈ Merge.points .sum fill [d.view w .identity, y.view w .identity] := by
  have hdiff : ⟨t, .int v⟩ ∈ d.points := by
    rw [hd]
    exact Merge.mem_sum
      ((mem_timeline_views x y .negate t).2 ⟨_, List.mem_append_left _ hx, rfl⟩)
      (Series.amounts_of_mem hx rfl) (hn.negate hy hmin hodd) (by omega)
  have hin : ⟨t, .int v⟩ ∈ d.within w := List.mem_filter.2 ⟨hdiff, (List.mem_filter.1 hx).2⟩
  exact Merge.mem_sum
    ((mem_timeline_views d y .identity t).2 ⟨_, List.mem_append_left _ hin, rfl⟩)
    (Series.amounts_of_mem hin rfl) hn (by omega)

end

theorem Config.odd_of_mem_fill {c : Config} (h : c.skipMissing = true ∨ c.interpolation.Odd) :
    ∀ policy ∈ c.fill, policy.Odd := by
  intro policy hpolicy
  unfold Config.fill at hpolicy
  split at hpolicy
  · cases hpolicy
  · rename_i hskip
    cases hpolicy
    exact h.resolve_left hskip

namespace Function

variable {w : Window} {input : Input} {x y : Series} {c : Config}

/-- Of integer series, none of the second being the least integer, the difference is pointwise. -/
theorem evaluate_difference (hops : Combine.operands input = .ok (x, y)) (hx : x.IntegralIn w)
    (hy : y.IntegralIn w) (hmin : ∀ p ∈ y.within w, p.value ≠ .int Int64.minValue)
    (hc : c.skipMissing = true ∨ c.interpolation.Odd) (params : List String) :
    (w.start ≤ w.stop →
      ∃ d, (difference.evaluate c w input params).result = .ok [d] ∧
        d.toMetadata = x.toMetadata ∧ Difference c.fill w x y d.points) ∧
    (w.stop < w.start →
      ∃ e, (difference.evaluate c w input params).result = .error e ∧
        e.kind = .invalidArgument) := by
  refine ⟨fun h => ⟨_, Combine.result_pair .sum .negate hops h, Combine.toMetadata_merged _ _, ?_⟩,
    fun h => ⟨_, Combine.result_pair_inverted .sum .negate hops h, rfl⟩⟩
  rw [Combine.points_merged]
  exact difference_points hx hy hmin (Config.odd_of_mem_fill hc)

/-- Integers that share no time with those of `unalignedSubtrahend`, one of them the greatest. -/
def unalignedMinuend : Series :=
  ({ metric := "x" } : Series).insertAll
    [⟨0, .int 5⟩, ⟨7, .int Int64.maxValue⟩, ⟨10, .int (-3)⟩]

def unalignedSubtrahend : Series :=
  ({ metric := "y" } : Series).insertAll [⟨3, .int 8⟩, ⟨8, .int (-5)⟩, ⟨12, .int 2⟩]

theorem evaluate_difference_unaligned :
    unalignedMinuend.IntegralIn ⟨0, 20000⟩ ∧ unalignedSubtrahend.IntegralIn ⟨0, 20000⟩ ∧
      ∃ d, (difference.evaluate {} ⟨0, 20000⟩ [[unalignedMinuend], [unalignedSubtrahend]] []).result
          = .ok [d] ∧ d.metric = "x" ∧
        Difference (some .lerp) ⟨0, 20000⟩ unalignedMinuend unalignedSubtrahend d.points := by
  have hops : Combine.operands [[unalignedMinuend], [unalignedSubtrahend]] =
      .ok (unalignedMinuend, unalignedSubtrahend) := rfl
  have hx : unalignedMinuend.IntegralIn ⟨0, 20000⟩ := by decide
  have hy : unalignedSubtrahend.IntegralIn ⟨0, 20000⟩ := by decide
  obtain ⟨d, hd, hmeta, hdiff⟩ :=
    (evaluate_difference (c := {}) hops hx hy (by decide) (.inr (.inl rfl)) []).1 (by decide)
  exact ⟨hx, hy, d, hd, congrArg Metadata.metric hmeta, hdiff⟩

/-- Adding what was subtracted restores the samples of the first operand, wherever their difference
is an integer. -/
theorem evaluate_sum_of_difference (hops : Combine.operands input = .ok (x, y))
    (hx : x.IntegralIn w) (hy : y.IntegralIn w)
    (hmin : ∀ p ∈ y.within w, p.value ≠ .int Int64.minValue)
    (hc : c.skipMissing = true ∨ c.interpolation.Odd) (params sumParams : List String) :
    (w.start ≤ w.stop →
      ∃ d, (difference.evaluate c w input params).result = .ok [d] ∧
        ∀ again, Combine.operands again = .ok (d, y) →
          ∃ s, (sum.evaluate c w again sumParams).result = .ok [s] ∧
            ∀ p ∈ x.within w,
              (∀ u n, p.value = .int u → y.Amounts c.fill w p.timestamp n →
                ∃ v : Int64, v.toInt = u.toInt - n) →
              p ∈ s.points) ∧
    (w.stop < w.start →
      x.within w = [] ∧ ∃ e, (difference.evaluate c w input params).result = .error e ∧
        e.kind = .invalidArgument) := by
  have hodd := Config.odd_of_mem_fill hc
  refine ⟨fun h => ⟨_, Combine.result_pair .sum .negate hops h, fun again hagain =>
    ⟨_, Combine.result_all_of_operands .sum hagain h, fun p hp hfit => ?_⟩⟩,
    fun h => ⟨Series.within_of_lt h x, _, Combine.result_pair_inverted .sum .negate hops h, rfl⟩⟩
  obtain ⟨u, hu⟩ := Sample.isInt_iff.1 (hx p hp)
  obtain ⟨n, hn⟩ := hy.exists_amounts p.timestamp
  obtain ⟨v, hv⟩ := hfit u n hu hn
  obtain ⟨t, s⟩ := p
  cases hu
  rw [Combine.points_merged]
  exact mem_sum_difference hy hmin hodd (Combine.points_merged _ _) hp hn hv

/-- At time 10 the subtrahend counts for its estimate, -2. -/
theorem evaluate_sum_of_difference_unaligned :
    ∃ d s, (difference.evaluate {} ⟨0, 20000⟩ [[unalignedMinuend], [unalignedSubtrahend]] []).result
        = .ok [d] ∧
      (sum.evaluate {} ⟨0, 20000⟩ [[d], [unalignedSubtrahend]] []).result = .ok [s] ∧
      ⟨10, .int (-3)⟩ ∈ s.points := by
  have hops : Combine.operands [[unalignedMinuend], [unalignedSubtrahend]] =
      .ok (unalignedMinuend, unalignedSubtrahend) := rfl
  have hx : unalignedMinuend.IntegralIn ⟨0, 20000⟩ := by decide
  have hy : unalignedSubtrahend.IntegralIn ⟨0, 20000⟩ := by decide
  have hestimate : (unalignedSubtrahend.view ⟨0, 20000⟩ .identity).contribution?
      (Config.fill {}) 10 = some (.int (-2)) := rfl
  obtain ⟨d, hd, hback⟩ :=
    (evaluate_sum_of_difference (c := {}) hops hx hy (by decide) (.inr (.inl rfl)) [] []).1
      (by decide)
  obtain ⟨s, hs, hrestored⟩ := hback [[d], [unalignedSubtrahend]] rfl
  refine ⟨d, s, hd, hs, hrestored ⟨10, .int (-3)⟩ (by decide) fun u n hu hn => ?_⟩
  cases hu
  unfold Series.Amounts at hn
  rw [hestimate] at hn
  cases hn
  exact ⟨-1, rfl⟩

end Function
end DerivedSeries
