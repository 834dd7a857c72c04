import DerivedSeries.Function
import DerivedSeries.Proofs.Combining.Integral

/-!
# Reordered inputs

A merge visits the same times whatever the order of its views, and at each of them the views contribute
the same samples in another order (`Merge.timeline_perm`, `Merge.contributionsAt_perm`). So sums and
products of integers that are small together depend neither on the order of the series nor on their
groups, which only decide the metadata (`Merge.points_perm`).
-/

namespace DerivedSeries

namespace Merge

variable {fill : Option Interpolation} {views others : List View}

theorem timeline_perm (h : views.Perm others) : timeline views = timeline others := by
  refine (pairwise_timeline views).eq_of_mem_iff (pairwise_timeline others) fun t => ?_
  simp only [mem_timeline, h.mem_iff]

theorem contributionsAt_perm (h : views.Perm others) (t : Timestamp) :
    (contributionsAt fill views t).Perm (contributionsAt fill others t) :=
  h.filterMap _

variable {op : Int → Int → Int} {value : List Int → Int} {size : List Int → Nat}

/-- Integers that are small together are combined to the same points in every order of the views. -/
theorem points_perm (h : Exact op value size) (opFloat : Float → Float → Float) (name : String)
    (hperm : views.Perm others) (hint : ∀ v ∈ views, v.Integral)
    (hsize : ∀ t ∈ timeline views, size (integersAt fill views t) ≤ Int64.maxValue.toInt) :
    points (.pure name (Aggregator.fold op opFloat)) fill views =
      points (.pure name (Aggregator.fold op opFloat)) fill others := by
  have hothers : ∀ v ∈ others, v.Integral := fun v hv => hint v (hperm.mem_iff.2 hv)
  rw [points_pure, points_pure, ← timeline_perm hperm]
  refine List.filterMap_congr fun t ht => ?_
  have hwords : (wordsAt fill views t).Perm (wordsAt fill others t) :=
    (contributionsAt_perm hperm t).filterMap _
  rw [contributionsAt_eq_words hint, contributionsAt_eq_words hothers,
    Aggregator.fold_perm h opFloat hwords (hsize t ht)]

end Merge

/-! ## Inputs -/

theorem Input.exists_of_first? {input : Input} {x : Series} (h : input.first? = some x) :
    ∃ group groups, input = (x :: group) :: groups := by
  obtain ⟨group, hgroup, hx⟩ := Option.bind_eq_some_iff.1 h
  obtain ⟨groups, rfl⟩ := List.head?_eq_some_iff.1 hgroup
  obtain ⟨group, rfl⟩ := List.head?_eq_some_iff.1 hx
  exact ⟨group, groups, rfl⟩

/-- Series that show the same points have the same samples. -/
theorem Series.samples_eq_of_points {s r : Series} (h : s.points = r.points) :
    s.samples = r.samples := by
  apply OrderedMap.ext
  refine List.map_injective_iff.2 ?_ h
  intro a b hab
  cases a
  cases b
  cases hab
  rfl

namespace Combine

variable {w : Window} {input other : Input} {x y : Series}
  {op : Int → Int → Int} {value : List Int → Int} {size : List Int → Nat}

theorem all_reordered (h : Exact op value size) (opFloat : Float → Float → Float) (name : String)
    (hx : input.first? = some x) (hy : other.first? = some y)
    (hperm : input.series.Perm other.series) (hint : ∀ s ∈ input.series, s.IntegralIn w)
    (c : Config) (hw : w.start ≤ w.stop) (hsmall : input.SmallIn size c.fill w) :
    ∃ s r, (all (.pure name (Aggregator.fold op opFloat)) c w input).result = .ok [s] ∧
      (all (.pure name (Aggregator.fold op opFloat)) c w other).result = .ok [r] ∧
      s.samples = r.samples ∧ Merge.Combined value c.fill (viewsOf w input) s.points := by
  obtain ⟨group, groups, rfl⟩ := Input.exists_of_first? hx
  obtain ⟨others, rest, rfl⟩ := Input.exists_of_first? hy
  have hsize := fun t ht => hsmall.size_le (t := t) ht
  refine ⟨_, _, result_all _ hw, result_all _ hw, ?_, ?_⟩
  · apply Series.samples_eq_of_points
    rw [points_merged, points_merged]
    exact Merge.points_perm h opFloat name (hperm.map _) (integral_viewsOf hint) hsize
  · rw [points_merged]
    exact Merge.combined_points h opFloat name (integral_viewsOf hint) hsize

theorem all_inverted {σ : Type} (a : Aggregator σ) (c : Config) (hx : input.first? = some x)
    (hw : w.stop < w.start) :
    ∃ e, (all a c w input).result = .error e ∧ e.kind = .invalidArgument := by
  obtain ⟨group, groups, rfl⟩ := Input.exists_of_first? hx
  exact ⟨_, result_all_inverted _ hw, rfl⟩

end Combine

namespace Function

variable {w : Window} {input other : Input} {x y : Series}

/-- Two inputs that hold the same series of integers in another order and in other groups have the same
sum and the same product, sample by sample and exactly, wherever their integers are small together. A
window that is inverted in seconds is refused for either. -/
theorem evaluate_reordered (hx : input.first? = some x) (hy : other.first? = some y)
    (hperm : input.series.Perm other.series) (hint : ∀ s ∈ input.series, s.IntegralIn w)
    (c : Config) (params otherParams : List String) :
    (w.start ≤ w.stop →
      (input.SmallIn absSum c.fill w →
        ∃ s r, (sum.evaluate c w input params).result = .ok [s] ∧
          (sum.evaluate c w other otherParams).result = .ok [r] ∧
          s.samples = r.samples ∧
          Merge.Combined List.sum c.fill (Combine.viewsOf w input) s.points) ∧
      (input.SmallIn absProduct c.fill w →
        ∃ s r, (multiply.evaluate c w input params).result = .ok [s] ∧
          (multiply.evaluate c w other otherParams).result = .ok [r] ∧
          s.samples = r.samples ∧
          Merge.Combined List.prod c.fill (Combine.viewsOf w input) s.points)) ∧
    (w.stop < w.start → ∀ f ∈ [sum, multiply],
      (∃ e, (f.evaluate c w input params).result = .error e ∧ e.kind = .invalidArgument) ∧
      ∃ e, (f.evaluate c w other otherParams).result = .error e ∧ e.kind = .invalidArgument) := by
  refine ⟨fun hw => ⟨fun hsmall => ?_, fun hsmall => ?_⟩, fun hw f hf => ?_⟩
  · exact Combine.all_reordered exact_sum (· + ·) "sum" hx hy hperm hint c hw hsmall
  · exact Combine.all_reordered exact_product (· * ·) "multiply" hx hy hperm hint c hw hsmall
  · simp only [List.mem_cons, List.not_mem_nil, or_false] at hf
    rcases hf with rfl | rfl
    · exact ⟨Combine.all_inverted .sum c hx hw, Combine.all_inverted .sum c hy hw⟩
    · exact ⟨Combine.all_inverted .multiply c hx hw, Combine.all_inverted .multiply c hy hw⟩

/-- Three series of integers that share few times, one of them with an integer of 62 bits. -/
def scatteredInput : Input :=
  [[({ metric := "a" } : Series).insertAll [⟨0, .int 4611686018427387904⟩, ⟨10, .int (-6)⟩],
      ({ metric := "b" } : Series).insertAll [⟨4, .int (-1)⟩, ⟨10, .int 7⟩]],
    [({ metric := "c" } : Series).insertAll [⟨0, .int 1⟩, ⟨7, .int 0⟩]]]

/-- The last series first, and every series a group of its own. -/
def regroupedInput : Input :=
  scatteredInput.series.reverse.map ([·])

theorem evaluate_reordered_scattered :
    ∃ s r p q, (sum.evaluate {} ⟨0, 20000⟩ scatteredInput []).result = .ok [s] ∧
      (sum.evaluate {} ⟨0, 20000⟩ regroupedInput []).result = .ok [r] ∧
      (multiply.evaluate {} ⟨0, 20000⟩ scatteredInput []).result = .ok [p] ∧
      (multiply.evaluate {} ⟨0, 20000⟩ regroupedInput []).result = .ok [q] ∧
      s.samples = r.samples ∧ p.samples = q.samples ∧ ⟨10, .int 1⟩ ∈ s.points ∧
      ⟨10, .int (-42)⟩ ∈ p.points := by
  have hperm : scatteredInput.series.Perm regroupedInput.series :=
    (List.reverse_perm _).symm
  have hint : ∀ s ∈ scatteredInput.series, s.IntegralIn ⟨0, 20000⟩ := by decide
  obtain ⟨hsum, hproduct⟩ :=
    (evaluate_reordered (x := scatteredInput[0][0]) (y := scatteredInput[1][0]) rfl rfl hperm hint {}
      [] []).1 (by decide)
  obtain ⟨s, r, hs, hr, hsr, hsums⟩ := hsum (by decide)
  obtain ⟨p, q, hp, hq, hpq, hproducts⟩ := hproduct (by decide)
  have hten : 10 ∈ Merge.timeline (Combine.viewsOf ⟨0, 20000⟩ scatteredInput) :=
    Combine.mem_timeline_viewsOf.2 ⟨scatteredInput[0][1], by decide, ⟨10, .int 7⟩, by decide, rfl⟩
  exact ⟨s, r, p, q, hs, hr, hp, hq, hsr, hpq, hsums.mem hten (by decide),
    hproducts.mem hten (by decide)⟩

end Function
end DerivedSeries
