import DerivedSeries.Proofs.Merge.Merged
import DerivedSeries.Proofs.Merge.Transformed
import DerivedSeries.Proofs.OrderedMap
import DerivedSeries.Proofs.Ranking.Selection

/-!
# Locality

Series agree in a window if they are the same but for their samples outside it (`Series.AgreesIn`). The
window then shows the same of them (`Series.AgreesIn.view_eq`), and since the functions that merge or rank
look at their input through views only, they cannot tell inputs of such series apart
(`Function.evaluate_agreeing`). What a merge emits lies in the window, too.
-/

namespace DerivedSeries

/-! ## Series and inputs that agree in a window -/

/-- Two series have the same metadata and, at every time in a window, the same sample or none. -/
structure Series.AgreesIn (w : Window) (s r : Series) : Prop where
  metadata : s.toMetadata = r.toMetadata
  samples : ∀ t, w.contains t = true → s.samples.get? t = r.samples.get? t

/-- Two inputs are of the same shape, and their series agree in a window one by one. -/
def Input.AgreesIn (w : Window) : Input → Input → Prop :=
  List.Forall₂ (List.Forall₂ (Series.AgreesIn w))

namespace Series

variable {w : Window} {s r : Series}

/-- Series agree in a window if it shows the same of them. -/
theorem agreesIn_iff : AgreesIn w s r ↔ s.toMetadata = r.toMetadata ∧
    s.samples.filterKeys w.contains = r.samples.filterKeys w.contains := by
  constructor
  · rintro ⟨hmetadata, hsamples⟩
    refine ⟨hmetadata, OrderedMap.ext_get? fun t => ?_⟩
    rw [OrderedMap.get?_filterKeys, OrderedMap.get?_filterKeys]
    by_cases ht : w.contains t = true
    · rw [if_pos ht, if_pos ht, hsamples t ht]
    · rw [if_neg ht, if_neg ht]
  · rintro ⟨hmetadata, hfilter⟩
    refine ⟨hmetadata, fun t ht => ?_⟩
    have hget := congrArg (fun m => m.get? t) hfilter
    simpa only [OrderedMap.get?_filterKeys, ht, if_true] using hget

instance (w : Window) (s r : Series) : Decidable (s.AgreesIn w r) :=
  decidable_of_iff' _ agreesIn_iff

theorem AgreesIn.symm (h : AgreesIn w s r) : AgreesIn w r s where
  metadata := h.metadata.symm
  samples t ht := (h.samples t ht).symm

theorem AgreesIn.view_eq (h : AgreesIn w s r) (transform : Transform) :
    s.view w transform = r.view w transform := by
  unfold view
  rw [(agreesIn_iff.1 h).2]

end Series

namespace Input

variable {w : Window} {input other : Input}

theorem AgreesIn.symm (h : AgreesIn w input other) : AgreesIn w other input :=
  h.flip.imp fun _ _ hgroup => hgroup.flip.imp fun _ _ hs => hs.symm

theorem AgreesIn.series (h : AgreesIn w input other) :
    List.Forall₂ (Series.AgreesIn w) input.series other.series :=
  List.rel_flatten h

theorem AgreesIn.size_eq (h : AgreesIn w input other) : input.size = other.size :=
  h.series.length_eq

theorem AgreesIn.viewsOf_eq (h : AgreesIn w input other) :
    Combine.viewsOf w input = Combine.viewsOf w other := by
  have hseries := h.series
  unfold Combine.viewsOf
  generalize input.series = ss at hseries
  generalize other.series = rs at hseries
  induction hseries with
  | nil => rfl
  | cons hfirst _ ih => rw [List.map_cons, List.map_cons, hfirst.view_eq, ih]

end Input

namespace Combine

variable {σ : Type} {c : Config} {w : Window} {input other : Input}

/-! ## Merges of inputs that agree -/

theorem identities_agreeing (h : input.AgreesIn w other) (hw : w.start ≤ w.stop) :
    View.identities w input.series = View.identities w other.series := by
  rw [View.identities_of_le hw, View.identities_of_le hw]
  exact congrArg Except.ok h.viewsOf_eq

theorem all_agreeing (a : Aggregator σ) (h : input.AgreesIn w other) (hw : w.start ≤ w.stop) :
    all a c w input = all a c w other := by
  have hviews := identities_agreeing h hw
  cases h with
  | nil => rfl
  | cons hgroup hgroups =>
    simp only [all, List.isEmpty_cons, Bool.false_eq_true, if_false, hviews]
    cases hgroup with
    | nil => rfl
    | cons hfirst _ =>
      simp only [Input.first?, List.head?_cons, Option.bind_some, merge_congr a hfirst.metadata]

theorem smooth_agreeing (h : input.AgreesIn w other) (hw : w.start ≤ w.stop)
    (params : List String) : smooth c w input params = smooth c w other params := by
  have hviews := identities_agreeing h hw
  cases h with
  | nil => rfl
  | cons hgroup hgroups =>
    simp only [smooth, List.isEmpty_cons, Bool.false_eq_true, if_false, hviews]
    cases hgroup with
    | nil => rfl
    | @cons s r _ _ hfirst _ =>
      have hmerged (span : Span) (views : List View) :
          merged (.movingAverage span) c s views = merged (.movingAverage span) c r views :=
        merged_congr _ hfirst.metadata rfl
      simp only [Input.first?, List.head?_cons, Option.bind_some, hmerged]

/-- Where there are operands, an input that agrees has operands that agree. -/
theorem exists_operands_agreeing {x y : Series} (h : input.AgreesIn w other)
    (hops : operands input = .ok (x, y)) :
    ∃ x' y', operands other = .ok (x', y') ∧ x.AgreesIn w x' ∧ y.AgreesIn w y' := by
  rcases operands_eq_ok_iff.1 hops with rfl | rfl
  · rcases h with _ | ⟨_ | ⟨hx, _ | _⟩, _ | ⟨_ | ⟨hy, _ | _⟩, _ | _⟩⟩
    exact ⟨_, _, rfl, hx, hy⟩
  · rcases h with _ | ⟨_ | ⟨hx, _ | ⟨hy, _ | _⟩⟩, _ | _⟩
    exact ⟨_, _, rfl, hx, hy⟩

/-- The fault of an input without operands only depends on its shape. -/
theorem eq_of_operands_eq_error {e : Error} (h : operands input = .error e) :
    e = if input.length = 0 then .noInput else .operandShape input.length input.size := by
  unfold operands at h
  split at h
  · cases h
    rfl
  · cases h
  · cases h
  · rename_i hne _ _
    cases h
    rw [if_neg]
    exact fun hlength => hne (List.eq_nil_of_length_eq_zero hlength)

theorem operands_agreeing_of_error {e : Error} (h : input.AgreesIn w other)
    (hops : operands input = .error e) : operands other = .error e := by
  cases hother : operands other with
  | ok ops =>
    obtain ⟨x, y, hinput, -⟩ := exists_operands_agreeing h.symm hother
    cases hops.symm.trans hinput
  | error d =>
    rw [eq_of_operands_eq_error hops, eq_of_operands_eq_error hother, h.length_eq, h.size_eq]

theorem pair_agreeing (a : Aggregator σ) (transform : Transform) (h : input.AgreesIn w other)
    (hw : w.start ≤ w.stop) : pair a transform c w input = pair a transform c w other := by
  unfold pair
  cases hops : operands input with
  | error e => rw [operands_agreeing_of_error h hops]
  | ok ops =>
    obtain ⟨x, y⟩ := ops
    obtain ⟨x', y', hother, hx, hy⟩ := exists_operands_agreeing h hops
    have hview : ∀ {s r : Series}, s.AgreesIn w r → ∀ t,
        View.ofSeries w t s = View.ofSeries w t r := by
      intro s r hs t
      rw [View.ofSeries_of_le hw, View.ofSeries_of_le hw, hs.view_eq]
    rw [hother]
    simp only [Evaluation.ofExcept_ok_bind, hview hx, hview hy, merge_congr a hx.metadata]

/-! ## What a merge emits -/

/-- Every point of every series lies in a window. -/
def Emits (w : Window) (out : List Series) : Prop :=
  ∀ s ∈ out, ∀ p ∈ s.points, w.contains p.timestamp = true

theorem emits_merged (a : Aggregator σ) (first : Series) {views : List View}
    (hviews : ∀ v ∈ views, ∀ t ∈ v.times, w.contains t = true) :
    Emits w [merged a c first views] := by
  intro s hs p hp
  rw [List.mem_singleton.1 hs, points_merged] at hp
  obtain ⟨v, hv, ht⟩ := Merge.mem_timeline.1 (Merge.timestamp_mem_timeline a hp)
  exact hviews v hv _ ht

theorem emits_combined (a : Aggregator σ) (c : Config) (w : Window) (input : Input) :
    Emits w [combined a c w input] := by
  unfold combined
  split
  · intro s hs p hp
    rw [List.mem_singleton.1 hs] at hp
    cases hp
  · apply emits_merged
    intro v hv t ht
    obtain ⟨s, -, rfl⟩ := List.mem_map.1 hv
    exact Series.contains_of_mem_times ht

theorem emits_all (a : Aggregator σ) (hw : w.start ≤ w.stop) {out : List Series}
    (h : (all a c w input).result = .ok out) : Emits w out := by
  by_cases hne : input = []
  · subst hne
    cases h
  · rw [result_all_of_ne_nil a hne hw] at h
    cases h
    exact emits_combined a c w input

theorem emits_smooth (hw : w.start ≤ w.stop) {params : List String} {out : List Series}
    (h : (smooth c w input params).result = .ok out) : Emits w out := by
  by_cases hne : input = []
  · subst hne
    cases h
    nofun
  cases hspan : Span.ofParams params with
  | error e =>
    rw [result_smooth_of_error hne hspan] at h
    cases h
  | ok span =>
    rw [result_smooth_of_ne_nil hne hspan hw] at h
    cases h
    exact emits_combined _ c w input

theorem emits_pair (a : Aggregator σ) (transform : Transform) (hw : w.start ≤ w.stop)
    {out : List Series} (h : (pair a transform c w input).result = .ok out) : Emits w out := by
  cases hops : operands input with
  | error e =>
    rw [result_pair_of_error a transform hops] at h
    cases h
  | ok ops =>
    obtain ⟨x, y⟩ := ops
    rw [result_pair a transform hops hw] at h
    cases h
    apply emits_merged
    intro v hv t ht
    simp only [List.mem_cons, List.not_mem_nil, or_false] at hv
    rcases hv with rfl | rfl
    · exact Series.contains_of_mem_times ht
    · exact Series.contains_of_mem_times ht

end Combine

/-! ## Rankings of inputs that agree -/

namespace Select

variable {criterion : Criterion} {w : Window} {input other : Input}

/-- The value of a series is read off its view. -/
theorem valueAt_eq_views (ss : List Series) (i : Nat) :
    valueAt criterion w ss i =
      (ss.map (Series.view w .identity))[i]?.bind fun v => (criterion.scan v).resolve := by
  rw [List.getElem?_map]
  unfold valueAt
  cases ss[i]? <;> rfl

theorem valueAt_agreeing (h : input.AgreesIn w other) :
    valueAt criterion w input.series = valueAt criterion w other.series := by
  funext i
  have hviews : input.series.map (Series.view w .identity) =
      other.series.map (Series.view w .identity) := h.viewsOf_eq
  rw [valueAt_eq_views, valueAt_eq_views, hviews]

/-- A selection of `k` series takes those at the top of a ranking of its input. -/
structure TakesTop (criterion : Criterion) (c : Config) (w : Window) (params : List String) (k : Nat)
    (input : Input) (ranking : List RankEntry) : Prop where
  table : (table w criterion input.series).result = .ok ranking
  output : ∃ out, (highest criterion c w input params).result = .ok out ∧
    out.map some = (ranking.take k).map fun e => input.series[e.index]?

variable {params : List String} {k : Nat}

theorem takesTop_order (hw : w.start ≤ w.stop) (hk : count params = .ok k) (hlt : k < input.size)
    (c : Config) :
    TakesTop criterion c w params k input
      ((Ranking.order (valueAt criterion w input.series) input.size).map fun i =>
        ⟨valueAt criterion w input.series i, i⟩) where
  table := result_table hw criterion input.series
  output := by
    obtain ⟨out, hresult, hout⟩ := exists_highest criterion hk hlt c hw
    refine ⟨out, hresult, ?_⟩
    rw [hout, ← List.map_take, List.map_map]
    rfl

/-- Selections from inputs that agree take the same positions, in the same order. -/
theorem exists_takesTop (h : input.AgreesIn w other) (hw : w.start ≤ w.stop)
    (hk : count params = .ok k) (hlt : k < input.size) (criterion : Criterion) (c : Config) :
    ∃ ranking, (ranking.map RankEntry.index).Perm (List.range input.size) ∧
      TakesTop criterion c w params k input ranking ∧
      TakesTop criterion c w params k other ranking := by
  refine ⟨_, ?_, takesTop_order hw hk hlt c, ?_⟩
  · rw [List.map_map]
    exact (List.map_id _).symm ▸ Ranking.order_perm _ _
  · rw [valueAt_agreeing h, h.size_eq]
    exact takesTop_order hw hk (h.size_eq ▸ hlt) c

end Select

namespace Function

variable {w : Window} {input other : Input}

/-- Samples outside the window have no influence: on inputs that agree in it, merges have one result, with
points in the window only, and selections take the same positions, those at the top of one ranking. -/
theorem evaluate_agreeing {startMs endMs : Int64} (hw : Window.between startMs endMs = .ok w)
    (h : input.AgreesIn w other) (c : Config) (params : List String) :
    (∀ f ∈ [sum, multiply, difference, divide, movingAverage],
      f.evaluate c w input params = f.evaluate c w other params ∧
      ∀ out, (f.evaluate c w input params).result = .ok out →
        ∀ s ∈ out, ∀ p ∈ s.points, w.contains p.timestamp = true) ∧
    ∀ k, Select.count params = .ok k → k < input.size → ∀ criterion,
      ∃ ranking, (ranking.map RankEntry.index).Perm (List.range input.size) ∧
        Select.TakesTop criterion c w params k input ranking ∧
        Select.TakesTop criterion c w params k other ranking := by
  have hle : w.start ≤ w.stop := Window.start_le_stop hw
  refine ⟨fun f hf => ?_, fun k hk hlt criterion => Select.exists_takesTop h hle hk hlt criterion c⟩
  simp only [List.mem_cons, List.not_mem_nil, or_false] at hf
  rcases hf with rfl | rfl | rfl | rfl | rfl
  · exact ⟨Combine.all_agreeing .sum h hle, fun out => Combine.emits_all .sum hle⟩
  · exact ⟨Combine.all_agreeing .multiply h hle, fun out => Combine.emits_all .multiply hle⟩
  · exact ⟨Combine.pair_agreeing .sum .negate h hle, fun out => Combine.emits_pair .sum .negate hle⟩
  · exact ⟨Combine.pair_agreeing .multiply .reciprocal h hle,
      fun out => Combine.emits_pair .multiply .reciprocal hle⟩
  · exact ⟨Combine.smooth_agreeing h hle params, fun out => Combine.emits_smooth hle⟩

/-- Three series with few samples from second 2 up to second 9. -/
def nearInput : Input :=
  [[({ metric := "a" } : Series).insertAll [⟨2, .int 5⟩, ⟨8, .float 4⟩]],
    [({ metric := "b" } : Series).insertAll [⟨3, .int 1⟩], { metric := "c" }]]

/-- The same with other samples right before second 2 and from second 9 on. -/
def farInput : Input :=
  [[({ metric := "a" } : Series).insertAll [⟨1, .int 9⟩, ⟨2, .int 5⟩, ⟨8, .float 4⟩]],
    [({ metric := "b" } : Series).insertAll [⟨3, .int 1⟩, ⟨9, .int 100⟩],
      ({ metric := "c" } : Series).insertAll [⟨-40, .float 7⟩, ⟨10, .int 100⟩]]]

theorem evaluate_agreeing_outside :
    sum.evaluate {} ⟨2000, 9999⟩ nearInput ["2"] = sum.evaluate {} ⟨2000, 9999⟩ farInput ["2"] ∧
      ∃ ranking, Select.TakesTop .current {} ⟨2000, 9999⟩ ["2"] 2 nearInput ranking ∧
        Select.TakesTop .current {} ⟨2000, 9999⟩ ["2"] 2 farInput ranking := by
  have hw : Window.between 2000 9999 = .ok ⟨2000, 9999⟩ := rfl
  have hagree : nearInput.AgreesIn ⟨2000, 9999⟩ farInput :=
    .cons (.cons (by decide) .nil) (.cons (.cons (by decide) (.cons (by decide) .nil)) .nil)
  obtain ⟨hmerges, hselects⟩ := evaluate_agreeing hw hagree {} ["2"]
  obtain ⟨ranking, -, htop⟩ := hselects 2 rfl (by decide) .current
  exact ⟨(hmerges sum (by decide)).1, ranking, htop⟩

end Function
end DerivedSeries
