import DerivedSeries.Proofs.Combining.Integral
import DerivedSeries.Proofs.Merge.Split
import DerivedSeries.Proofs.Registry

/-!
# Nested sums and products

Where missing samples are skipped, a merged series shows at each time what its aggregator makes of the
samples there, and nothing at other times (`Combine.sampleAt?_combined`). Merging the merges of groups
therefore combines at each time the combinations of the groups that have samples there
(`Combine.contributionsAt_partials`). For integers that are small together this is the combination of
all of them, so that sums and products of groups nest (`Registry.nests_evaluate`).
-/

namespace DerivedSeries

namespace View

theorem sampleAt?_eq_some_iff {v : View} {t : Timestamp} {s : Sample} :
    v.sampleAt? t = some s ↔ ⟨t, s⟩ ∈ v.points :=
  ⟨mem_points_of_sampleAt?, sampleAt?_of_mem⟩

end View

namespace Merge

variable {views others : List View} {t : Timestamp}

theorem contributionsAt_none (views : List View) (t : Timestamp) :
    contributionsAt none views t = views.filterMap fun v => v.sampleAt? t :=
  List.filterMap_congr fun v _ => v.contribution?_none t

/-- Without estimates there are contributions at the times of the timeline only. -/
theorem mem_timeline_iff_contributionsAt_none :
    t ∈ timeline views ↔ contributionsAt none views t ≠ [] := by
  refine ⟨contributionsAt_ne_nil, fun hne => ?_⟩
  obtain ⟨s, hs⟩ := List.exists_mem_of_ne_nil _ hne
  rw [contributionsAt_none] at hs
  obtain ⟨v, hv, hs⟩ := List.mem_filterMap.1 hs
  exact mem_timeline.2 ⟨v, hv, View.mem_times.2 ⟨_, View.mem_points_of_sampleAt? hs, rfl⟩⟩

/-- Without estimates, views make the same points if the samples of any one time are answered alike. -/
theorem points_none_congr {f : List Sample → Option Sample} (hf : ∀ ss, f ss = none ↔ ss = [])
    (h : ∀ t, f (contributionsAt none views t) = f (contributionsAt none others t)) (name : String) :
    points (.pure name f) none views = points (.pure name f) none others := by
  have htimeline : timeline views = timeline others := by
    refine (pairwise_timeline views).eq_of_mem_iff (pairwise_timeline others) fun t => ?_
    rw [mem_timeline_iff_contributionsAt_none, mem_timeline_iff_contributionsAt_none, Ne, Ne, ← hf,
      ← hf, h]
  rw [points_pure, points_pure, htimeline]
  exact List.filterMap_congr fun t _ => by rw [h]

end Merge

namespace Combine

variable {c : Config} {w : Window} {group : List Series} {groups : Input}

/-! ## The merge of a group -/

theorem points_combined {σ : Type} (a : Aggregator σ) (hgroup : group ≠ []) :
    (combined a c w [group]).points = Merge.points a c.fill (viewsOf w [group]) := by
  obtain ⟨first, rest, rfl⟩ := List.exists_cons_of_ne_nil hgroup
  exact points_merged a _

theorem contains_of_mem_timeline {input : Input} {t : Timestamp}
    (h : t ∈ Merge.timeline (viewsOf w input)) : w.contains t = true := by
  obtain ⟨v, hv, ht⟩ := Merge.mem_timeline.1 h
  obtain ⟨s, -, rfl⟩ := List.mem_map.1 hv
  exact Series.contains_of_mem_times ht

/-- The merge of a group shows at a time what the samples of the group there combine to. -/
theorem sampleAt?_combined {f : List Sample → Option Sample} (hf : f [] = none) (name : String)
    (hfill : c.fill = none) (hgroup : group ≠ []) (t : Timestamp) :
    ((combined (.pure name f) c w [group]).view w .identity).sampleAt? t =
      f (Merge.contributionsAt none (viewsOf w [group]) t) := by
  apply Option.ext
  intro s
  rw [View.sampleAt?_eq_some_iff, Series.points_view, Series.within, points_combined _ hgroup, hfill,
    List.mem_filter, Merge.mem_points_pure]
  constructor
  · rintro ⟨⟨-, hs⟩, -⟩
    exact hs
  · intro hs
    have ht : t ∈ Merge.timeline (viewsOf w [group]) := by
      rw [Merge.mem_timeline_iff_contributionsAt_none]
      intro hnil
      rw [hnil, hf] at hs
      cases hs
    exact ⟨⟨ht, hs⟩, contains_of_mem_timeline ht⟩

/-! ## The merges of all groups -/

/-- The merges of groups one by one, each a group of its own. -/
def partials {σ : Type} (a : Aggregator σ) (c : Config) (w : Window) (groups : Input) : Input :=
  groups.map fun group => [combined a c w [group]]

theorem contributionsAt_groups (fill : Option Interpolation) (w : Window) (groups : Input)
    (t : Timestamp) :
    Merge.contributionsAt fill (viewsOf w groups) t =
      (groups.map fun group => Merge.contributionsAt fill (viewsOf w [group]) t).flatten := by
  unfold Merge.contributionsAt viewsOf Input.series
  simp [List.map_flatten, List.filterMap_flatten, List.filterMap_map, Function.comp_def]

theorem wordsAt_groups (fill : Option Interpolation) (w : Window) (groups : Input) (t : Timestamp) :
    Merge.wordsAt fill (viewsOf w groups) t =
      (groups.map fun group => Merge.wordsAt fill (viewsOf w [group]) t).flatten := by
  rw [Merge.wordsAt, contributionsAt_groups, List.filterMap_flatten, List.map_map]
  rfl

theorem viewsOf_partials {σ : Type} (a : Aggregator σ) (c : Config) (w : Window) (groups : Input) :
    viewsOf w (partials a c w groups) =
      groups.map fun group => (combined a c w [group]).view w .identity := by
  unfold viewsOf partials Input.series
  rw [← List.flatMap_def, ← List.map_eq_flatMap, List.map_map]
  rfl

theorem contributionsAt_partials {f : List Sample → Option Sample} (hf : f [] = none) (name : String)
    (hfill : c.fill = none) (hgroups : ∀ group ∈ groups, group ≠ []) (t : Timestamp) :
    Merge.contributionsAt none (viewsOf w (partials (.pure name f) c w groups)) t =
      (groups.map fun group => Merge.contributionsAt none (viewsOf w [group]) t).filterMap f := by
  rw [viewsOf_partials, Merge.contributionsAt_none, List.filterMap_map, List.filterMap_map]
  exact List.filterMap_congr fun group hgroup =>
    sampleAt?_combined hf name hfill (hgroups group hgroup) t

variable {op : Int → Int → Int} {value : List Int → Int} {size : List Int → Nat}

/-- What groups of integers combine to, combined again, is what all of them combine to. -/
theorem fold_contributionsAt_partials (h : Exact op value size) (opFloat : Float → Float → Float)
    (name : String) (hfill : c.fill = none) (hgroups : ∀ group ∈ groups, group ≠ [])
    (hint : ∀ s ∈ Input.series groups, s.IntegralIn w) (hsmall : Input.SmallIn size none w groups)
    (t : Timestamp) :
    Aggregator.fold op opFloat (Merge.contributionsAt none
        (viewsOf w (partials (.pure name (Aggregator.fold op opFloat)) c w groups)) t) =
      Aggregator.fold op opFloat (Merge.contributionsAt none (viewsOf w groups) t) := by
  rw [contributionsAt_partials rfl name hfill hgroups, contributionsAt_groups]
  by_cases ht : t ∈ Merge.timeline (viewsOf w groups)
  · have hwords : (groups.map fun group => Merge.contributionsAt none (viewsOf w [group]) t) =
        (groups.map fun group => Merge.wordsAt none (viewsOf w [group]) t).map
          (List.map Sample.int) := by
      rw [List.map_map]
      refine List.map_congr_left fun group hgroup => Merge.contributionsAt_eq_words ?_
      apply integral_viewsOf
      intro s hs
      have hs : s ∈ group := by simpa [Input.series] using hs
      exact hint s (List.mem_flatten.2 ⟨group, hgroup, hs⟩)
    have hsize := hsmall.size_le ht
    rw [Merge.integersAt, wordsAt_groups] at hsize
    rw [hwords, ← List.map_flatten]
    exact Aggregator.fold_flatten h opFloat hsize
  · have hnil : (groups.map fun group =>
        Merge.contributionsAt none (viewsOf w [group]) t).flatten = [] := by
      rw [← contributionsAt_groups]
      simpa [Merge.mem_timeline_iff_contributionsAt_none] using ht
    rw [hnil, List.filterMap_eq_nil_iff.2]
    intro ss hss
    rw [List.flatten_eq_nil_iff.1 hnil ss hss]
    rfl

theorem combined_partials (h : Exact op value size) (opFloat : Float → Float → Float) (name : String)
    (hfill : c.fill = none) (hne : groups ≠ []) (hgroups : ∀ group ∈ groups, group ≠ [])
    (hint : ∀ s ∈ Input.series groups, s.IntegralIn w) (hsmall : Input.SmallIn size none w groups) :
    combined (.pure name (Aggregator.fold op opFloat)) c w
        (partials (.pure name (Aggregator.fold op opFloat)) c w groups) =
      combined (.pure name (Aggregator.fold op opFloat)) c w groups := by
  have hfold := fold_contributionsAt_partials h opFloat name hfill hgroups hint hsmall
  have hpoints := Merge.points_none_congr (fun _ => Aggregator.fold_eq_none_iff) hfold name
  obtain ⟨group, others, rfl⟩ := List.exists_cons_of_ne_nil hne
  obtain ⟨first, rest, rfl⟩ := List.exists_cons_of_ne_nil (hgroups group (by simp))
  apply merged_congr
  · exact toMetadata_merged _ _
  · rw [hfill]
    exact hpoints

end Combine

/-! ## Evaluation -/

namespace Registry

variable {g : Registry} {c : Config} {w : Window} {groups : Input} {name : String}
  {params : List String}

/-- Evaluates the function of a name on each group alone, and then on the results as groups. -/
def evaluateNested (g : Registry) (name : String) (w : Window) (groups : Input)
    (params : List String) : Except Error (List Series) := do
  let parts ← groups.mapM fun group => (g.evaluate name w [group] params).result
  (g.evaluate name w parts params).result

/-- Nested or not, the evaluation of a name on groups has the same result, in a window whose bounds are
in order a single series. -/
structure Nests (g : Registry) (name : String) (w : Window) (groups : Input) (params : List String) :
    Prop where
  nested : g.evaluateNested name w groups params = (g.evaluate name w groups params).result
  single : w.start ≤ w.stop → ∃ s, (g.evaluate name w groups params).result = .ok [s]

variable {op : Int → Int → Int} {value : List Int → Int} {size : List Int → Nat}

theorem nests_of_all (h : Exact op value size) (opFloat : Float → Float → Float) (aggregator : String)
    (heval : ∀ input : Input, (g.evaluate name w input params).result =
      (Combine.all (.pure aggregator (Aggregator.fold op opFloat)) c w input).result)
    (hfill : c.fill = none) (hne : groups ≠ []) (hgroups : ∀ group ∈ groups, group ≠ [])
    (hint : ∀ s ∈ Input.series groups, s.IntegralIn w) (hsmall : Input.SmallIn size none w groups) :
    g.Nests name w groups params where
  nested := by
    unfold evaluateNested
    by_cases hw : w.start ≤ w.stop
    · have hparts : (groups.mapM fun group => (g.evaluate name w [group] params).result) =
          .ok (Combine.partials (.pure aggregator (Aggregator.fold op opFloat)) c w groups) := by
        apply mapM_eq_ok
        intro group _
        rw [heval]
        exact Combine.result_all_of_ne_nil _ (List.cons_ne_nil group []) hw
      have hsome : Combine.partials (.pure aggregator (Aggregator.fold op opFloat)) c w groups ≠ [] := by
        simpa [Combine.partials] using hne
      rw [hparts]
      show (g.evaluate name w (Combine.partials _ c w groups) params).result = _
      rw [heval, heval, Combine.result_all_of_ne_nil _ hsome hw, Combine.result_all_of_ne_nil _ hne hw,
        Combine.combined_partials h opFloat aggregator hfill hne hgroups hint hsmall]
    · have hw : w.stop < w.start := Int64.not_le.1 hw
      obtain ⟨group, others, rfl⟩ := List.exists_cons_of_ne_nil hne
      obtain ⟨first, rest, rfl⟩ := List.exists_cons_of_ne_nil (hgroups group (by simp))
      rw [List.mapM_cons, heval, heval, Combine.result_all_inverted _ hw,
        Combine.result_all_inverted _ hw]
      rfl
  single hw := by
    rw [heval]
    exact ⟨_, Combine.result_all_of_ne_nil _ hne hw⟩

/-- Where missing samples are skipped, sums and products of integers that are small together can be
taken group by group. -/
theorem nests_evaluate (hskip : c.skipMissing = true) (hlimit : c.maxInputSeries = 0)
    (hne : groups ≠ []) (hgroups : ∀ group ∈ groups, group ≠ [])
    (hint : ∀ s ∈ Input.series groups, s.IntegralIn w) (params : List String) :
    (Input.SmallIn absSum none w groups → (ofConfig c).Nests "sumSeries" w groups params) ∧
    (Input.SmallIn absProduct none w groups →
      (ofConfig c).Nests "multiplySeries" w groups params) := by
  have hfill : c.fill = none := by simp [Config.fill, hskip]
  constructor
  · intro hsmall
    exact nests_of_all exact_sum (· + ·) "sum"
      (fun _ => result_ofConfig (f := .sum) (.inl rfl) (.inl hlimit)) hfill hne hgroups hint hsmall
  · intro hsmall
    exact nests_of_all exact_product (· * ·) "multiply"
      (fun _ => result_ofConfig (f := .multiply) (.inl rfl) (.inl hlimit)) hfill hne hgroups hint hsmall

/-- Three groups of integers at times that few of them share. -/
def groupedInput : Input :=
  [[({ metric := "a" } : Series).insertAll [⟨0, .int 4611686018427387904⟩, ⟨10, .int (-6)⟩],
      ({ metric := "b" } : Series).insertAll [⟨4, .int (-1)⟩, ⟨10, .int 7⟩]],
    [({ metric := "c" } : Series).insertAll [⟨0, .int 1⟩, ⟨7, .int 0⟩]],
    [({ metric := "d" } : Series).insertAll [⟨4, .int 3⟩], { metric := "e" }]]

theorem nests_evaluate_grouped :
    (ofConfig { skipMissing := true, maxInputSeries := 0 }).Nests "sumSeries" ⟨0, 20000⟩ groupedInput
        [] ∧
      (ofConfig { skipMissing := true, maxInputSeries := 0 }).Nests "multiplySeries" ⟨0, 20000⟩
        groupedInput [] := by
  have hint : ∀ s ∈ Input.series groupedInput, s.IntegralIn ⟨0, 20000⟩ := by decide
  have hnests := nests_evaluate (c := { skipMissing := true, maxInputSeries := 0 }) rfl rfl
    (List.cons_ne_nil _ _) (by decide) hint []
  exact ⟨hnests.1 (by decide), hnests.2 (by decide)⟩

end Registry
end DerivedSeries
