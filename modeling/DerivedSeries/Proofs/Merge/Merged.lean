import DerivedSeries.Combine
import DerivedSeries.Proofs.Merge.Timeline
import DerivedSeries.Proofs.Windowed

/-!
# Merged series

A merge emits its points in ascending order (`Merge.pairwise_points`), so the series that holds them
shows just these points (`Combine.points_merged`). With an aggregator that remembers nothing they
are its answers, time by time (`Merge.points_pure`). Sums, differences and moving averages of an
input are such series, in every window that is not inverted (`Combine.result_all`,
`Combine.result_pair`, `Combine.result_smooth`).
-/

namespace DerivedSeries

namespace OrderedMap

variable {κ ν : Type} [Ord κ] [Std.TransOrd κ]

/-- A key above all others goes to the end. -/
theorem insertEntry_of_above {k : κ} {x : ν} {es : List (κ × ν)}
    (h : ∀ e ∈ es, compare e.1 k = .lt) : insertEntry k x es = es ++ [(k, x)] := by
  induction es with
  | nil => rfl
  | cons e es ih =>
    have hgt : compare k e.1 = .gt := Std.OrientedCmp.gt_of_lt (h e (by simp))
    rw [insertEntry, hgt, ih fun d hd => h d (by simp [hd])]
    rfl

end OrderedMap

namespace Series

theorem points_insert_of_later {s : Series} {p : Point}
    (h : ∀ q ∈ s.points, q.timestamp < p.timestamp) : (s.insert p).points = s.points ++ [p] := by
  have habove : ∀ e ∈ s.samples.entries, compare e.1 p.timestamp = .lt := by
    intro e he
    exact Std.compare_eq_lt.2 (h ⟨e.1, e.2⟩ (List.mem_map_of_mem he))
  unfold points insert
  rw [OrderedMap.entries_insert, OrderedMap.insertEntry_of_above habove, List.map_append]
  rfl

theorem points_insertAll {s : Series} {ps : List Point}
    (h : (s.points ++ ps).Pairwise fun a b => a.timestamp < b.timestamp) :
    (s.insertAll ps).points = s.points ++ ps := by
  induction ps generalizing s with
  | nil => exact (List.append_nil _).symm
  | cons p ps ih =>
    have hlater : ∀ q ∈ s.points, q.timestamp < p.timestamp :=
      fun q hq => (List.pairwise_append.1 h).2.2 q hq p (by simp)
    have hinsert := points_insert_of_later hlater
    rw [List.append_cons, ← hinsert] at h
    show ((s.insert p).insertAll ps).points = _
    rw [ih h, hinsert, ← List.append_cons]

end Series

/-! ## The points of a merge -/

theorem Aggregator.sublist_runFrom {σ : Type} (a : Aggregator σ) (state : σ) (rows : List Row) :
    ((a.runFrom state rows).map Point.timestamp).Sublist (rows.map Row.timestamp) := by
  induction rows generalizing state with
  | nil => exact .slnil
  | cons r rows ih =>
    rw [runFrom_cons]
    cases a.step state r.timestamp r.samples with
    | mk out next =>
      cases out with
      | none => exact (ih next).cons r.timestamp
      | some v => exact (ih next).cons_cons r.timestamp

theorem Aggregator.runFrom_pure (name : String) (f : List Sample → Option Sample) (rows : List Row) :
    (pure name f).runFrom () rows = rows.filterMap fun r => (f r.samples).map (Point.mk r.timestamp) := by
  induction rows with
  | nil => rfl
  | cons r rows ih =>
    have hstep : (pure name f).step () r.timestamp r.samples = (f r.samples, ()) := rfl
    rw [runFrom_cons, hstep, List.filterMap_cons]
    cases f r.samples with
    | none => exact ih
    | some v => exact congrArg _ ih

/-- Without a memory, each time of the timeline is answered by itself. -/
theorem Merge.points_pure (name : String) (f : List Sample → Option Sample)
    (fill : Option Interpolation) (views : List View) :
    points (.pure name f) fill views =
      (timeline views).filterMap fun t => (f (contributionsAt fill views t)).map (Point.mk t) := by
  rw [points_eq_run, Aggregator.run, Aggregator.runFrom_pure, rows, List.filterMap_map]
  rfl

/-- A list of samples at some of given times, as points. -/
theorem Point.mem_filterMap {ts : List Timestamp} {g : Timestamp → Option Sample} {p : Point} :
    p ∈ ts.filterMap (fun t => (g t).map (Point.mk t)) ↔
      p.timestamp ∈ ts ∧ g p.timestamp = some p.value := by
  simp only [List.mem_filterMap, Option.map_eq_some_iff]
  constructor
  · rintro ⟨t, ht, v, hv, rfl⟩
    exact ⟨ht, hv⟩
  · rintro ⟨ht, hv⟩
    exact ⟨p.timestamp, ht, p.value, hv, rfl⟩

theorem Merge.mem_points_pure {name : String} {f : List Sample → Option Sample}
    {fill : Option Interpolation} {views : List View} {p : Point} :
    p ∈ points (.pure name f) fill views ↔
      p.timestamp ∈ timeline views ∧ f (contributionsAt fill views p.timestamp) = some p.value := by
  rw [points_pure]
  exact Point.mem_filterMap

variable {σ : Type} (a : Aggregator σ)

/-- A merge has points at times of the timeline, in its order. -/
theorem Merge.sublist_timeline (fill : Option Interpolation) (views : List View) :
    ((points a fill views).map Point.timestamp).Sublist (timeline views) := by
  have htimes : (rows fill views).map Row.timestamp = timeline views := by
    rw [rows, List.map_map]
    exact List.map_id _
  rw [points_eq_run, ← htimes]
  exact a.sublist_runFrom a.initial (rows fill views)

theorem Merge.pairwise_points (fill : Option Interpolation) (views : List View) :
    (points a fill views).Pairwise fun p q => p.timestamp < q.timestamp := by
  rw [← List.pairwise_map (f := Point.timestamp)]
  exact (pairwise_timeline views).sublist (sublist_timeline a fill views)

theorem Merge.timestamp_mem_timeline {fill : Option Interpolation} {views : List View} {p : Point}
    (hp : p ∈ points a fill views) : p.timestamp ∈ timeline views :=
  (sublist_timeline a fill views).subset (List.mem_map_of_mem hp)

namespace Combine

variable {c : Config} {w : Window} {first : Series}

theorem points_merged (views : List View) :
    (merged a c first views).points = Merge.points a c.fill views :=
  Series.points_insertAll (s := first.blank) (Merge.pairwise_points a c.fill views)

/-- Where the times of the views are known, the points are a run over the rows of these times. -/
theorem points_merged_of_timeline {views : List View} {ts : List Timestamp}
    (h : Merge.timeline views = ts) :
    (merged a c first views).points = a.run (ts.map (Merge.rowAt c.fill views)) := by
  rw [points_merged, Merge.points_eq_run, Merge.rows, h]

theorem toMetadata_merged (views : List View) :
    (merged a c first views).toMetadata = first.toMetadata :=
  Series.toMetadata_insertAll _ _

/-- A merged series depends on the metadata of the first series and on the points of the merge. -/
theorem merged_congr {s r : Series} {views others : List View} (h : s.toMetadata = r.toMetadata)
    (hpoints : Merge.points a c.fill views = Merge.points a c.fill others) :
    merged a c s views = merged a c r others := by
  have hblank : s.blank = r.blank := congrArg (Series.mk · .empty) h
  rw [merged, merged, hblank, hpoints]

theorem merge_congr {s r : Series} (h : s.toMetadata = r.toMetadata) (views : List View) :
    merge a c s views = merge a c r views := by
  have hmetric : s.metric = r.metric := congrArg Metadata.metric h
  rw [merge, merge, hmetric, merged_congr a h rfl]

/-! ## The functions that merge -/

/-- A view of every series of an input. -/
def viewsOf (w : Window) (input : Input) : List View :=
  input.series.map (Series.view w .identity)

variable {group : List Series} {groups : Input}

theorem result_views (h : w.start ≤ w.stop) (input : Input) :
    (Evaluation.ofExcept (View.identities w input.series)).result = .ok (viewsOf w input) :=
  View.identities_of_le h input.series

theorem result_views_of_lt {input : Input} {s : Series} {ss : List Series} (h : w.stop < w.start)
    (hs : input.series = s :: ss) :
    (Evaluation.ofExcept (View.identities w input.series)).result =
      .error (.invertedView s.metric w.start w.stop) :=
  hs ▸ View.identities_of_lt h s ss

/-- What the series of an input merge to: without a first series, a series without name and samples. -/
def combined (a : Aggregator σ) (c : Config) (w : Window) (input : Input) : Series :=
  match input.first? with
  | none => {}
  | some first => merged a c first (viewsOf w input)

theorem result_all_of_ne_nil {input : Input} (hne : input ≠ []) (h : w.start ≤ w.stop) :
    (all a c w input).result = .ok [combined a c w input] := by
  obtain ⟨group, groups, rfl⟩ := List.exists_cons_of_ne_nil hne
  show (Evaluation.ofExcept (View.identities w _) >>= _).result = _
  rw [Evaluation.result_bind_of_ok (result_views h _)]
  cases group <;> rfl

theorem result_all (h : w.start ≤ w.stop) :
    (all a c w ((first :: group) :: groups)).result =
      .ok [merged a c first (viewsOf w ((first :: group) :: groups))] :=
  result_all_of_ne_nil a (List.cons_ne_nil _ _) h

theorem result_all_of_lt {input : Input} {s : Series} {ss : List Series} (h : w.stop < w.start)
    (hs : input.series = s :: ss) :
    (all a c w input).result = .error (.invertedView s.metric w.start w.stop) := by
  have hne : input ≠ [] := by
    rintro rfl
    cases hs
  obtain ⟨group, groups, rfl⟩ := List.exists_cons_of_ne_nil hne
  show (Evaluation.ofExcept (View.identities w _) >>= _).result = _
  rw [Evaluation.result_bind_of_error (result_views_of_lt h hs)]

theorem result_all_inverted (h : w.stop < w.start) :
    (all a c w ((first :: group) :: groups)).result =
      .error (.invertedView first.metric w.start w.stop) :=
  result_all_of_lt a h rfl

/-! Two operands -/

section
variable {x y : Series} {input : Input} (transform : Transform)

theorem operands_eq_ok_iff :
    operands input = .ok (x, y) ↔ input = [[x], [y]] ∨ input = [[x, y]] := by
  constructor
  · intro h
    unfold operands at h
    split at h
    · cases h
    · cases h
      exact .inl rfl
    · cases h
      exact .inr rfl
    · cases h
  · rintro (rfl | rfl) <;> rfl

theorem result_operands (hops : operands input = .ok (x, y)) :
    (Evaluation.ofExcept (operands input)).result = .ok (x, y) :=
  hops

theorem result_pair (hops : operands input = .ok (x, y)) (h : w.start ≤ w.stop) :
    (pair a transform c w input).result =
      .ok [merged a c x [x.view w .identity, y.view w transform]] := by
  have hview : ∀ (s : Series) (t : Transform),
      (Evaluation.ofExcept (View.ofSeries w t s)).result = .ok (s.view w t) :=
    fun s t => View.ofSeries_of_le h t s
  rw [pair, Evaluation.result_bind_of_ok (result_operands hops)]
  show (Evaluation.ofExcept (View.ofSeries w .identity x) >>= _).result = _
  rw [Evaluation.result_bind_of_ok (hview x .identity),
    Evaluation.result_bind_of_ok (hview y transform)]
  rfl

theorem result_pair_inverted (hops : operands input = .ok (x, y)) (h : w.stop < w.start) :
    (pair a transform c w input).result = .error (.invertedView x.metric w.start w.stop) := by
  have hview : (Evaluation.ofExcept (View.ofSeries w .identity x)).result =
      .error (.invertedView x.metric w.start w.stop) :=
    View.ofSeries_of_lt h .identity x
  rw [pair, Evaluation.result_bind_of_ok (result_operands hops)]
  exact Evaluation.result_bind_of_error hview _

theorem result_pair_of_error {e : Error} (hops : operands input = .error e) :
    (pair a transform c w input).result = .error e := by
  have hops : (Evaluation.ofExcept (operands input)).result = .error e := hops
  rw [pair, Evaluation.result_bind_of_error hops]

/-- Two operands are also an input whose series can all be merged. -/
theorem result_all_of_operands (hops : operands input = .ok (x, y)) (h : w.start ≤ w.stop) :
    (all a c w input).result =
      .ok [merged a c x [x.view w .identity, y.view w .identity]] := by
  rcases operands_eq_ok_iff.1 hops with rfl | rfl
  · exact result_all a h
  · exact result_all a h

end

/-! Moving averages -/

variable {params : List String} {span : Span}

theorem result_smooth_of_ne_nil {input : Input} (hne : input ≠ [])
    (hspan : Span.ofParams params = .ok span) (h : w.start ≤ w.stop) :
    (smooth c w input params).result = .ok [combined (.movingAverage span) c w input] := by
  have hparams : (Evaluation.ofExcept (Span.ofParams params)).result = .ok span := hspan
  obtain ⟨group, groups, rfl⟩ := List.exists_cons_of_ne_nil hne
  show (Evaluation.ofExcept (Span.ofParams params) >>= _).result = _
  rw [Evaluation.result_bind_of_ok hparams, Evaluation.result_bind_of_ok (result_views h _)]
  cases group <;> rfl

theorem result_smooth_of_error {input : Input} {e : Error} (hne : input ≠ [])
    (hspan : Span.ofParams params = .error e) : (smooth c w input params).result = .error e := by
  have hparams : (Evaluation.ofExcept (Span.ofParams params)).result = .error e := hspan
  obtain ⟨group, groups, rfl⟩ := List.exists_cons_of_ne_nil hne
  show (Evaluation.ofExcept (Span.ofParams params) >>= _).result = _
  rw [Evaluation.result_bind_of_error hparams]

theorem result_smooth (hspan : Span.ofParams params = .ok span) (h : w.start ≤ w.stop) :
    (smooth c w ((first :: group) :: groups) params).result =
      .ok [merged (.movingAverage span) c first (viewsOf w ((first :: group) :: groups))] :=
  result_smooth_of_ne_nil (List.cons_ne_nil _ _) hspan h

theorem result_smooth_of_lt {input : Input} {s : Series} {ss : List Series}
    (hspan : Span.ofParams params = .ok span) (h : w.stop < w.start)
    (hs : input.series = s :: ss) :
    (smooth c w input params).result = .error (.invertedView s.metric w.start w.stop) := by
  have hparams : (Evaluation.ofExcept (Span.ofParams params)).result = .ok span := hspan
  have hne : input ≠ [] := by
    rintro rfl
    cases hs
  obtain ⟨group, groups, rfl⟩ := List.exists_cons_of_ne_nil hne
  show (Evaluation.ofExcept (Span.ofParams params) >>= _).result = _
  rw [Evaluation.result_bind_of_ok hparams,
    Evaluation.result_bind_of_error (result_views_of_lt h hs)]

theorem result_smooth_inverted (hspan : Span.ofParams params = .ok span) (h : w.stop < w.start) :
    (smooth c w ((first :: group) :: groups) params).result =
      .error (.invertedView first.metric w.start w.stop) :=
  result_smooth_of_lt hspan h rfl

end Combine
end DerivedSeries
