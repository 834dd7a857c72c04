import Mathlib.Data.List.Dedup
import Mathlib.Data.List.Sort
import DerivedSeries.Proofs.Merge.Contribution

/-!
# The timeline of a merge

The timeline of views is the ascending list of all times at which any of them has a sample. A merge
runs its aggregator over the timeline: at each time once, on what the views contribute there
(`Merge.points_eq_answers`).

What its cursors answer on the way does not depend on the aggregator: the points of a merge are the
aggregator's run over these visits (`Merge.drain_eq_run`). The invariant of the visits is that every
cursor is the one that has passed the times before the next: `Merge.visits_cursors` carries it from
one visit to all of them.
-/

namespace DerivedSeries.Merge

/-- All times of views, each once, in ascending order. -/
def timeline (views : List View) : List Timestamp :=
  ((views.flatMap View.times).mergeSort fun s t => s ≤ t).dedup

/-- What views contribute at a time, in their order. -/
def contributionsAt (fill : Option Interpolation) (views : List View) (t : Timestamp) :
    List Sample :=
  views.filterMap (View.contribution? fill t)

/-- The row of a time. -/
def rowAt (fill : Option Interpolation) (views : List View) (t : Timestamp) : Row :=
  ⟨t, contributionsAt fill views t⟩

/-- The rows of the timeline. -/
def rows (fill : Option Interpolation) (views : List View) : List Row :=
  (timeline views).map (rowAt fill views)

theorem mem_timeline {views : List View} {t : Timestamp} :
    t ∈ timeline views ↔ ∃ v ∈ views, t ∈ v.times := by
  simp [timeline, List.mem_flatMap]

theorem pairwise_timeline (views : List View) : (timeline views).Pairwise (· < ·) := by
  have hle : (timeline views).Pairwise fun s t => s ≤ t := by
    refine List.Pairwise.sublist (List.dedup_sublist _) ?_
    refine (List.pairwise_mergeSort ?_ ?_ _).imp of_decide_eq_true
    · intro s t u hst htu
      simp only [decide_eq_true_eq] at hst htu ⊢
      exact Int64.le_trans hst htu
    · intro s t
      simpa using Int64.le_total s t
  have hne : (timeline views).Pairwise (· ≠ ·) := List.nodup_dedup _
  exact (hle.and hne).imp fun h => Int64.lt_of_le_of_ne h.1 h.2

/-- No other ascending list has the times of the views. -/
theorem timeline_eq_of_subset {views : List View} {ts : List Timestamp} (hasc : ts.Pairwise (· < ·))
    (hsub : ts ⊆ views.flatMap View.times) (hsup : views.flatMap View.times ⊆ ts) :
    timeline views = ts :=
  (pairwise_timeline views).eq_of_mem_iff hasc fun t =>
    mem_timeline.trans (List.mem_flatMap.symm.trans ⟨@hsup t, @hsub t⟩)

theorem contributionsAt_ne_nil {fill : Option Interpolation} {views : List View} {t : Timestamp}
    (h : t ∈ timeline views) : contributionsAt fill views t ≠ [] := by
  obtain ⟨v, hv, ht⟩ := mem_timeline.1 h
  obtain ⟨s, hs⟩ := Option.isSome_iff_exists.1 (View.isSome_sampleAt? ht)
  refine List.ne_nil_of_mem (a := s) (List.mem_filterMap.2 ⟨v, hv, ?_⟩)
  simp [View.contribution?, hs]

/-! ## The earliest time to come -/

/-- `t` is the earliest of the times of views that are not past. -/
def Next (past : Timestamp → Bool) (views : List View) (t : Timestamp) : Prop :=
  (t ∈ timeline views ∧ past t = false) ∧ ∀ s ∈ timeline views, past s = false → t ≤ s

theorem head?_eq_some_iff_least {ts : List Timestamp} (h : ts.Pairwise (· < ·)) {t : Timestamp} :
    ts.head? = some t ↔ t ∈ ts ∧ ∀ s ∈ ts, t ≤ s := by
  cases ts with
  | nil => simp
  | cons u us =>
    have hu := (List.pairwise_cons.1 h).1
    simp only [List.head?_cons, Option.some.injEq]
    constructor
    · rintro rfl
      simpa using fun s hs => Int64.le_of_lt (hu s hs)
    · rintro ⟨ht, hle⟩
      rcases List.mem_cons.1 ht with rfl | ht
      · rfl
      · exact absurd (hle u (by simp)) (Int64.not_le.2 (hu t ht))

theorem head?_timeline {past : Timestamp → Bool} {views : List View} {t : Timestamp} :
    ((timeline views).filter fun u => !past u).head? = some t ↔ Next past views t := by
  rw [head?_eq_some_iff_least ((pairwise_timeline views).filter _)]
  simp [Next, and_imp]

/-- The next time of a cursor is the earliest of its view's times that is not past. -/
theorem next?_cursor {past : Timestamp → Bool} {v : View} {t : Timestamp} :
    (v.cursor past).next? = some t ↔
      (t ∈ v.times ∧ past t = false) ∧ ∀ s ∈ v.times, past s = false → t ≤ s := by
  have h : (v.cursor past).next? = (v.times.filter fun u => !past u).head? := by
    unfold Cursor.next? View.cursor View.times
    rw [List.filter_map, List.head?_map]
    rfl
  rw [h, head?_eq_some_iff_least (v.pairwise_times.filter _)]
  simp [and_imp]

theorem exists_next?_cursor {past : Timestamp → Bool} {v : View} {s : Timestamp}
    (hs : s ∈ v.times) (hpast : past s = false) : ∃ t, (v.cursor past).next? = some t := by
  obtain ⟨p, hp, rfl⟩ := View.mem_times.1 hs
  have hmem : p ∈ (v.cursor past).rest := List.mem_filter.2 ⟨hp, by simpa using hpast⟩
  unfold Cursor.next?
  cases hrest : (v.cursor past).rest with
  | nil => rw [hrest] at hmem; cases hmem
  | cons q qs => exact ⟨q.timestamp, rfl⟩

theorem earliest?_cursors {past : Timestamp → Bool} {views : List View} {t : Timestamp} :
    earliest? (views.map (View.cursor past)) = some t ↔ Next past views t := by
  have hmem : ∀ u, u ∈ (views.map (View.cursor past)).filterMap Cursor.next? ↔
      ∃ v ∈ views, (v.cursor past).next? = some u := by
    intro u
    simp [List.mem_filterMap]
  unfold earliest?
  rw [List.min?_eq_some_iff]
  simp only [hmem, Next, mem_timeline]
  constructor
  · rintro ⟨⟨v, hv, ht⟩, hmin⟩
    refine ⟨⟨⟨v, hv, (next?_cursor.1 ht).1.1⟩, (next?_cursor.1 ht).1.2⟩, ?_⟩
    rintro s ⟨u, hu, hs⟩ hpast
    obtain ⟨n, hn⟩ := exists_next?_cursor hs hpast
    exact Int64.le_trans (hmin n ⟨u, hu, hn⟩) ((next?_cursor.1 hn).2 s hs hpast)
  · rintro ⟨⟨⟨v, hv, ht⟩, hpast⟩, hmin⟩
    refine ⟨⟨v, hv, next?_cursor.2 ⟨⟨ht, hpast⟩, fun s hs => hmin s ⟨v, hv, hs⟩⟩⟩, ?_⟩
    rintro b ⟨u, hu, hb⟩
    exact hmin b ⟨u, hu, (next?_cursor.1 hb).1.1⟩ (next?_cursor.1 hb).1.2

/-- The earliest time of the cursors heads what is left of the timeline. -/
theorem earliest?_cursors_eq (past : Timestamp → Bool) (views : List View) :
    earliest? (views.map (View.cursor past)) =
      ((timeline views).filter fun u => !past u).head? := by
  apply Option.ext
  intro t
  rw [earliest?_cursors, head?_timeline]

/-! ## The visits -/

/-- A stop of a merge: the time, and what each cursor answers there. -/
structure Visit where
  timestamp : Timestamp
  answers : List (Option Sample)

/-- What an aggregator gets to see of a visit. -/
def Visit.row (v : Visit) : Row :=
  ⟨v.timestamp, v.answers.filterMap id⟩

/-- The stops that cursors make on their way to the end. -/
def visits (fill : Option Interpolation) (cs : List Cursor) : List Visit :=
  match _next : earliest? cs with
  | none => []
  | some t => ⟨t, cs.map fun c => (c.visit fill t).1⟩ :: visits fill (advance fill t cs)
termination_by remaining cs
decreasing_by exact remaining_visit_lt (exists_of_earliest? _next)

/-- The visit of a time. -/
def visitAt (fill : Option Interpolation) (views : List View) (t : Timestamp) : Visit :=
  ⟨t, views.map (View.contribution? fill t)⟩

section
variable (fill : Option Interpolation)

theorem visits_of_none {cs : List Cursor} (h : earliest? cs = none) : visits fill cs = [] := by
  rw [visits]
  split
  · rfl
  · rename_i ht
    rw [h] at ht
    cases ht

theorem visits_of_some {cs : List Cursor} {t : Timestamp} (h : earliest? cs = some t) :
    visits fill cs =
      ⟨t, cs.map fun c => (c.visit fill t).1⟩ :: visits fill (advance fill t cs) := by
  rw [visits]
  split
  · rename_i ht
    rw [h] at ht
    cases ht
  · rename_i u hu
    rw [h] at hu
    cases hu
    rfl

variable (views : List View)

theorem row_visitAt (t : Timestamp) : (visitAt fill views t).row = rowAt fill views t := by
  unfold Visit.row visitAt rowAt contributionsAt
  rw [List.filterMap_map]
  rfl

theorem answers_cursors (t : Timestamp) :
    (views.map (View.cursor fun u => u < t)).map (fun c => (c.visit fill t).1) =
      (visitAt fill views t).answers := by
  unfold visitAt
  rw [List.map_map]
  exact List.map_congr_left fun v _ => by rw [Function.comp_apply, View.visit_cursor]

theorem advance_cursors (t : Timestamp) :
    advance fill t (views.map (View.cursor fun u => u < t)) =
      views.map (View.cursor fun u => u ≤ t) := by
  unfold advance
  rw [List.map_map]
  exact List.map_congr_left fun v _ => by rw [Function.comp_apply, View.visit_cursor]

/-- Once the head of what is left of a timeline is past, its tail is left. -/
theorem filter_timeline_of_cons {views : List View} {past : Timestamp → Bool} {t : Timestamp}
    {ts : List Timestamp} (hts : (timeline views).filter (fun u => !past u) = t :: ts)
    (hpast : ∀ s ∈ timeline views, past s = decide (s < t)) :
    (timeline views).filter (fun u => !decide (u ≤ t)) = ts := by
  have hasc := (pairwise_timeline views).filter fun u => !past u
  rw [hts, List.pairwise_cons] at hasc
  calc (timeline views).filter (fun u => !decide (u ≤ t))
      = ((timeline views).filter fun u => !past u).filter fun u => !decide (u ≤ t) := by
        rw [List.filter_filter]
        refine List.filter_congr fun s hs => ?_
        rw [hpast s hs]
        by_cases hst : s ≤ t
        · simp [hst]
        · simp [hst, Int64.lt_asymm (Int64.not_le.1 hst)]
    _ = ts := by
        rw [hts, List.filter_cons_of_neg (by simp), List.filter_eq_self]
        intro s hs
        simpa using hasc.1 s hs

/-- The invariant of a merge: the cursors that have passed all past times visit the times to come.
What is past is closed downwards. -/
theorem visits_cursors (past : Timestamp → Bool)
    (hdown : ∀ s t, s ≤ t → past t = true → past s = true) :
    visits fill (views.map (View.cursor past)) =
      ((timeline views).filter fun u => !past u).map (visitAt fill views) := by
  generalize hts : (timeline views).filter (fun u => !past u) = ts
  induction ts generalizing past with
  | nil =>
    have h : earliest? (views.map (View.cursor past)) = none := by
      rw [earliest?_cursors_eq, hts, List.head?_nil]
    rw [visits_of_none fill h]
    rfl
  | cons t ts ih =>
    have h : earliest? (views.map (View.cursor past)) = some t := by
      rw [earliest?_cursors_eq, hts, List.head?_cons]
    obtain ⟨⟨-, ht⟩, hmin⟩ := earliest?_cursors.1 h
    -- on the times of the views, being past is being before `t`
    have hpast : ∀ s ∈ timeline views, past s = decide (s < t) := by
      intro s hs
      cases hsp : past s with
      | true =>
        refine (decide_eq_true (Int64.not_le.1 fun hle => ?_)).symm
        rw [hdown t s hle hsp] at ht
        cases ht
      | false => exact (decide_eq_false (Int64.not_lt.2 (hmin s hs hsp))).symm
    have hcursors : views.map (View.cursor past) = views.map (View.cursor fun u => u < t) :=
      List.map_congr_left fun v hv =>
        View.cursor_congr fun s hs => hpast s (mem_timeline.2 ⟨v, hv, hs⟩)
    have hrest := filter_timeline_of_cons hts hpast
    have ih := ih (fun u => u ≤ t)
      (fun r s hrs hs => decide_eq_true (Int64.le_trans hrs (of_decide_eq_true hs))) hrest
    rw [visits_of_some fill h, hcursors, answers_cursors, advance_cursors, ih]
    rfl

/-- The visits of a whole merge. -/
theorem visits_start :
    visits fill (views.map fun v => { rest := v.points }) =
      (timeline views).map (visitAt fill views) := by
  have hstart : views.map (fun v => ({ rest := v.points } : Cursor)) =
      views.map (View.cursor fun _ => false) :=
    List.map_congr_left fun v _ => v.cursor_none.symm
  have h := visits_cursors fill views (fun _ => false) (by simp)
  rwa [← hstart, List.filter_eq_self.2 (by simp)] at h

end

/-! ## The run -/

section
variable {σ : Type} (a : Aggregator σ) (fill : Option Interpolation)

/-- One step of a merge visits the earliest time to come. -/
theorem drain_visit {m : Stream σ} {t : Timestamp} (ht : earliest? m.cursors = some t) :
    drain a fill m = match a.step m.state t (contributions fill t m.cursors) with
      | (some v, state) => ⟨t, v⟩ :: drain a fill ⟨advance fill t m.cursors, state⟩
      | (none, state) => drain a fill ⟨advance fill t m.cursors, state⟩ := by
  have hn : next? a fill m = _ := next?_of_some ht
  cases hs : a.step m.state t (contributions fill t m.cursors) with
  | mk out state =>
    rw [hs] at hn
    cases out with
    | some v => exact drain_of_some hn
    | none => exact drain_congr hn

/-- A merge runs its aggregator over the visits of its cursors. -/
theorem drain_eq_run (cs : List Cursor) (state : σ) :
    drain a fill ⟨cs, state⟩ = a.runFrom state ((visits fill cs).map Visit.row) := by
  fun_induction visits fill cs generalizing state with
  | case1 cs h =>
    rw [drain_of_none (next?_of_none h)]
    rfl
  | case2 cs t h ih =>
    have hrow : contributions fill t cs =
        (cs.map fun c => (c.visit fill t).1).filterMap id := by
      rw [List.filterMap_map]
      rfl
    rw [drain_visit a fill h, List.map_cons, Aggregator.runFrom_cons]
    simp only [Visit.row, hrow]
    cases a.step state t ((cs.map fun c => (c.visit fill t).1).filterMap id) with
    | mk out next =>
      cases out with
      | some v => simp only [ih]
      | none => simp only [ih]

variable (views : List View)

theorem points_eq_run : points a fill views = a.run (rows fill views) := by
  have hrows : (visits fill (views.map fun v => { rest := v.points })).map Visit.row =
      rows fill views := by
    rw [visits_start, List.map_map]
    exact List.map_congr_left fun t _ => row_visitAt fill views t
  unfold points start Aggregator.run
  rw [drain_eq_run, hrows]

/-- A merge calls its aggregator once for each time of the timeline, in ascending order, with what
the views contribute there, which is never nothing; its points are the answers that are one. -/
theorem points_eq_answers :
    (timeline views).Pairwise (· < ·) ∧
    (∀ t, t ∈ timeline views ↔ ∃ v ∈ views, t ∈ v.times) ∧
    (∀ t ∈ timeline views, contributionsAt fill views t ≠ []) ∧
    points a fill views = ((rows fill views).zip (a.answers a.initial (rows fill views))).filterMap
      fun e => e.2.map (Point.mk e.1.timestamp) := by
  refine ⟨pairwise_timeline views, fun t => mem_timeline, fun t => contributionsAt_ne_nil, ?_⟩
  rw [points_eq_run, Aggregator.run, Aggregator.runFrom_eq_answers]

end

end DerivedSeries.Merge
