import DerivedSeries.Aggregator
import DerivedSeries.Interpolation
import DerivedSeries.View

/-!
# Merging

Merging walks all the times of several views in ascending order. At each time a view contributes
its own sample, or, strictly between two of its samples, an estimate; before its first and after
its last sample it contributes nothing, and where missing samples are skipped there are no
estimates. An aggregator reduces what the views contribute at one time, in their order.

A merge keeps one cursor on each view, moves them together, and yields its points one by one.
-/

namespace DerivedSeries

/-- A place in a view: the last point passed, and the points to come. -/
structure Cursor where
  last? : Option Point := none
  rest : List Point

namespace Cursor

/-- The time of the next point. -/
def next? (c : Cursor) : Option Timestamp :=
  c.rest.head?.map Point.timestamp

/-- What the view contributes at a time that is not past its next point, and the cursor beyond that
time. -/
def visit (fill : Option Interpolation) (t : Timestamp) (c : Cursor) : Option Sample × Cursor :=
  match c.rest with
  | [] => (none, c)
  | p :: ps =>
    if p.timestamp = t then (some p.value, ⟨some p, ps⟩)
    else
      let estimate := do return (← fill).between (← c.last?) p t
      (estimate, c)

theorem length_rest_visit_le (fill : Option Interpolation) (t : Timestamp) (c : Cursor) :
    (c.visit fill t).2.rest.length ≤ c.rest.length := by
  unfold visit
  split
  · exact Nat.le_refl _
  · rename_i h
    split
    · simp [h]
    · exact Nat.le_refl _

theorem length_rest_visit_lt {fill : Option Interpolation} {t : Timestamp} {c : Cursor}
    (h : c.next? = some t) : (c.visit fill t).2.rest.length < c.rest.length := by
  obtain ⟨last?, rest⟩ := c
  cases rest with
  | nil => simp [next?] at h
  | cons p ps =>
    have hp : p.timestamp = t := by simpa [next?] using h
    simp [visit, hp]

end Cursor

namespace Merge

/-- The earliest time that any cursor has still to pass. -/
def earliest? (cs : List Cursor) : Option Timestamp :=
  (cs.filterMap Cursor.next?).min?

/-- The number of points that the cursors have still to pass. -/
def remaining (cs : List Cursor) : Nat :=
  cs.foldr (fun c n => c.rest.length + n) 0

/-- What the views contribute at a time, in their order. -/
def contributions (fill : Option Interpolation) (t : Timestamp) (cs : List Cursor) : List Sample :=
  cs.filterMap fun c => (c.visit fill t).1

/-- The cursors moved beyond a time. -/
def advance (fill : Option Interpolation) (t : Timestamp) (cs : List Cursor) : List Cursor :=
  cs.map fun c => (c.visit fill t).2

theorem exists_of_earliest? {cs : List Cursor} {t : Timestamp} (h : earliest? cs = some t) :
    ∃ c ∈ cs, c.next? = some t :=
  List.mem_filterMap.1 (List.min?_mem h)

theorem remaining_visit_le (fill : Option Interpolation) (t : Timestamp) (cs : List Cursor) :
    remaining (advance fill t cs) ≤ remaining cs := by
  unfold remaining advance
  induction cs with
  | nil => exact Nat.le_refl _
  | cons c cs ih =>
    simp only [List.map_cons, List.foldr_cons]
    exact Nat.add_le_add (c.length_rest_visit_le fill t) ih

theorem remaining_visit_lt {fill : Option Interpolation} {t : Timestamp} {cs : List Cursor}
    (h : ∃ c ∈ cs, c.next? = some t) :
    remaining (advance fill t cs) < remaining cs := by
  induction cs with
  | nil => simp at h
  | cons c cs ih =>
    have hle := remaining_visit_le fill t cs
    have hc := c.length_rest_visit_le fill t
    simp only [remaining, advance, List.map_cons, List.foldr_cons] at hle ih ⊢
    obtain ⟨d, hd, ht⟩ := h
    rcases List.mem_cons.1 hd with rfl | hd
    · have : (d.visit fill t).2.rest.length < d.rest.length := Cursor.length_rest_visit_lt ht
      omega
    · have := ih ⟨d, hd, ht⟩
      omega

/-- A merge under way: the cursors on its views, and the state of its aggregator. -/
structure Stream (σ : Type) where
  cursors : List Cursor
  state : σ

section
variable {σ : Type} {a : Aggregator σ} {fill : Option Interpolation} {m n : Stream σ}

/-- The next point of a merge, and the merge after it. Times at which the aggregator answers
nothing are passed over. -/
def next? (a : Aggregator σ) (fill : Option Interpolation) (m : Stream σ) :
    Option (Point × Stream σ) :=
  match _next : earliest? m.cursors with
  | none => none
  | some t =>
    match a.step m.state t (contributions fill t m.cursors) with
    | (some v, state) => some (⟨t, v⟩, ⟨advance fill t m.cursors, state⟩)
    | (none, state) => next? a fill ⟨advance fill t m.cursors, state⟩
termination_by remaining m.cursors
decreasing_by exact remaining_visit_lt (exists_of_earliest? _next)

theorem remaining_of_next? {p : Point} (h : next? a fill m = some (p, n)) :
    remaining n.cursors < remaining m.cursors := by
  fun_induction next? a fill m with
  | case1 => cases h
  | case2 m t ht v state hstep =>
    cases h
    exact remaining_visit_lt (exists_of_earliest? ht)
  | case3 m t ht state hstep ih =>
    exact Nat.lt_trans (ih h) (remaining_visit_lt (exists_of_earliest? ht))

theorem next?_of_none (h : earliest? m.cursors = none) : next? a fill m = none := by
  unfold next?
  split
  · rfl
  · rename_i ht
    rw [h] at ht
    cases ht

theorem next?_of_some {t : Timestamp} (h : earliest? m.cursors = some t) :
    next? a fill m = match a.step m.state t (contributions fill t m.cursors) with
      | (some v, state) => some (⟨t, v⟩, ⟨advance fill t m.cursors, state⟩)
      | (none, state) => next? a fill ⟨advance fill t m.cursors, state⟩ := by
  rw [next?]
  split
  · rename_i ht
    rw [h] at ht
    cases ht
  · rename_i u hu
    rw [h] at hu
    cases hu
    rfl

/-- The points of a merge, up to its end. -/
def drain (a : Aggregator σ) (fill : Option Interpolation) (m : Stream σ) : List Point :=
  match _next : next? a fill m with
  | none => []
  | some (p, n) => p :: drain a fill n
termination_by remaining m.cursors
decreasing_by exact remaining_of_next? _next

theorem drain_of_none (h : next? a fill m = none) : drain a fill m = [] := by
  rw [drain]
  split
  · rfl
  · rename_i hn
    rw [h] at hn
    cases hn

theorem drain_of_some {p : Point} (h : next? a fill m = some (p, n)) :
    drain a fill m = p :: drain a fill n := by
  rw [drain]
  split
  · rename_i hn
    rw [h] at hn
    cases hn
  · rename_i hn
    rw [h] at hn
    cases hn
    rfl

theorem drain_congr (h : next? a fill m = next? a fill n) : drain a fill m = drain a fill n := by
  cases hn : next? a fill n with
  | none => rw [drain_of_none hn, drain_of_none (h.trans hn)]
  | some r => rw [drain_of_some hn, drain_of_some (h.trans hn)]

/-- A merge of views before its first point. -/
def start (a : Aggregator σ) (views : List View) : Stream σ :=
  ⟨views.map fun v => { rest := v.points }, a.initial⟩

/-- The points that an aggregator makes of views, `fill` being the policy for missing samples if
they are not skipped. -/
def points (a : Aggregator σ) (fill : Option Interpolation) (views : List View) : List Point :=
  drain a fill (start a views)

end
end Merge
end DerivedSeries
