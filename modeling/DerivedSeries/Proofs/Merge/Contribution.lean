import Mathlib.Data.List.Nodup
import DerivedSeries.Merge

/-!
# Contributions

What a view contributes at a time, read off its points: its own sample there, or else, where
missing samples are filled, the estimate from the last point before and the first point after.
`View.Offers` is the same as a relation (`View.offers_of_contribution?`).

`View.cursor` is the cursor that has passed the points at past times. Visiting a time answers the
contribution at it and leaves the cursor that has passed it (`View.visit_cursor`).
-/

namespace DerivedSeries

namespace View

/-- The times at which a view has a sample. -/
def times (v : View) : List Timestamp := v.points.map Point.timestamp

/-- The sample of a view at a time. -/
def sampleAt? (v : View) (t : Timestamp) : Option Sample :=
  (v.points.find? fun p => p.timestamp = t).map Point.value

/-- The last point before a time. -/
def before? (v : View) (t : Timestamp) : Option Point :=
  (v.points.filter fun p => p.timestamp < t).getLast?

/-- The first point after a time. -/
def after? (v : View) (t : Timestamp) : Option Point :=
  v.points.find? fun p => t < p.timestamp

/-- What a view contributes at a time. -/
def contribution? (fill : Option Interpolation) (t : Timestamp) (v : View) : Option Sample :=
  match v.sampleAt? t with
  | some s => some s
  | none => do return (← fill).between (← v.before? t) (← v.after? t) t

/-- The cursor that has passed the points at past times. -/
def cursor (past : Timestamp → Bool) (v : View) : Cursor where
  last? := (v.points.filter fun p => past p.timestamp).getLast?
  rest := v.points.filter fun p => !past p.timestamp

theorem pairwise_points (v : View) :
    v.points.Pairwise fun a b => a.timestamp < b.timestamp :=
  v.ascending.imp Std.compare_eq_lt.1

theorem pairwise_times (v : View) : v.times.Pairwise (· < ·) :=
  List.pairwise_map.2 v.pairwise_points

theorem mem_times {v : View} {t : Timestamp} : t ∈ v.times ↔ ∃ p ∈ v.points, p.timestamp = t :=
  List.mem_map

/-- A time cuts the points of a view in two. -/
theorem exists_cut (v : View) (t : Timestamp) : ∃ front back, v.points = front ++ back ∧
    (∀ p ∈ front, p.timestamp < t) ∧ (∀ p ∈ back, t ≤ p.timestamp) := by
  have h := v.pairwise_points
  generalize v.points = ps at h
  induction ps with
  | nil => exact ⟨[], [], rfl, by simp, by simp⟩
  | cons p ps ih =>
    obtain ⟨hp, hps⟩ := List.pairwise_cons.1 h
    by_cases hpt : p.timestamp < t
    · obtain ⟨front, back, rfl, hf, hb⟩ := ih hps
      exact ⟨p :: front, back, rfl, by simpa using ⟨hpt, hf⟩, hb⟩
    · refine ⟨[], p :: ps, rfl, by simp, ?_⟩
      have htp : t ≤ p.timestamp := Int64.not_lt.1 hpt
      simpa using ⟨htp, fun q hq => Int64.le_trans htp (Int64.le_of_lt (hp q hq))⟩

theorem cursor_of_cut (past : Timestamp → Bool) {v : View} {front back : List Point}
    (hv : v.points = front ++ back) (hf : ∀ p ∈ front, past p.timestamp = true)
    (hb : ∀ p ∈ back, past p.timestamp = false) : v.cursor past = ⟨front.getLast?, back⟩ := by
  have h1 : (front ++ back).filter (fun p => past p.timestamp) = front := by
    rw [List.filter_append, List.filter_eq_self.2 hf,
      List.filter_eq_nil_iff.2 (by simpa using hb), List.append_nil]
  have h2 : (front ++ back).filter (fun p => !past p.timestamp) = back := by
    rw [List.filter_append, List.filter_eq_nil_iff.2 (by simpa using hf),
      List.filter_eq_self.2 (by simpa using hb), List.nil_append]
  unfold cursor
  rw [hv, h1, h2]

/-- A cursor only depends on which of the view's own times are past. -/
theorem cursor_congr {v : View} {past gone : Timestamp → Bool}
    (h : ∀ t ∈ v.times, past t = gone t) : v.cursor past = v.cursor gone := by
  have hp : ∀ p ∈ v.points, past p.timestamp = gone p.timestamp :=
    fun p hp => h _ (mem_times.2 ⟨p, hp, rfl⟩)
  have h1 : v.points.filter (fun p => past p.timestamp) =
      v.points.filter fun p => gone p.timestamp := List.filter_congr hp
  have h2 : v.points.filter (fun p => !past p.timestamp) =
      v.points.filter fun p => !gone p.timestamp :=
    List.filter_congr fun p hm => by rw [hp p hm]
  unfold cursor
  rw [h1, h2]

theorem cursor_none (v : View) : v.cursor (fun _ => false) = { rest := v.points } := by
  have hv : v.points = [] ++ v.points := rfl
  exact cursor_of_cut _ hv (by simp) (by simp)

theorem isSome_sampleAt? {v : View} {t : Timestamp} (h : t ∈ v.times) :
    (v.sampleAt? t).isSome := by
  obtain ⟨p, hp, rfl⟩ := mem_times.1 h
  simp only [sampleAt?, Option.isSome_map, List.find?_isSome]
  exact ⟨p, hp, by simp⟩

theorem mem_points_of_sampleAt? {v : View} {t : Timestamp} {s : Sample}
    (h : v.sampleAt? t = some s) : ⟨t, s⟩ ∈ v.points := by
  obtain ⟨p, hp, rfl⟩ := Option.map_eq_some_iff.1 h
  have ht : p.timestamp = t := of_decide_eq_true (List.find?_some hp :)
  exact ht ▸ List.mem_of_find?_eq_some hp

/-- A view has one sample at a time. -/
theorem sampleAt?_of_mem {v : View} {p : Point} (h : p ∈ v.points) :
    v.sampleAt? p.timestamp = some p.value := by
  obtain ⟨s, hs⟩ := Option.isSome_iff_exists.1 (isSome_sampleAt? (mem_times.2 ⟨p, h, rfl⟩))
  have hnodup : (v.points.map Point.timestamp).Nodup := v.pairwise_times.imp Int64.ne_of_lt
  have heq := List.inj_on_of_nodup_map hnodup (mem_points_of_sampleAt? hs) h rfl
  rw [hs, ← heq]

theorem contribution?_of_mem (fill : Option Interpolation) {v : View} {p : Point}
    (h : p ∈ v.points) : v.contribution? fill p.timestamp = some p.value := by
  rw [contribution?, sampleAt?_of_mem h]

/-! ## Where a contribution comes from -/

/-- A view has a sample at a time, its own or an estimate between two of its points. -/
inductive Offers (fill : Option Interpolation) (v : View) (t : Timestamp) : Sample → Prop where
  | own {s : Sample} : ⟨t, s⟩ ∈ v.points → Offers fill v t s
  | estimate {policy : Interpolation} {a b : Point} : fill = some policy →
    a ∈ v.points → b ∈ v.points → a.timestamp < t → t < b.timestamp →
    Offers fill v t (policy.between a b t)

section
variable {fill : Option Interpolation} {v : View} {t : Timestamp}

theorem mem_of_before? {p : Point} (h : v.before? t = some p) :
    p ∈ v.points ∧ p.timestamp < t := by
  simpa using List.mem_of_getLast? h

theorem mem_of_after? {p : Point} (h : v.after? t = some p) : p ∈ v.points ∧ t < p.timestamp :=
  ⟨List.mem_of_find?_eq_some h, of_decide_eq_true (List.find?_some h :)⟩

theorem offers_of_contribution? {s : Sample} (h : v.contribution? fill t = some s) :
    v.Offers fill t s := by
  unfold contribution? at h
  cases hown : v.sampleAt? t with
  | some r =>
    rw [hown] at h
    cases h
    exact .own (mem_points_of_sampleAt? hown)
  | none =>
    simp only [hown, Option.bind_eq_bind, Option.bind_eq_some_iff, Option.pure_def,
      Option.some.injEq] at h
    obtain ⟨policy, hpolicy, a, ha, b, hb, rfl⟩ := h
    obtain ⟨ha, hat⟩ := mem_of_before? ha
    obtain ⟨hb, htb⟩ := mem_of_after? hb
    exact .estimate hpolicy ha hb hat htb

end

/-! ## Visits -/

section Cut
variable {v : View} {t : Timestamp} {front back : List Point}

theorem sampleAt?_of_cut (hv : v.points = front ++ back) (hf : ∀ p ∈ front, p.timestamp < t) :
    v.sampleAt? t = (back.find? fun p => p.timestamp = t).map Point.value := by
  have hn : front.find? (fun p => p.timestamp = t) = none := by
    rw [List.find?_eq_none]
    intro p hp he
    exact Int64.lt_irrefl ((of_decide_eq_true he) ▸ hf p hp)
  rw [sampleAt?, hv, List.find?_append, hn, Option.none_or]

theorem before?_of_cut (hv : v.points = front ++ back) (hf : ∀ p ∈ front, p.timestamp < t)
    (hb : ∀ p ∈ back, t ≤ p.timestamp) : v.before? t = front.getLast? := by
  have h := cursor_of_cut (fun u => u < t) hv (by simpa using hf) (by simpa using hb)
  exact congrArg Cursor.last? h

theorem after?_of_cut (hv : v.points = front ++ back) (hf : ∀ p ∈ front, p.timestamp < t) :
    v.after? t = back.find? fun p => t < p.timestamp := by
  have hn : front.find? (fun p => t < p.timestamp) = none := by
    rw [List.find?_eq_none]
    intro p hp ht
    exact Int64.lt_irrefl (Int64.lt_trans (hf p hp) (of_decide_eq_true ht))
  rw [after?, hv, List.find?_append, hn, Option.none_or]

end Cut

/-- Visiting a time answers the contribution at it and passes it. -/
theorem visit_cursor (fill : Option Interpolation) (t : Timestamp) (v : View) :
    (v.cursor fun u => u < t).visit fill t = (v.contribution? fill t, v.cursor fun u => u ≤ t) := by
  obtain ⟨front, back, hv, hf, hb⟩ := v.exists_cut t
  have hle : ∀ p ∈ front, decide (p.timestamp ≤ t) = true := by
    simpa using fun p hp => Int64.le_of_lt (hf p hp)
  rw [cursor_of_cut _ hv (by simpa using hf) (by simpa using hb)]
  unfold contribution?
  rw [sampleAt?_of_cut hv hf, before?_of_cut hv hf hb, after?_of_cut hv hf]
  cases back with
  | nil =>
    rw [cursor_of_cut (fun u => u ≤ t) hv hle (by simp)]
    cases fill <;> cases front.getLast? <;> rfl
  | cons p ps =>
    -- the points after `p` are later than `p`, and `p` is not before `t`
    have hps : ∀ q ∈ ps, p.timestamp < q.timestamp := by
      have h := v.pairwise_points
      rw [hv, List.pairwise_append, List.pairwise_cons] at h
      exact h.2.1.1
    by_cases hp : p.timestamp = t
    · have hlt : ∀ q ∈ ps, decide (q.timestamp ≤ t) = false := by
        simpa [← hp] using hps
      have hv : v.points = (front ++ [p]) ++ ps := by simpa using hv
      rw [cursor_of_cut (fun u => u ≤ t) hv (by simpa [hp, or_imp, forall_and] using hle) hlt]
      simp [Cursor.visit, hp]
    · have htp : t < p.timestamp := Int64.lt_of_le_of_ne (hb p (by simp)) (Ne.symm hp)
      have hgt : ∀ q ∈ p :: ps, decide (q.timestamp ≤ t) = false := by
        simpa using ⟨htp, fun q hq => Int64.lt_trans htp (hps q hq)⟩
      have hne : (p :: ps).find? (fun q => q.timestamp = t) = none := by
        rw [List.find?_eq_none]
        intro q hq he
        have := hgt q hq
        simp [of_decide_eq_true he] at this
      rw [cursor_of_cut (fun u => u ≤ t) hv hle hgt, hne]
      simp [Cursor.visit, hp, htp]

end View
end DerivedSeries
