import Mathlib.Data.List.Sort
import DerivedSeries.Proofs.Merge.Merged
import DerivedSeries.Proofs.Merge.Transformed

/-!
# Merges split at a time

A view is split at a time into the points before it and those from it on (`View.Split`). Where
missing samples are skipped nothing reaches across the split, so a merge of views by an aggregator
without a memory emits the points of the front views and then those of the back views
(`Merge.points_split`). Two windows in a row split what a window of both their lengths shows
(`Series.split_view`).
-/

namespace DerivedSeries

/-! ## Views -/

/-- A view is two others in a row: one has its points before a time, the other those from it on. -/
structure View.Split (m : Timestamp) (whole front back : View) : Prop where
  points : whole.points = front.points ++ back.points
  before : ∀ p ∈ front.points, p.timestamp < m
  onward : ∀ p ∈ back.points, m ≤ p.timestamp

namespace View

theorem contribution?_none (v : View) (t : Timestamp) : v.contribution? none t = v.sampleAt? t := by
  unfold contribution?
  cases v.sampleAt? t <;> rfl

theorem sampleAt?_eq_none {v : View} {t : Timestamp} (h : ∀ p ∈ v.points, p.timestamp ≠ t) :
    v.sampleAt? t = none := by
  cases hs : v.sampleAt? t with
  | none => rfl
  | some s => exact absurd rfl (h _ (mem_points_of_sampleAt? hs))

namespace Split

variable {m t : Timestamp} {whole front back : View}

theorem mem_times (h : Split m whole front back) :
    t ∈ whole.times ↔ t ∈ front.times ∨ t ∈ back.times := by
  unfold times
  rw [h.points, List.map_append, List.mem_append]

theorem sampleAt? (h : Split m whole front back) :
    whole.sampleAt? t = (front.sampleAt? t).or (back.sampleAt? t) := by
  unfold View.sampleAt?
  rw [h.points, List.find?_append, Option.map_or]

theorem sampleAt?_front (h : Split m whole front back) (ht : t < m) :
    whole.sampleAt? t = front.sampleAt? t := by
  have hback : back.sampleAt? t = none := sampleAt?_eq_none fun p hp he =>
    Int64.lt_irrefl (Int64.lt_of_lt_of_le (he ▸ ht) (h.onward p hp))
  rw [h.sampleAt?, hback, Option.or_none]

theorem sampleAt?_back (h : Split m whole front back) (ht : m ≤ t) :
    whole.sampleAt? t = back.sampleAt? t := by
  have hfront : front.sampleAt? t = none := sampleAt?_eq_none fun p hp he =>
    Int64.lt_irrefl (Int64.lt_of_lt_of_le (h.before p hp) (he ▸ ht))
  rw [h.sampleAt?, hfront, Option.none_or]

theorem map (h : Split m whole front back) (f : Sample → Sample) :
    Split m (whole.map f) (front.map f) (back.map f) where
  points := by
    simp only [points_map, h.points, List.map_append]
  before p hp := by
    obtain ⟨q, hq, rfl⟩ := List.mem_map.1 hp
    exact h.before q hq
  onward p hp := by
    obtain ⟨q, hq, rfl⟩ := List.mem_map.1 hp
    exact h.onward q hq

end Split
end View

/-! ## Merges -/

namespace Merge

section
variable {α : Type} {m t : Timestamp} {whole front back : α → View} {ops : List α}

theorem exists_point_of_mem_timeline (f : α → View) (ht : t ∈ timeline (ops.map f)) :
    ∃ o ∈ ops, ∃ p ∈ (f o).points, p.timestamp = t := by
  obtain ⟨v, hv, ht⟩ := mem_timeline.1 ht
  obtain ⟨o, ho, rfl⟩ := List.mem_map.1 hv
  exact ⟨o, ho, View.mem_times.1 ht⟩

theorem lt_of_mem_timeline_front (h : ∀ o ∈ ops, View.Split m (whole o) (front o) (back o))
    (ht : t ∈ timeline (ops.map front)) : t < m := by
  obtain ⟨o, ho, p, hp, rfl⟩ := exists_point_of_mem_timeline front ht
  exact (h o ho).before p hp

theorem le_of_mem_timeline_back (h : ∀ o ∈ ops, View.Split m (whole o) (front o) (back o))
    (ht : t ∈ timeline (ops.map back)) : m ≤ t := by
  obtain ⟨o, ho, p, hp, rfl⟩ := exists_point_of_mem_timeline back ht
  exact (h o ho).onward p hp

theorem timeline_split (h : ∀ o ∈ ops, View.Split m (whole o) (front o) (back o)) :
    timeline (ops.map whole) = timeline (ops.map front) ++ timeline (ops.map back) := by
  have hmem : ∀ t, t ∈ timeline (ops.map whole) ↔
      t ∈ timeline (ops.map front) ++ timeline (ops.map back) := by
    intro t
    simp only [List.mem_append, mem_timeline, List.mem_map, exists_exists_and_eq_and]
    constructor
    · rintro ⟨o, ho, ht⟩
      exact ((h o ho).mem_times.1 ht).imp (⟨o, ho, ·⟩) (⟨o, ho, ·⟩)
    · rintro (⟨o, ho, ht⟩ | ⟨o, ho, ht⟩)
      · exact ⟨o, ho, (h o ho).mem_times.2 (.inl ht)⟩
      · exact ⟨o, ho, (h o ho).mem_times.2 (.inr ht)⟩
  have hasc : (timeline (ops.map front) ++ timeline (ops.map back)).Pairwise (· < ·) := by
    refine List.pairwise_append.2 ⟨pairwise_timeline _, pairwise_timeline _, ?_⟩
    intro s hs t ht
    exact Int64.lt_of_lt_of_le (lt_of_mem_timeline_front h hs) (le_of_mem_timeline_back h ht)
  exact (pairwise_timeline _).eq_of_mem_iff hasc hmem

/-- Views that show the same at a time contribute the same to a merge without estimates. -/
theorem contributionsAt_none_congr {f g : α → View}
    (h : ∀ o ∈ ops, (f o).sampleAt? t = (g o).sampleAt? t) :
    contributionsAt none (ops.map f) t = contributionsAt none (ops.map g) t := by
  unfold contributionsAt
  rw [List.filterMap_map, List.filterMap_map]
  refine List.filterMap_congr fun o ho => ?_
  simp only [Function.comp_apply, View.contribution?_none, h o ho]

/-- Where missing samples are skipped, a merge is that of the front views, and then that of the back
views. -/
theorem points_split (name : String) (f : List Sample → Option Sample)
    (h : ∀ o ∈ ops, View.Split m (whole o) (front o) (back o)) :
    points (.pure name f) none (ops.map whole) =
      points (.pure name f) none (ops.map front) ++ points (.pure name f) none (ops.map back) := by
  rw [points_pure, points_pure, points_pure, timeline_split h, List.filterMap_append]
  congr 1
  · refine List.filterMap_congr fun t ht => ?_
    have hlt : t < m := lt_of_mem_timeline_front h ht
    rw [contributionsAt_none_congr fun o ho => (h o ho).sampleAt?_front hlt]
  · refine List.filterMap_congr fun t ht => ?_
    have hle : m ≤ t := le_of_mem_timeline_back h ht
    rw [contributionsAt_none_congr fun o ho => (h o ho).sampleAt?_back hle]

end
end Merge

/-! ## Windows -/

namespace Window

variable {a b c : Int64} {t : Timestamp}

theorem contains_of_lt (hbc : b ≤ c) (ht : t < b / 1000) :
    contains ⟨a, c⟩ t = contains ⟨a, b⟩ t := by
  have hstop : t < c / 1000 := Int64.lt_of_lt_of_le ht (seconds_le hbc)
  rw [Bool.eq_iff_iff, contains_iff, contains_iff]
  exact and_congr_right fun _ => iff_of_true hstop ht

theorem contains_of_le (hab : a ≤ b) (ht : b / 1000 ≤ t) :
    contains ⟨a, c⟩ t = contains ⟨b, c⟩ t := by
  have hstart : a / 1000 ≤ t := Int64.le_trans (seconds_le hab) ht
  rw [Bool.eq_iff_iff, contains_iff, contains_iff]
  exact and_congr_left fun _ => iff_of_true hstart ht

theorem not_contains_of_lt (ht : t < b / 1000) : ¬ contains ⟨b, c⟩ t = true := fun h =>
  Int64.not_le.2 ht (contains_iff.1 h).1

theorem not_contains_of_le (ht : b / 1000 ≤ t) : ¬ contains ⟨a, b⟩ t = true := fun h =>
  Int64.not_lt.2 ht (contains_iff.1 h).2

end Window

namespace Series

variable {a b c : Int64}

/-- What a window shows is what two windows in a row show that cover it. -/
theorem within_split (hab : a ≤ b) (hbc : b ≤ c) (s : Series) :
    s.within ⟨a, c⟩ = s.within ⟨a, b⟩ ++ s.within ⟨b, c⟩ := by
  have hcut : ∃ front back, s.points = front ++ back ∧
      (∀ p ∈ front, p.timestamp < b / 1000) ∧ ∀ p ∈ back, b / 1000 ≤ p.timestamp :=
    (View.ofMap id s.samples).exists_cut (b / 1000)
  obtain ⟨front, back, hpoints, hfront, hback⟩ := hcut
  have hac : s.within ⟨a, c⟩ = front.filter (fun p => Window.contains ⟨a, b⟩ p.timestamp) ++
      back.filter fun p => Window.contains ⟨b, c⟩ p.timestamp := by
    unfold within
    rw [hpoints, List.filter_append,
      List.filter_congr fun p hp => Window.contains_of_lt hbc (hfront p hp),
      List.filter_congr fun p hp => Window.contains_of_le hab (hback p hp)]
  have hab : s.within ⟨a, b⟩ = front.filter fun p => Window.contains ⟨a, b⟩ p.timestamp := by
    unfold within
    rw [hpoints, List.filter_append,
      List.filter_eq_nil_iff.2 fun p hp => Window.not_contains_of_le (hback p hp), List.append_nil]
  have hbc : s.within ⟨b, c⟩ = back.filter fun p => Window.contains ⟨b, c⟩ p.timestamp := by
    unfold within
    rw [hpoints, List.filter_append,
      List.filter_eq_nil_iff.2 fun p hp => Window.not_contains_of_lt (hfront p hp), List.nil_append]
  rw [hac, hab, hbc]

theorem split_view (hab : a ≤ b) (hbc : b ≤ c) (t : Transform) (s : Series) :
    View.Split (b / 1000) (s.view ⟨a, c⟩ t) (s.view ⟨a, b⟩ t) (s.view ⟨b, c⟩ t) := by
  have hidentity : View.Split (b / 1000) (s.view ⟨a, c⟩ .identity) (s.view ⟨a, b⟩ .identity)
      (s.view ⟨b, c⟩ .identity) := by
    refine ⟨?_, fun p hp => ?_, fun p hp => ?_⟩
    · rw [points_view, points_view, points_view, within_split hab hbc]
    · rw [points_view] at hp
      exact (Window.contains_iff.1 (List.mem_filter.1 hp).2).2
    · rw [points_view] at hp
      exact (Window.contains_iff.1 (List.mem_filter.1 hp).2).1
  rw [s.view_eq_map ⟨a, c⟩, s.view_eq_map ⟨a, b⟩, s.view_eq_map ⟨b, c⟩]
  exact hidentity.map t.apply

end Series
end DerivedSeries
