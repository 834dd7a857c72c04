import DerivedSeries.Function
import DerivedSeries.Proofs.Merge.Split

/-!
# Evaluation over windows in a row

The functions that combine series look at their input to choose which views to merge, and at the
window only to cut these views (`Combining`). Where missing samples are skipped their results over two
windows in a row therefore join to the result over the window of both.
-/

namespace DerivedSeries

/-- A series holds the points of two others, all of the first before all of the second, and the
three are otherwise the same. -/
structure Series.Joins (whole front back : Series) : Prop where
  points : whole.points = front.points ++ back.points
  apart : ∀ p ∈ front.points, ∀ q ∈ back.points, p.timestamp < q.timestamp
  front_metadata : front.toMetadata = whole.toMetadata
  back_metadata : back.toMetadata = whole.toMetadata

/-- What a function that combines series returns, window by window: in every one the same error, a
blank series, or the merge of the same operands, each under its transform. -/
inductive Combining (c : Config) (result : Window → Except Error (List Series)) : Prop where
  | refused (e : Error) : (∀ w, result w = .error e) → Combining c result
  | blank : (∀ w, w.start ≤ w.stop → result w = .ok [{}]) → Combining c result
  | merged (name : String) (f : List Sample → Option Sample) (first : Series)
    (ops : List (Series × Transform)) :
    (∀ w, w.start ≤ w.stop → result w =
      .ok [Combine.merged (.pure name f) c first (ops.map fun o => o.1.view w o.2)]) →
    Combining c result

namespace Combine

variable {c : Config} (name : String) (f : List Sample → Option Sample) (input : Input)

theorem combining_all : Combining c fun w => (all (.pure name f) c w input).result := by
  cases input with
  | nil => exact .refused .noInput fun w => rfl
  | cons group groups =>
    cases group with
    | nil =>
      exact .blank fun w h => result_all_of_ne_nil _ (List.cons_ne_nil _ _) h
    | cons first group =>
      refine .merged name f first
        ((Input.series ((first :: group) :: groups)).map fun s => (s, .identity)) fun w h => ?_
      rw [result_all _ h, List.map_map]
      rfl

theorem combining_pair (transform : Transform) :
    Combining c fun w => (pair (.pure name f) transform c w input).result := by
  cases hops : operands input with
  | error e => exact .refused e fun w => result_pair_of_error _ transform hops
  | ok operands =>
    obtain ⟨x, y⟩ := operands
    exact .merged name f x [(x, .identity), (y, transform)] fun w h =>
      result_pair _ transform hops h

end Combine

namespace Combining

variable {c : Config} {result : Window → Except Error (List Series)} {start middle stop : Int64}

/-- Results over two windows in a row join to the result over both. -/
theorem joins (h : Combining c result) (hskip : c.skipMissing = true) {w : Window}
    {out : List Series} (hok : result w = .ok out) (hfront : start ≤ middle)
    (hback : middle ≤ stop) :
    ∃ whole front back, result ⟨start, stop⟩ = .ok [whole] ∧ result ⟨start, middle⟩ = .ok [front] ∧
      result ⟨middle, stop⟩ = .ok [back] ∧ whole.Joins front back := by
  have hfill : c.fill = none := if_pos hskip
  have hw₁ : Window.start ⟨start, middle⟩ ≤ Window.stop ⟨start, middle⟩ := Window.seconds_le hfront
  have hw₂ : Window.start ⟨middle, stop⟩ ≤ Window.stop ⟨middle, stop⟩ := Window.seconds_le hback
  have hw : Window.start ⟨start, stop⟩ ≤ Window.stop ⟨start, stop⟩ := Int64.le_trans hw₁ hw₂
  cases h with
  | refused e h => cases (h w).symm.trans hok
  | blank h =>
    refine ⟨{}, {}, {}, h _ hw, h _ hw₁, h _ hw₂, rfl, ?_, rfl, rfl⟩
    intro p hp
    cases hp
  | merged name f first ops h =>
    have hsplit : ∀ o ∈ ops, View.Split (middle / 1000) (o.1.view ⟨start, stop⟩ o.2)
        (o.1.view ⟨start, middle⟩ o.2) (o.1.view ⟨middle, stop⟩ o.2) :=
      fun o _ => o.1.split_view hfront hback o.2
    have hpoints := Merge.points_split name f hsplit
    refine ⟨_, _, _, h _ hw, h _ hw₁, h _ hw₂, ?_, ?_, ?_, ?_⟩
    · rw [Combine.points_merged, Combine.points_merged, Combine.points_merged, hfill, hpoints]
    · rw [Combine.points_merged, Combine.points_merged, hfill]
      have hasc := Merge.pairwise_points (.pure name f) none
        (ops.map fun o => o.1.view ⟨start, stop⟩ o.2)
      rw [hpoints, List.pairwise_append] at hasc
      exact hasc.2.2
    · rw [Combine.toMetadata_merged, Combine.toMetadata_merged]
    · rw [Combine.toMetadata_merged, Combine.toMetadata_merged]

end Combining

namespace Function

theorem combining_evaluate {f : Function} (hf : f ∈ [sum, multiply, difference, divide])
    (c : Config) (input : Input) (params : List String) :
    Combining c fun w => (f.evaluate c w input params).result := by
  simp only [List.mem_cons, List.not_mem_nil, or_false] at hf
  rcases hf with rfl | rfl | rfl | rfl
  · exact Combine.combining_all "sum" Aggregator.total input
  · exact Combine.combining_all "multiply" Aggregator.product input
  · exact Combine.combining_pair "sum" Aggregator.total input .negate
  · exact Combine.combining_pair "multiply" Aggregator.product input .reciprocal

/-- Where missing samples are skipped, a combination over a window is the combinations over two
windows in a row that cover it, taken together. -/
theorem evaluate_windows {f : Function} (hf : f ∈ [sum, multiply, difference, divide]) {c : Config}
    (hskip : c.skipMissing = true) {input : Input} {params : List String} {w : Window}
    {out : List Series} (hok : (f.evaluate c w input params).result = .ok out)
    {start middle stop : Int64} (hfront : start ≤ middle) (hback : middle ≤ stop) :
    ∃ whole front back, (f.evaluate c ⟨start, stop⟩ input params).result = .ok [whole] ∧
      (f.evaluate c ⟨start, middle⟩ input params).result = .ok [front] ∧
      (f.evaluate c ⟨middle, stop⟩ input params).result = .ok [back] ∧ whole.Joins front back :=
  (combining_evaluate hf c input params).joins hskip hok hfront hback

/-- Integers and doubles on both sides of time zero, some of them infinite or no number. -/
def signedTimesInput : Input :=
  [[({ metric := "x" } : Series).insertAll
      [⟨-1, .int 3⟩, ⟨2, .float Binary64.notANumber⟩, ⟨5, .int 8⟩],
    ({ metric := "y" } : Series).insertAll
      [⟨-1, .int 0⟩, ⟨2, .int 4⟩, ⟨4, .float Binary64.infinity⟩]]]

theorem evaluate_windows_within_seconds :
    ∃ whole front back,
      (divide.evaluate { skipMissing := true } ⟨-1500, 5999⟩ signedTimesInput []).result
        = .ok [whole] ∧
      (divide.evaluate { skipMissing := true } ⟨-1500, 2500⟩ signedTimesInput []).result
        = .ok [front] ∧
      (divide.evaluate { skipMissing := true } ⟨2500, 5999⟩ signedTimesInput []).result
        = .ok [back] ∧ whole.Joins front back ∧
      front.points = [⟨-1, .float Binary64.infinity⟩] ∧
      back.points = [⟨2, .float Binary64.notANumber⟩, ⟨4, .float 0⟩] := by
  have hops : Combine.operands signedTimesInput =
      .ok (signedTimesInput[0][0], signedTimesInput[0][1]) := rfl
  have hok : (divide.evaluate { skipMissing := true } ⟨-1500, 5999⟩ signedTimesInput []).result =
      .ok [_] := Combine.result_pair .multiply .reciprocal hops (by decide)
  have hfrontTimes : Merge.timeline [signedTimesInput[0][0].view ⟨-1500, 2500⟩ .identity,
      signedTimesInput[0][1].view ⟨-1500, 2500⟩ .reciprocal] = [-1] :=
    Merge.timeline_eq_of_subset (by decide) (by decide) (by decide)
  have hbackTimes : Merge.timeline [signedTimesInput[0][0].view ⟨2500, 5999⟩ .identity,
      signedTimesInput[0][1].view ⟨2500, 5999⟩ .reciprocal] = [2, 4] :=
    Merge.timeline_eq_of_subset (by decide) (by decide) (by decide)
  obtain ⟨whole, front, back, hwhole, hfront, hback, hjoins⟩ :=
    evaluate_windows (f := divide) (by decide) rfl hok (show (-1500 : Int64) ≤ 2500 by decide)
      (show (2500 : Int64) ≤ 5999 by decide)
  refine ⟨whole, front, back, hwhole, hfront, hback, hjoins, ?_, ?_⟩
  · cases hfront.symm.trans (Combine.result_pair .multiply .reciprocal hops (by decide))
    refine (Combine.points_merged_of_timeline _ hfrontTimes).trans ?_
    decide +kernel
  · cases hback.symm.trans (Combine.result_pair .multiply .reciprocal hops (by decide))
    refine (Combine.points_merged_of_timeline _ hbackTimes).trans ?_
    decide +kernel

end Function
end DerivedSeries
