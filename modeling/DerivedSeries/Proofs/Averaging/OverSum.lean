import DerivedSeries.Function
import DerivedSeries.Proofs.Averaging.Run
import DerivedSeries.Proofs.Merge.Merged

/-!
# Moving averages over sums

A moving average of an input stands to the sum of the same input, in the same window and under the
same configuration, point by point as its span says: over a duration by the times of the sums, over
a count by their positions. Where one of the two is refused so is the other.
-/

namespace DerivedSeries

open DerivedSeries.Span

namespace Span

variable {ps : List Point} {j : Nat} {p : Point}

theorem take_eq_concat (h : ps[j]? = some p) : ps.take (j + 1) = ps.take j ++ [p] := by
  rw [List.take_add_one, h]
  rfl

theorem reach_milliseconds_take (n : Int64) (h : ps[j]? = some p) :
    (milliseconds n).reach (ps.take (j + 1)) =
      (ps.take (j + 1)).filter fun q => gap q.timestamp p.timestamp ≤ n.toInt := by
  rw [take_eq_concat h, reach_milliseconds_concat]

theorem full_milliseconds_take (n : Int64) {first : Point} (hfirst : ps[0]? = some first)
    (h : ps[j]? = some p) :
    (milliseconds n).Full (ps.take (j + 1)) ↔ n.toInt ≤ gap first.timestamp p.timestamp := by
  rw [take_eq_concat h, full_milliseconds_concat]
  cases j with
  | zero =>
    cases hfirst.symm.trans h
    rfl
  | succ j =>
    rw [List.head?_take, if_neg (Nat.succ_ne_zero j), List.head?_eq_getElem?, hfirst]
    rfl

theorem length_take_of_getElem? (h : ps[j]? = some p) : (ps.take (j + 1)).length = j + 1 := by
  obtain ⟨hlt, -⟩ := List.getElem?_eq_some_iff.1 h
  exact List.length_take_of_le hlt

theorem reach_samples_take (n : Int64) (h : ps[j]? = some p) :
    (samples n).reach (ps.take (j + 1)) = (ps.take (j + 1)).drop (j + 1 - n.toInt.toNat) := by
  rw [reach, length_take_of_getElem? h]

theorem full_samples_take (n : Int64) (h : ps[j]? = some p) :
    (samples n).Full (ps.take (j + 1)) ↔ n.toInt ≤ j + 1 := by
  rw [Full, length_take_of_getElem? h]
  rfl

end Span

namespace Combine

/-- Points that stand at each other's times, one for one. -/
theorem times_eq {ps out : List Point} (hlen : out.length = ps.length)
    (h : ∀ (j : Nat) (p : Point), ps[j]? = some p → ∃ v, out[j]? = some ⟨p.timestamp, v⟩) :
    out.map Point.timestamp = ps.map Point.timestamp := by
  refine List.ext_getElem? fun j => ?_
  rw [List.getElem?_map, List.getElem?_map]
  cases hp : ps[j]? with
  | none =>
    have hle : out.length ≤ j := hlen ▸ List.getElem?_eq_none_iff.1 hp
    rw [List.getElem?_eq_none hle]
  | some p =>
    obtain ⟨v, hv⟩ := h j p hp
    rw [hv]
    rfl

variable {params : List String} {span : Span}

/-- The points of a moving average are those of the sum, smoothed one by one. -/
theorem smooth_over_sum (hspan : ofParams params = .ok span) (c : Config) {w : Window}
    (h : w.start ≤ w.stop) (first : Series) (group : List Series) (groups : Input) :
    ∃ s out, (all .sum c w ((first :: group) :: groups)).result = .ok [s] ∧
      (smooth c w ((first :: group) :: groups) params).result = .ok [out] ∧
      out.toMetadata = first.toMetadata ∧
      out.points.map Point.timestamp = s.points.map Point.timestamp ∧
      ∀ j p q, s.points[j]? = some p → out.points[j]? = some q →
        Smoothed span (s.points.take (j + 1)) p.value q.value := by
  refine ⟨_, _, result_all _ h, result_smooth hspan h, toMetadata_merged _ _, ?_⟩
  rw [points_merged, points_merged]
  have hasc := Merge.pairwise_points .sum c.fill (viewsOf w ((first :: group) :: groups))
  have hsums : Merge.points (.movingAverage span) c.fill (viewsOf w ((first :: group) :: groups)) =
      (Aggregator.movingAverage span).runFrom {} (Aggregator.rowsOf
        (Merge.points .sum c.fill (viewsOf w ((first :: group) :: groups)))) := by
    rw [Merge.points_eq_run, Merge.points_eq_run]
    exact Aggregator.runFrom_movingAverage span _ _
  have hlegal : span.Legal := legal_of_ofParams hspan
  obtain ⟨hlen, hpoints⟩ := Aggregator.runFrom_sums hlegal (History.tracks_nil hlegal) hasc
  rw [hsums]
  refine ⟨times_eq hlen fun j p hp => ?_, fun j p q hp hq => ?_⟩
  · obtain ⟨v, hv, -⟩ := hpoints j p hp
    exact ⟨v, hv⟩
  · obtain ⟨v, hv, hsmooth⟩ := hpoints j p hp
    cases hv.symm.trans hq
    exact hsmooth

end Combine

/-- Averages of sums over a duration: zeros until the sums span it, and from then on the mean of the
sums that are no further back. -/
structure OverDuration (length : Int64) (sums averages : List Point) : Prop where
  times : averages.map Point.timestamp = sums.map Point.timestamp
  zero : ∀ (j : Nat) (first p q : Point), sums[0]? = some first → sums[j]? = some p →
    averages[j]? = some q → gap first.timestamp p.timestamp < length.toInt →
      q.value = p.value.zeroLike
  mean : ∀ (j : Nat) (first p q : Point), sums[0]? = some first → sums[j]? = some p →
    averages[j]? = some q → length.toInt ≤ gap first.timestamp p.timestamp →
      Mean (((sums.take (j + 1)).filter fun r =>
        gap r.timestamp p.timestamp ≤ length.toInt).map Point.value) q.value

/-- Averages of sums over a count: zeros until there are as many sums, and from then on the mean of
the last of them. -/
structure OverCount (n : Int64) (sums averages : List Point) : Prop where
  times : averages.map Point.timestamp = sums.map Point.timestamp
  zero : ∀ (j : Nat) (p q : Point), sums[j]? = some p → averages[j]? = some q →
    j + 1 < n.toInt → q.value = p.value.zeroLike
  mean : ∀ (j : Nat) (p q : Point), sums[j]? = some p → averages[j]? = some q →
    n.toInt ≤ j + 1 →
      Mean (((sums.take (j + 1)).drop (j + 1 - n.toInt.toNat)).map Point.value) q.value

namespace Function

variable {params : List String}

/-- A moving average over a duration, beside the sum of the same input. -/
theorem movingAverage_of_duration {length : Int64}
    (hspan : ofParams params = .ok (.milliseconds length)) (c : Config) (w : Window)
    (first : Series) (group : List Series) (groups : Input) (sumParams : List String) :
    (w.start ≤ w.stop →
      ∃ s out, (sum.evaluate c w ((first :: group) :: groups) sumParams).result = .ok [s] ∧
        (movingAverage.evaluate c w ((first :: group) :: groups) params).result = .ok [out] ∧
        out.toMetadata = first.toMetadata ∧ OverDuration length s.points out.points) ∧
    (w.stop < w.start →
      ∃ e, (sum.evaluate c w ((first :: group) :: groups) sumParams).result = .error e ∧
        (movingAverage.evaluate c w ((first :: group) :: groups) params).result = .error e) := by
  refine ⟨fun h => ?_, fun h => ⟨_, Combine.result_all_inverted _ h,
    Combine.result_smooth_inverted hspan h⟩⟩
  obtain ⟨s, out, hs, hout, hmeta, htimes, hpoints⟩ :=
    Combine.smooth_over_sum hspan c h first group groups
  refine ⟨s, out, hs, hout, hmeta, htimes, ?_, ?_⟩
  · intro j p₁ p q hfirst hp hq hlt
    refine (hpoints j p q hp hq).zero ?_
    rw [full_milliseconds_take length hfirst hp]
    exact Int.not_le.2 hlt
  · intro j p₁ p q hfirst hp hq hle
    rw [← reach_milliseconds_take length hp]
    exact (hpoints j p q hp hq).mean ((full_milliseconds_take length hfirst hp).2 hle)

/-- Two groups that do not share all their times, with a double among integers. -/
def unevenInput : Input :=
  [[({ metric := "a" } : Series).insertAll [⟨0, .int 1⟩, ⟨4, .int 5⟩, ⟨9, .int 8⟩]],
    [({ metric := "b" } : Series).insertAll [⟨4, .float 2⟩, ⟨7, .int 3⟩]]]

theorem timeline_unevenInput :
    Merge.timeline (Combine.viewsOf ⟨0, 20000⟩ unevenInput) = [0, 4, 7, 9] :=
  Merge.timeline_eq_of_subset (by decide) (by decide) (by decide)

theorem points_sum_unevenInput {s : Series}
    (h : (sum.evaluate {} ⟨0, 20000⟩ unevenInput []).result = .ok [s]) :
    s.points = [⟨0, .int 1⟩, ⟨4, .float 7⟩, ⟨7, .int 9⟩, ⟨9, .int 8⟩] := by
  cases h.symm.trans (Combine.result_all .sum (by decide))
  refine (Combine.points_merged_of_timeline _ timeline_unevenInput).trans ?_
  decide +kernel

theorem points_movingAverage_unevenInput {span : Span} {out : Series}
    (hspan : ofParams params = .ok span)
    (h : (movingAverage.evaluate {} ⟨0, 20000⟩ unevenInput params).result = .ok [out]) :
    out.points = (Aggregator.movingAverage span).run
      ([0, 4, 7, 9].map (Merge.rowAt (some .lerp) (Combine.viewsOf ⟨0, 20000⟩ unevenInput))) := by
  cases h.symm.trans (Combine.result_smooth hspan (by decide))
  exact Combine.points_merged_of_timeline _ timeline_unevenInput

theorem movingAverage_of_five_seconds :
    ofParams ["'5sec'"] = .ok (.milliseconds 5000) ∧
      ∃ s out, (sum.evaluate {} ⟨0, 20000⟩ unevenInput []).result = .ok [s] ∧
        (movingAverage.evaluate {} ⟨0, 20000⟩ unevenInput ["'5sec'"]).result = .ok [out] ∧
        out.metric = "a" ∧ OverDuration 5000 s.points out.points ∧
        s.points = [⟨0, .int 1⟩, ⟨4, .float 7⟩, ⟨7, .int 9⟩, ⟨9, .int 8⟩] ∧
        out.points = [⟨0, .int 0⟩, ⟨4, .float 0⟩, ⟨7, .float 8⟩, ⟨9, .float 8⟩] := by
  have hspan : ofParams ["'5sec'"] = .ok (.milliseconds 5000) := rfl
  obtain ⟨s, out, hs, hout, hmeta, hover⟩ :=
    (movingAverage_of_duration hspan {} ⟨0, 20000⟩ unevenInput[0][0] [] [unevenInput[1]] []).1
      (by decide)
  have hpoints : out.points = [⟨0, .int 0⟩, ⟨4, .float 0⟩, ⟨7, .float 8⟩, ⟨9, .float 8⟩] := by
    rw [points_movingAverage_unevenInput hspan hout]
    decide +kernel
  exact ⟨hspan, s, out, hs, hout, congrArg Metadata.metric hmeta, hover, points_sum_unevenInput hs,
    hpoints⟩

/-- A moving average over a count, beside the sum of the same input. -/
theorem movingAverage_of_count {n : Int64} (hspan : ofParams params = .ok (.samples n)) (c : Config)
    (w : Window) (first : Series) (group : List Series) (groups : Input)
    (sumParams : List String) :
    (w.start ≤ w.stop →
      ∃ s out, (sum.evaluate c w ((first :: group) :: groups) sumParams).result = .ok [s] ∧
        (movingAverage.evaluate c w ((first :: group) :: groups) params).result = .ok [out] ∧
        out.toMetadata = first.toMetadata ∧ OverCount n s.points out.points) ∧
    (w.stop < w.start →
      ∃ e, (sum.evaluate c w ((first :: group) :: groups) sumParams).result = .error e ∧
        (movingAverage.evaluate c w ((first :: group) :: groups) params).result = .error e) := by
  refine ⟨fun h => ?_, fun h => ⟨_, Combine.result_all_inverted _ h,
    Combine.result_smooth_inverted hspan h⟩⟩
  obtain ⟨s, out, hs, hout, hmeta, htimes, hpoints⟩ :=
    Combine.smooth_over_sum hspan c h first group groups
  refine ⟨s, out, hs, hout, hmeta, htimes, ?_, ?_⟩
  · intro j p q hp hq hlt
    refine (hpoints j p q hp hq).zero ?_
    rw [full_samples_take n hp]
    exact Int.not_le.2 hlt
  · intro j p q hp hq hle
    rw [← reach_samples_take n hp]
    exact (hpoints j p q hp hq).mean ((full_samples_take n hp).2 hle)

theorem movingAverage_of_two_samples :
    ofParams ["2"] = .ok (.samples 2) ∧
      ∃ s out, (sum.evaluate {} ⟨0, 20000⟩ unevenInput []).result = .ok [s] ∧
        (movingAverage.evaluate {} ⟨0, 20000⟩ unevenInput ["2"]).result = .ok [out] ∧
        out.metric = "a" ∧ OverCount 2 s.points out.points ∧
        s.points = [⟨0, .int 1⟩, ⟨4, .float 7⟩, ⟨7, .int 9⟩, ⟨9, .int 8⟩] ∧
        out.points = [⟨0, .int 0⟩, ⟨4, .float 4⟩, ⟨7, .float 8⟩, ⟨9, .int 8⟩] := by
  have hspan : ofParams ["2"] = .ok (.samples 2) := rfl
  obtain ⟨s, out, hs, hout, hmeta, hover⟩ :=
    (movingAverage_of_count hspan {} ⟨0, 20000⟩ unevenInput[0][0] [] [unevenInput[1]] []).1
      (by decide)
  have hpoints : out.points = [⟨0, .int 0⟩, ⟨4, .float 4⟩, ⟨7, .float 8⟩, ⟨9, .int 8⟩] := by
    rw [points_movingAverage_unevenInput hspan hout]
    decide +kernel
  exact ⟨hspan, s, out, hs, hout, congrArg Metadata.metric hmeta, hover, points_sum_unevenInput hs,
    hpoints⟩

end Function
end DerivedSeries
