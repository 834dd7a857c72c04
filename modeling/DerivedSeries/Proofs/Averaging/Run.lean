import DerivedSeries.Proofs.Averaging.History
import DerivedSeries.Proofs.Averaging.Mean

/-!
# Runs of a moving average

A moving average answers at every time at which there is a sum, and only there
(`runFrom_movingAverage`). Its answer to the newest of some sums is their mean over the reach of the
span, once the span is full (`Smoothed`): one step by `smoothed_spec`, and a whole run by induction
on the sums to come (`runFrom_sums`).
-/

namespace DerivedSeries

/-- The value that a moving average gives to the newest of sums. -/
structure Smoothed (span : Span) (ps : List Point) (newest v : Sample) : Prop where
  mean : span.Full ps → Mean ((span.reach ps).map Point.value) v
  zero : ¬ span.Full ps → v = newest.zeroLike

namespace Aggregator

variable {span : Span}

theorem mem_reach (hspan : span.Legal) (ps : List Point) (p : Point) :
    p ∈ span.reach (ps ++ [p]) := by
  cases span with
  | samples n =>
    have hpos : 0 < n.toInt := hspan
    have hle : (ps ++ [p]).length - n.toInt.toNat ≤ ps.length := by
      rw [List.length_append, List.length_singleton]
      omega
    simp only [Span.reach, List.drop_append_of_le_length hle]
    simp
  | milliseconds n =>
    have hgap : Span.gap p.timestamp p.timestamp ≤ n.toInt := by
      have hpos : 0 < n.toInt := hspan.1
      unfold Span.gap
      omega
    rw [Span.reach_milliseconds_concat]
    simp [hgap]

theorem smoothed_spec (hspan : span.Legal) {ps : List Point} {p : Point} {h : History}
    (ht : h.Tracks span (ps ++ [p])) :
    ∃ v, smoothed h p.value = some v ∧ Smoothed span (ps ++ [p]) p.value v := by
  unfold smoothed
  cases hf : h.filled with
  | true =>
    have hfull : span.Full (ps ++ [p]) := ht.filled.1 hf
    have hne : (span.reach (ps ++ [p])).map Point.value ≠ [] :=
      List.ne_nil_of_mem (List.mem_map_of_mem (mem_reach hspan ps p))
    obtain ⟨v, hv, hmean⟩ := History.average_spec hne
    rw [if_pos rfl, ht.sums]
    exact ⟨v, hv, fun _ => hmean, fun h => absurd hfull h⟩
  | false =>
    have hfull : ¬ span.Full (ps ++ [p]) := fun h => by simp [ht.filled.2 h] at hf
    exact ⟨_, rfl, fun h => absurd h hfull, fun _ => rfl⟩

/-- Rows of one sample each. -/
def rowsOf (ps : List Point) : List Row :=
  ps.map fun p => ⟨p.timestamp, [p.value]⟩

section
variable {h : History} {t : Timestamp} {ss : List Sample}

theorem step_of_total {s : Sample} (hs : total ss = some s) :
    (movingAverage span).step h t ss =
      (smoothed (h.push span ⟨t, s⟩) s, h.push span ⟨t, s⟩) := by
  simp only [movingAverage, hs]

theorem step_of_none (hs : total ss = none) : (movingAverage span).step h t ss = (none, h) := by
  simp only [movingAverage, hs]

end

theorem runFrom_sum_cons (r : Row) (rows : List Row) :
    sum.runFrom () (r :: rows) =
      ((total r.samples).map (Point.mk r.timestamp)).toList ++ sum.runFrom () rows := by
  have hstep : sum.step () r.timestamp r.samples = (total r.samples, ()) := rfl
  rw [runFrom_cons, hstep]
  cases total r.samples <;> rfl

/-- A moving average of rows is that of their sums. -/
theorem runFrom_movingAverage (span : Span) (h : History) (rows : List Row) :
    (movingAverage span).runFrom h rows =
      (movingAverage span).runFrom h (rowsOf (sum.run rows)) := by
  induction rows generalizing h with
  | nil => rfl
  | cons r rows ih =>
    have hrun : sum.run (r :: rows) =
        ((total r.samples).map (Point.mk r.timestamp)).toList ++ sum.run rows :=
      runFrom_sum_cons r rows
    rw [hrun, runFrom_cons]
    cases hs : total r.samples with
    | none =>
      rw [step_of_none hs]
      exact ih h
    | some s =>
      show _ = (movingAverage span).runFrom h (⟨r.timestamp, [s]⟩ :: rowsOf (sum.run rows))
      rw [runFrom_cons, step_of_total hs, step_of_total (s := s) rfl]
      cases smoothed (h.push span ⟨r.timestamp, s⟩) s with
      | none => exact ih _
      | some v => exact congrArg _ (ih _)

/-- A run over sums to come, after some that the history tracks. -/
theorem runFrom_sums (hspan : span.Legal) {past rest : List Point} {h : History}
    (ht : h.Tracks span past)
    (hasc : (past ++ rest).Pairwise fun a b => a.timestamp < b.timestamp) :
    ((movingAverage span).runFrom h (rowsOf rest)).length = rest.length ∧
      ∀ j p, rest[j]? = some p →
        ∃ v, ((movingAverage span).runFrom h (rowsOf rest))[j]? = some ⟨p.timestamp, v⟩ ∧
          Smoothed span (past ++ rest.take (j + 1)) p.value v := by
  induction rest generalizing past h with
  | nil => exact ⟨rfl, fun j p hp => by simp at hp⟩
  | cons q rest ih =>
    rw [List.append_cons] at hasc
    have hpush := ht.push hspan (hasc.sublist (List.sublist_append_left _ _))
    obtain ⟨v, hv, hsmooth⟩ := smoothed_spec hspan hpush
    obtain ⟨hlen, hpoint⟩ := ih hpush hasc
    have hrun : (movingAverage span).runFrom h (rowsOf (q :: rest)) =
        ⟨q.timestamp, v⟩ :: (movingAverage span).runFrom (h.push span q) (rowsOf rest) := by
      show (movingAverage span).runFrom h (⟨q.timestamp, [q.value]⟩ :: rowsOf rest) = _
      rw [runFrom_cons, step_of_total (s := q.value) rfl, hv]
    rw [hrun]
    refine ⟨by simp [hlen], fun j p hp => ?_⟩
    cases j with
    | zero =>
      cases hp
      exact ⟨v, rfl, by simpa using hsmooth⟩
    | succ j =>
      obtain ⟨u, hu, hs⟩ := hpoint j p hp
      refine ⟨u, hu, ?_⟩
      rw [List.take_succ_cons, List.append_cons]
      exact hs

end Aggregator
end DerivedSeries
