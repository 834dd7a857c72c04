import DerivedSeries.MovingAverage
import DerivedSeries.Proofs.Span

/-!
# The history of a moving average

What a moving average remembers after a list of sums is what the list itself says (`Tracks`): the
sums that the span reaches back to from the last of them, the time of the first, and whether the
span has filled. Adding a sum keeps this (`Tracks.push`). Clamping of elapsed milliseconds goes
unnoticed because no span is as long as the greatest word.
-/

namespace DerivedSeries

namespace Span

/-- The milliseconds from one time to another, as an integer of any size. -/
def gap (since now : Timestamp) : Int :=
  (now.toInt - since.toInt) * 1000

/-- The points that a span reaches back to from the last of them. -/
def reach (span : Span) (ps : List Point) : List Point :=
  match span with
  | samples n => ps.drop (ps.length - n.toInt.toNat)
  | milliseconds n =>
    ps.filter fun q => ps.getLast?.all fun p => gap q.timestamp p.timestamp ≤ n.toInt

/-- The points cover a span. -/
def Full (span : Span) (ps : List Point) : Prop :=
  match span with
  | samples n => n.toInt ≤ ps.length
  | milliseconds n =>
    ∃ p ∈ ps.head?, ∃ q ∈ ps.getLast?, n.toInt ≤ gap p.timestamp q.timestamp

theorem reach_milliseconds_concat (n : Int64) (ps : List Point) (p : Point) :
    (milliseconds n).reach (ps ++ [p]) =
      (ps ++ [p]).filter fun q => gap q.timestamp p.timestamp ≤ n.toInt := by
  simp only [reach, List.getLast?_concat, Option.all_some]

theorem full_milliseconds_concat (n : Int64) (ps : List Point) (p : Point) :
    (milliseconds n).Full (ps ++ [p]) ↔
      n.toInt ≤ gap ((ps.head?.map Point.timestamp).getD p.timestamp) p.timestamp := by
  simp only [Full, List.getLast?_concat, List.head?_append, List.head?_cons]
  cases ps.head? <;> simp

theorem gap_le_gap_left {s t now : Timestamp} (h : s ≤ t) : gap t now ≤ gap s now := by
  have := Int64.le_iff_toInt_le.1 h
  unfold gap
  omega

theorem gap_le_gap_right {since s t : Timestamp} (h : s ≤ t) : gap since s ≤ gap since t := by
  have := Int64.le_iff_toInt_le.1 h
  unfold gap
  omega

end Span

namespace History

open DerivedSeries.Span

/-! ## Elapsed milliseconds -/

theorem lt_elapsed_iff {since now : Timestamp} {n : Int64} (h : n.toInt < Int64.maxValue.toInt) :
    n < elapsed since now ↔ n.toInt < gap since now := by
  have hmin := n.minValue_le_toInt
  rw [Int64.lt_iff_toInt_lt]
  show _ < (Int64.ofIntClamp (gap since now)).toInt ↔ _
  unfold Int64.ofIntClamp
  split
  · split
    · rw [Int64.toInt_ofIntLE]
    · omega
  · omega

theorem le_elapsed_iff {since now : Timestamp} {n : Int64} (h : 0 < n.toInt) :
    n ≤ elapsed since now ↔ n.toInt ≤ gap since now := by
  have hmax := n.toInt_le
  have hmin : Int64.minValue.toInt < 0 := by decide
  rw [Int64.le_iff_toInt_le]
  show _ ≤ (Int64.ofIntClamp (gap since now)).toInt ↔ _
  unfold Int64.ofIntClamp
  split
  · split
    · rw [Int64.toInt_ofIntLE]
    · omega
  · omega

/-! ## Sums in reach -/

/-- Dropping the front of a list that no later element would join is filtering. -/
theorem dropWhile_eq_filter {α : Type} (drop : α → Bool) {xs : List α}
    (h : xs.Pairwise fun a b => drop b = true → drop a = true) :
    xs.dropWhile drop = xs.filter fun a => !drop a := by
  induction xs with
  | nil => rfl
  | cons a xs ih =>
    obtain ⟨ha, hxs⟩ := List.pairwise_cons.1 h
    cases hd : drop a with
    | true => rw [List.dropWhile_cons_of_pos hd, ih hxs, List.filter_cons_of_neg (by simp [hd])]
    | false =>
      rw [List.dropWhile_cons_of_neg (by simp [hd]), List.filter_eq_self.2]
      intro b hb
      rcases List.mem_cons.1 hb with rfl | hb
      · simp [hd]
      · cases hdb : drop b with
        | true => exact absurd (ha b hb hdb) (by simp [hd])
        | false => rfl

/-- The sums in reach of a time are those in reach of an earlier one and the newest, less those that
have fallen out of reach. -/
theorem retain_reach {span : Span} (hspan : span.Legal) {ps : List Point} {p : Point}
    (hasc : (ps ++ [p]).Pairwise fun a b => a.timestamp < b.timestamp) :
    retain span p.timestamp (span.reach ps ++ [p]) = span.reach (ps ++ [p]) := by
  cases span with
  | samples n =>
    have hpos : 0 < n.toInt := hspan
    have hneg : ¬ n < 0 := by
      rw [Int64.lt_iff_toInt_lt, Int64.toInt_zero]
      omega
    have hle : ps.length - n.toInt.toNat ≤ ps.length := Nat.sub_le _ _
    show (if n < 0 then _ else _) = _
    rw [if_neg hneg]
    simp only [reach]
    rw [← List.drop_append_of_le_length hle, List.drop_drop, List.length_drop, List.length_append]
    congr 1
    simp only [List.length_singleton]
    omega
  | milliseconds n =>
    have hlt : n.toInt < Int64.maxValue.toInt := hspan.2
    have hout : ∀ q : Point, (!decide (elapsed q.timestamp p.timestamp > n)) =
        decide (gap q.timestamp p.timestamp ≤ n.toInt) := by
      intro q
      rw [Bool.eq_iff_iff, Bool.not_eq_true', decide_eq_false_iff_not, decide_eq_true_iff,
        gt_iff_lt, lt_elapsed_iff hlt]
      exact Int.not_lt
    have hsub : ((milliseconds n).reach ps ++ [p]).Sublist (ps ++ [p]) :=
      List.filter_sublist.append_right [p]
    have hfall : ((milliseconds n).reach ps ++ [p]).Pairwise fun a b =>
        decide (elapsed b.timestamp p.timestamp > n) = true →
          decide (elapsed a.timestamp p.timestamp > n) = true := by
      refine (hasc.sublist hsub).imp fun {a b} hab => ?_
      rw [decide_eq_true_iff, decide_eq_true_iff, gt_iff_lt, gt_iff_lt, lt_elapsed_iff hlt,
        lt_elapsed_iff hlt]
      intro hb
      exact Int.lt_of_lt_of_le hb (gap_le_gap_left (Int64.le_of_lt hab))
    show List.dropWhile _ _ = _
    rw [dropWhile_eq_filter _ hfall, reach_milliseconds_concat, List.filter_congr fun q _ => hout q,
      List.filter_append, List.filter_append]
    congr 1
    show List.filter _ (List.filter _ ps) = _
    rw [List.filter_filter]
    refine List.filter_congr fun q _ => ?_
    -- what is in reach of the newest time was in reach of the one before it
    cases hlast : ps.getLast? with
    | none => simp
    | some r =>
      have hrp : r.timestamp < p.timestamp :=
        (List.pairwise_append.1 hasc).2.2 r (List.mem_of_getLast? hlast) p (by simp)
      have hmono : gap q.timestamp r.timestamp ≤ gap q.timestamp p.timestamp :=
        gap_le_gap_right (Int64.le_of_lt hrp)
      rw [Option.all_some, Bool.and_eq_left_iff_imp]
      intro hq
      rw [decide_eq_true_iff] at hq ⊢
      exact Int.le_trans hmono hq

/-! ## The run -/

/-- What a history remembers after points. -/
structure Tracks (span : Span) (ps : List Point) (h : History) : Prop where
  sums : h.sums = span.reach ps
  start : h.start? = ps.head?.map Point.timestamp
  filled : h.filled = true ↔ span.Full ps

variable {span : Span}

theorem tracks_nil (hspan : span.Legal) : Tracks span [] {} where
  sums := by
    cases span with
    | samples n => exact List.drop_nil.symm
    | milliseconds n => rfl
  start := rfl
  filled := by
    show false = true ↔ _
    cases span with
    | samples n =>
      have hpos : 0 < n.toInt := hspan
      simpa [Full] using hpos
    | milliseconds n => simp [Full]

/-- The span has filled after the newest sum if it had before or is covered now. -/
theorem full_concat_iff (hspan : span.Legal) {ps : List Point} {p : Point}
    (hasc : (ps ++ [p]).Pairwise fun a b => a.timestamp < b.timestamp) :
    span.Full (ps ++ [p]) ↔ span.Full ps ∨
      covers span ((ps.head?.map Point.timestamp).getD p.timestamp) p.timestamp
        (span.reach (ps ++ [p])) = true := by
  cases span with
  | samples n =>
    have hpos : 0 < n.toInt := hspan
    simp only [Full, covers, reach, List.length_drop, List.length_append, List.length_singleton,
      Bool.and_eq_true, decide_eq_true_iff, Int64.le_iff_toInt_le, Int64.toInt_zero]
    omega
  | milliseconds n =>
    have hcovers : covers (milliseconds n) ((ps.head?.map Point.timestamp).getD p.timestamp)
        p.timestamp ((milliseconds n).reach (ps ++ [p])) = true ↔
        n.toInt ≤ gap ((ps.head?.map Point.timestamp).getD p.timestamp) p.timestamp := by
      show decide (_ ≥ n) = true ↔ _
      rw [decide_eq_true_iff, ge_iff_le, le_elapsed_iff hspan.1]
    rw [full_milliseconds_concat, hcovers]
    refine ⟨.inr, ?_⟩
    rintro (⟨a, ha, b, hb, hle⟩ | hle)
    · have hbp : b.timestamp < p.timestamp :=
        (List.pairwise_append.1 hasc).2.2 b (List.mem_of_getLast? hb) p (by simp)
      rw [Option.mem_def.1 ha]
      exact Int.le_trans hle (gap_le_gap_right (Int64.le_of_lt hbp))
    · exact hle

theorem Tracks.push (hspan : span.Legal) {ps : List Point} {p : Point} {h : History}
    (ht : Tracks span ps h)
    (hasc : (ps ++ [p]).Pairwise fun a b => a.timestamp < b.timestamp) :
    Tracks span (ps ++ [p]) (h.push span p) := by
  have hstart : h.start?.getD p.timestamp =
      (ps.head?.map Point.timestamp).getD p.timestamp := by rw [ht.start]
  have hsums : retain span p.timestamp (h.sums ++ [p]) = span.reach (ps ++ [p]) := by
    rw [ht.sums, retain_reach hspan hasc]
  constructor
  · exact hsums
  · show some (h.start?.getD p.timestamp) = _
    rw [hstart]
    cases ps <;> rfl
  · show (h.filled || covers span (h.start?.getD p.timestamp) p.timestamp
      (retain span p.timestamp (h.sums ++ [p]))) = true ↔ _
    rw [hstart, hsums, full_concat_iff hspan hasc, Bool.or_eq_true, ht.filled]

end History
end DerivedSeries
