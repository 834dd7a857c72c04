import DerivedSeries.Function
import DerivedSeries.Proofs.Ranking.Order
import DerivedSeries.Proofs.Windowed

/-!
# Selection

A selection of the `k` series that rank highest returns the first `k` of a ranking of all series,
whole and in order, and takes none of them twice. A window that is inverted in seconds is refused.
-/

namespace DerivedSeries

/-- A ranking of series: their values, and all their positions from the first rank down. -/
structure Ranked (criterion : Criterion) (w : Window) (ss : List Series)
    (value : Nat → Option Float) (order : List Nat) : Prop where
  values : ∀ i s, ss[i]? = some s → criterion.Ranks (s.within w) (value i)
  numbers : ∀ i x, value i = some x → x.isNaN = false
  positions : order.Perm (List.range ss.length)
  descending : order.Pairwise (Ranking.Before value)

namespace Select

/-- The ranking value of the series at a position. -/
def valueAt (criterion : Criterion) (w : Window) (ss : List Series) (i : Nat) : Option Float :=
  ss[i]?.bind fun s => (criterion.scan (s.view w .identity)).resolve

variable {criterion : Criterion} {w : Window} {ss : List Series}

theorem ranks_valueAt {i : Nat} {s : Series} (h : ss[i]? = some s) :
    criterion.Ranks (s.within w) (valueAt criterion w ss i) := by
  unfold valueAt
  rw [h, ← Series.points_view]
  exact Criterion.ranks_scan criterion _

theorem isNaN_valueAt (i : Nat) (x : Float) (h : valueAt criterion w ss i = some x) :
    x.isNaN = false := by
  obtain ⟨s, hs, -⟩ := Option.bind_eq_some_iff.1 h
  have hr : criterion.Ranks (s.within w) (valueAt criterion w ss i) := ranks_valueAt hs
  rw [h] at hr
  exact hr.isNaN_eq_false

theorem ranked_order (criterion : Criterion) (w : Window) (ss : List Series) :
    Ranked criterion w ss (valueAt criterion w ss)
      (Ranking.order (valueAt criterion w ss) ss.length) where
  values _ _ h := ranks_valueAt h
  numbers := isNaN_valueAt
  positions := Ranking.order_perm _ _
  descending := Ranking.pairwise_order isNaN_valueAt _

/-! ## The table -/

theorem result_entry (h : w.start ≤ w.stop) (index : Nat) (s : Series) :
    (entry w criterion index s).result =
      .ok ⟨(criterion.scan (s.view w .identity)).resolve, index⟩ := by
  have hview : (Evaluation.ofExcept (View.ofSeries w .identity s)).result =
      .ok (s.view w .identity) :=
    View.ofSeries_of_le h .identity s
  rw [entry, Evaluation.result_bind_of_ok hview]
  by_cases hv : (criterion.scan (s.view w .identity)).resolve.isNone
  · simp only [hv, if_true, Evaluation.result_bind_of_ok (Evaluation.result_report _)]
    rfl
  · simp only [hv]
    rfl

theorem result_entriesFrom (h : w.start ≤ w.stop) (index : Nat) (ss : List Series) :
    (entriesFrom w criterion index ss).result =
      .ok ((List.range ss.length).map fun i => ⟨valueAt criterion w ss i, index + i⟩) := by
  induction ss generalizing index with
  | nil => rfl
  | cons s ss ih =>
    rw [entriesFrom, Evaluation.result_bind_of_ok (result_entry h index s),
      Evaluation.result_bind_of_ok (ih (index + 1)), Evaluation.result_pure, List.length_cons,
      List.range_succ_eq_map, List.map_cons, List.map_map]
    refine congrArg (fun es => Except.ok (_ :: es)) (List.map_congr_left fun i _ => ?_)
    show RankEntry.mk _ (index + 1 + i) = RankEntry.mk _ (index + (i + 1))
    rw [Nat.add_assoc, Nat.add_comm 1]
    rfl

theorem result_table (h : w.start ≤ w.stop) (criterion : Criterion) (ss : List Series) :
    (table w criterion ss).result =
      .ok ((Ranking.order (valueAt criterion w ss) ss.length).map fun i =>
        ⟨valueAt criterion w ss i, i⟩) := by
  have hentries : (entriesFrom w criterion 0 ss).result =
      .ok ((List.range ss.length).map fun i => ⟨valueAt criterion w ss i, i⟩) := by
    rw [result_entriesFrom h]
    simp only [Nat.zero_add]
  rw [table, Evaluation.result_bind_of_ok hentries, Evaluation.result_pure,
    Ranking.sort_range isNaN_valueAt]

theorem result_table_inverted (h : w.stop < w.start) (s : Series) (ss : List Series) :
    (table w criterion (s :: ss)).result = .error (.invertedView s.metric w.start w.stop) := by
  have hview : (Evaluation.ofExcept (View.ofSeries w .identity s)).result =
      .error (.invertedView s.metric w.start w.stop) :=
    View.ofSeries_of_lt h .identity s
  have hentry : (entry w criterion 0 s).result =
      .error (.invertedView s.metric w.start w.stop) := by
    rw [entry, Evaluation.result_bind_of_error hview]
  rw [table, entriesFrom, Evaluation.result_bind_of_error]
  rw [Evaluation.result_bind_of_error hentry]

/-! ## Taking series out of their slots -/

/-- Positions that are distinct and full give up their series, each one once. -/
theorem take_of_nodup {es : List RankEntry} (slots : List (Option Series))
    (hnodup : (es.map RankEntry.index).Nodup)
    (hfull : ∀ e ∈ es, ∃ s, slots[e.index]?.join = some s) :
    ∃ out, take slots es = .ok out ∧ out.map some = es.map fun e => slots[e.index]?.join := by
  induction es generalizing slots with
  | nil => exact ⟨[], rfl, rfl⟩
  | cons e es ih =>
    obtain ⟨hne, hnodup⟩ := List.nodup_cons.1 hnodup
    obtain ⟨s, hs⟩ := hfull e (by simp)
    have hkeep : ∀ d ∈ es, (slots.set e.index none)[d.index]?.join = slots[d.index]?.join := by
      intro d hd
      have hindex : e.index ≠ d.index := fun heq => hne (heq ▸ List.mem_map_of_mem hd)
      rw [List.getElem?_set_ne hindex]
    obtain ⟨out, htake, hout⟩ := ih _ hnodup fun d hd => by
      rw [hkeep d hd]
      exact hfull d (by simp [hd])
    refine ⟨s :: out, ?_, ?_⟩
    · rw [take, hs]
      show (do return s :: (← take (slots.set e.index none) es)) = _
      rw [htake]
      rfl
    · rw [List.map_cons, hout, List.map_cons, hs]
      exact congrArg _ (List.map_congr_left hkeep)

theorem getElem?_slots (ss : List Series) (i : Nat) : (ss.map some)[i]?.join = ss[i]? := by
  rw [List.getElem?_map]
  cases ss[i]? <;> rfl

/-! ## The selection -/

theorem result_highest {params : List String} {k : Nat} {input : Input} (hk : count params = .ok k)
    (hlt : k < input.size) (c : Config) :
    (highest criterion c w input params).result =
      (table w criterion input.series).result >>= fun ranking =>
        if ranking.length < k then .error (.shortRanking ranking.length k)
        else take (input.series.map some) (ranking.take k) := by
  have hcount : (Evaluation.ofExcept (count params)).result = .ok k := hk
  have hsome : input.series.isEmpty = false := by
    rw [List.isEmpty_eq_false_iff]
    exact List.ne_nil_of_length_pos (Nat.zero_lt_of_lt hlt)
  have hnot : ¬ k ≥ input.series.length := Nat.not_le.2 hlt
  rw [highest, Evaluation.result_bind_of_ok hcount]
  simp only [hsome, Bool.false_eq_true, if_false, if_neg hnot]
  rw [Evaluation.result_bind]
  refine congrArg _ (funext fun ranking => ?_)
  rw [Evaluation.result_bind_of_ok (Evaluation.result_report _)]
  by_cases hshort : ranking.length < k
  · rw [if_pos hshort, if_pos hshort, Evaluation.result_fail]
  · rw [if_neg hshort, if_neg hshort, Evaluation.result_ofExcept]

/-- Distinct positions of the input, in any order, are all found in its slots. -/
theorem take_positions {order : List Nat} (horder : order.Perm (List.range ss.length))
    (value : Nat → Option Float) (k : Nat) :
    ∃ out, take (ss.map some) ((order.map fun i => ⟨value i, i⟩).take k) = .ok out ∧
      out.map some = (order.take k).map (ss[·]?) := by
  have hindex : ((order.take k).map fun i => RankEntry.mk (value i) i).map RankEntry.index =
      order.take k := by
    rw [List.map_map]
    exact List.map_id _
  have hnodup : (order.take k).Nodup :=
    (List.take_sublist k order).nodup (horder.nodup_iff.2 List.nodup_range)
  rw [← List.map_take]
  obtain ⟨out, htake, hout⟩ := take_of_nodup (ss.map some) (hindex ▸ hnodup) fun e he => by
    obtain ⟨i, hi, rfl⟩ := List.mem_map.1 he
    have hlt : i < ss.length := List.mem_range.1 (horder.mem_iff.1 (List.mem_of_mem_take hi))
    exact ⟨ss[i], by rw [getElem?_slots, List.getElem?_eq_getElem hlt]⟩
  refine ⟨out, htake, ?_⟩
  rw [hout, List.map_map]
  exact List.map_congr_left fun i _ => getElem?_slots ss i

/-- The selection in a window whose bounds are in order: the first `k` of the ranking. -/
theorem exists_highest (criterion : Criterion) {params : List String} {k : Nat} {input : Input}
    (hk : count params = .ok k) (hlt : k < input.size) (c : Config) (h : w.start ≤ w.stop) :
    ∃ out, (highest criterion c w input params).result = .ok out ∧
      out.map some =
        ((Ranking.order (valueAt criterion w input.series) input.size).take k).map
          (input.series[·]?) := by
  have hpositions := Ranking.order_perm (valueAt criterion w input.series) input.series.length
  obtain ⟨out, htake, hout⟩ := take_positions hpositions (valueAt criterion w input.series) k
  refine ⟨out, ?_, hout⟩
  rw [result_highest hk hlt, result_table h]
  show (if _ then _ else _) = _
  rw [if_neg, htake]
  rw [List.length_map, hpositions.length_eq, List.length_range]
  exact Nat.lt_asymm hlt

theorem highest_of_le {params : List String} {k : Nat} {input : Input} (hk : count params = .ok k)
    (hlt : k < input.size) (c : Config) (h : w.start ≤ w.stop) :
    ∃ value order out, Ranked criterion w input.series value order ∧
      (highest criterion c w input params).result = .ok out ∧
      out.map some = (order.take k).map (input.series[·]?) := by
  obtain ⟨out, hresult, hout⟩ := exists_highest criterion hk hlt c h
  exact ⟨_, _, out, ranked_order criterion w input.series, hresult, hout⟩

theorem result_highest_inverted {params : List String} {k : Nat} {input : Input} {s : Series}
    {ss : List Series} {c : Config} (hk : count params = .ok k) (hlt : k < input.size)
    (h : w.stop < w.start) (hs : input.series = s :: ss) :
    (highest criterion c w input params).result =
      .error (.invertedView s.metric w.start w.stop) := by
  rw [result_highest hk hlt, hs, result_table_inverted h]
  rfl

theorem highest_of_lt {params : List String} {k : Nat} {input : Input} (hk : count params = .ok k)
    (hlt : k < input.size) (c : Config) (h : w.stop < w.start) :
    ∃ e, (highest criterion c w input params).result = .error e ∧ e.kind = .invalidArgument := by
  obtain ⟨s, rest, hs⟩ := List.exists_cons_of_length_pos (Nat.zero_lt_of_lt hlt)
  exact ⟨_, result_highest_inverted hk hlt h hs, rfl⟩

end Select

namespace Function

variable {criterion : Criterion} {w : Window} {params : List String} {k : Nat} {input : Input}

/-- Of more series than are asked for, the first of the ranking come back as they are, unless the
window is inverted in seconds. -/
theorem evaluate_highest (hk : Select.count params = .ok k) (hlt : k < input.size) (c : Config) :
    (w.start ≤ w.stop →
      ∃ value order out, Ranked criterion w input.series value order ∧
        ((highest criterion).evaluate c w input params).result = .ok out ∧
        out.map some = (order.take k).map (input.series[·]?)) ∧
    (w.stop < w.start →
      ∃ e, ((highest criterion).evaluate c w input params).result = .error e ∧
        e.kind = .invalidArgument) :=
  ⟨Select.highest_of_le hk hlt c, Select.highest_of_lt hk hlt c⟩

/-- Two groups of series: a tie between an integer and a double, and a series without samples. -/
def tiedInput : Input :=
  [[{ metric := "empty" }, ({ metric := "double" } : Series).insertAll [⟨3, .float 7⟩]],
    [({ metric := "integer" } : Series).insertAll [⟨1, .int 2⟩, ⟨4, .int 7⟩]]]

theorem evaluate_highest_tied :
    Select.count ["2"] = .ok 2 ∧ 2 < tiedInput.size ∧
      ∃ value order out, Ranked .max ⟨0, 10000⟩ tiedInput.series value order ∧
        ((highest .max).evaluate {} ⟨0, 10000⟩ tiedInput ["2"]).result = .ok out ∧
        out.map some = (order.take 2).map (tiedInput.series[·]?) :=
  ⟨rfl, by decide, (evaluate_highest rfl (by decide) {}).1 (by decide)⟩

/-- An inverted window leaves nothing to return. -/
theorem evaluate_highest_inverted :
    Select.count ["1"] = .ok 1 ∧ 1 < tiedInput.size ∧
      ¬ ∃ value order out, Ranked .max ⟨10000, 0⟩ tiedInput.series value order ∧
        ((highest .max).evaluate {} ⟨10000, 0⟩ tiedInput ["1"]).result = .ok out ∧
        out.map some = (order.take 1).map (tiedInput.series[·]?) := by
  refine ⟨rfl, by decide, ?_⟩
  rintro ⟨value, order, out, -, hout, -⟩
  have hrefused : ∃ e, ((highest .max).evaluate {} ⟨10000, 0⟩ tiedInput ["1"]).result = .error e ∧
      e.kind = .invalidArgument :=
    Select.highest_of_lt rfl (by decide) {} (by decide)
  obtain ⟨e, he, -⟩ := hrefused
  cases he.symm.trans hout

end Function
end DerivedSeries
