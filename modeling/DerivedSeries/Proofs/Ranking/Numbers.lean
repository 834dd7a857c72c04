import DerivedSeries.Proofs.Merge.Contribution
import DerivedSeries.Proofs.Ranking.Selection

/-!
# Rankings without what is no number

A table ranks each series by its own value, so it is the same for other series just if their values are
(`Select.result_table_map_eq_iff`). To take the samples out of a series that are no numbers
(`Series.numbers`) never changes its greatest sample. It changes the latest one if that is no number while
an earlier sample is: a ranking by the latest sample finds such a series without a value
(`Select.table_numbers`).
-/

namespace DerivedSeries

/-- The entries that a test on the value lets through. -/
def OrderedMap.filterValues {κ ν : Type} [Ord κ] (p : ν → Bool) (m : OrderedMap κ ν) :
    OrderedMap κ ν :=
  ⟨m.entries.filter fun e => p e.2, m.ascending.filter _⟩

namespace Series

/-- The series without the samples that are no numbers. -/
def numbers (s : Series) : Series :=
  { s with samples := s.samples.filterValues fun v => !v.isNaN }

theorem metric_numbers (s : Series) : s.numbers.metric = s.metric := rfl

theorem within_numbers (w : Window) (s : Series) :
    s.numbers.within w = (s.within w).filter fun p => !p.value.isNaN := by
  unfold within points numbers OrderedMap.filterValues
  rw [List.filter_filter, List.filter_map, List.filter_map, List.filter_filter]
  refine congrArg _ (List.filter_congr fun e _ => ?_)
  exact Bool.and_comm _ _

end Series

theorem Sample.isNaN_toFloat (s : Sample) : s.toFloat.isNaN = s.isNaN := by
  cases s with
  | int v => exact Binary64.isNaN_ofInt _
  | float x => rfl

/-! ## The scan of points -/

/-- What a scan of a series by itself finds. -/
def Series.rankingValue (criterion : Criterion) (w : Window) (s : Series) : Option Float :=
  (criterion.scan (s.view w .identity)).resolve

/-- To observe what is no number changes nothing. -/
theorem Maxima.foldl_observe_numbers (m : Maxima) (ss : List Sample) :
    (ss.filter fun s => !s.isNaN).foldl observe m = ss.foldl observe m := by
  induction ss generalizing m with
  | nil => rfl
  | cons s ss ih =>
    cases hs : s.isNaN with
    | false =>
      rw [List.filter_cons_of_pos (by rw [hs]; rfl), List.foldl_cons, List.foldl_cons, ih]
    | true =>
      have hsame : m.observe s = m := by
        cases s with
        | int v => cases hs
        | float x => exact observe_of_isNaN hs
      rw [List.filter_cons_of_neg (by rw [hs]; decide), List.foldl_cons, hsame, ih]

namespace Series

variable {w : Window}

theorem rankingValue_max (s : Series) : s.rankingValue .max w =
    (((s.within w).map Point.value).foldl Maxima.observe {}).resolve := by
  rw [← points_view]
  rfl

theorem rankingValue_max_numbers (s : Series) :
    s.numbers.rankingValue .max w = s.rankingValue .max w := by
  rw [rankingValue_max, rankingValue_max, within_numbers,
    ← Maxima.foldl_observe_numbers {} ((s.within w).map Point.value), List.filter_map]
  rfl

theorem rankingValue_current (s : Series) : s.rankingValue .current w =
    (s.within w).getLast?.bind fun p => (some p.value.toFloat).filter fun x => !x.isNaN := by
  have hscan : s.rankingValue .current w =
      (((s.within w).getLast?.map Point.value).toList.foldl Maxima.observe {}).resolve := by
    rw [← points_view]
    rfl
  rw [hscan]
  cases (s.within w).getLast? with
  | none => rfl
  | some p => exact Maxima.resolve_observe_empty p.value

theorem rankingValue_current_of_isNaN {s : Series} {p : Point}
    (h : (s.within w).getLast? = some p) (hp : p.value.isNaN = true) :
    s.rankingValue .current w = none := by
  rw [rankingValue_current, h, Option.bind_some, Option.filter_some, Sample.isNaN_toFloat, hp]
  rfl

theorem rankingValue_current_of_not_isNaN {s : Series} {p : Point}
    (h : (s.within w).getLast? = some p) (hp : p.value.isNaN = false) :
    s.rankingValue .current w = some p.value.toFloat := by
  rw [rankingValue_current, h, Option.bind_some, Option.filter_some, Sample.isNaN_toFloat, hp]
  rfl

theorem rankingValue_current_of_nil {s : Series} (h : s.within w = []) :
    s.rankingValue .current w = none := by
  rw [rankingValue_current, h]
  rfl

/-- A ranking by the latest sample finds nothing in numbers just if there are none. -/
theorem rankingValue_current_numbers_eq_none_iff (s : Series) :
    s.numbers.rankingValue .current w = none ↔ ∀ q ∈ s.within w, q.value.isNaN = true := by
  have hnil : s.numbers.within w = [] ↔ ∀ q ∈ s.within w, q.value.isNaN = true := by
    rw [within_numbers, List.filter_eq_nil_iff]
    simp
  rw [← hnil]
  refine ⟨fun hnone => ?_, rankingValue_current_of_nil⟩
  cases hlast : (s.numbers.within w).getLast? with
  | none => exact List.getLast?_eq_none_iff.1 hlast
  | some q =>
    have hmem := List.mem_of_getLast? hlast
    rw [within_numbers, List.mem_filter] at hmem
    rw [rankingValue_current_of_not_isNaN hlast (by simpa using hmem.2)] at hnone
    cases hnone

/-- The latest sample alone is looked at: an earlier number counts only once what follows is gone. -/
theorem rankingValue_current_numbers_iff (s : Series) :
    s.numbers.rankingValue .current w = s.rankingValue .current w ↔
      ∀ p, Latest (s.within w) (some p) → p.value.isNaN = true →
        ∀ q ∈ s.within w, q.value.isNaN = true := by
  have hascending : (s.within w).Pairwise fun p q => p.timestamp < q.timestamp :=
    points_view w s ▸ (s.view w .identity).pairwise_points
  have hlatest (p : Point) : Latest (s.within w) (some p) ↔ (s.within w).getLast? = some p :=
    ⟨fun h => h.getLast?_eq hascending, fun h => h ▸ latest_getLast? hascending⟩
  simp only [hlatest]
  cases hlast : (s.within w).getLast? with
  | none =>
    have hnil : s.within w = [] := List.getLast?_eq_none_iff.1 hlast
    rw [rankingValue_current_of_nil hnil, rankingValue_current_numbers_eq_none_iff, hnil]
    simp
  | some p =>
    cases hp : p.value.isNaN with
    | true =>
      rw [rankingValue_current_of_isNaN hlast hp, rankingValue_current_numbers_eq_none_iff]
      simp [hp]
    | false =>
      have hnumbers : (s.numbers.within w).getLast? = some p := by
        obtain ⟨front, hfront⟩ := List.getLast?_eq_some_iff.1 hlast
        rw [within_numbers, hfront, List.filter_append, List.filter_singleton, hp]
        exact List.getLast?_concat
      rw [rankingValue_current_of_not_isNaN hlast hp, rankingValue_current_of_not_isNaN hnumbers hp]
      simp [hp]

/-- No window whose bounds are out of order has anything to rank. -/
theorem rankingValue_of_lt (h : w.stop < w.start) (criterion : Criterion) (s : Series) :
    s.rankingValue criterion w = none := by
  cases criterion with
  | max =>
    rw [rankingValue_max, within_of_lt h]
    rfl
  | current => exact rankingValue_current_of_nil (within_of_lt h s)

end Series

/-! ## Tables of changed series -/

namespace Select

variable {criterion : Criterion} {w : Window}

theorem valueAt_eq_rankingValue (ss : List Series) (i : Nat) :
    valueAt criterion w ss i = ss[i]?.bind (Series.rankingValue criterion w) := rfl

/-- A table has a row with its value for each series. -/
theorem result_table_map_eq_iff {f : Series → Series} (hf : ∀ s, (f s).metric = s.metric)
    (ss : List Series) :
    (table w criterion (ss.map f)).result = (table w criterion ss).result ↔
      ∀ s ∈ ss, (f s).rankingValue criterion w = s.rankingValue criterion w := by
  by_cases hw : w.start ≤ w.stop
  · rw [result_table hw, result_table hw, List.length_map]
    constructor
    · intro htables s hs
      obtain ⟨i, hi, rfl⟩ := List.getElem_of_mem hs
      have hrow : RankEntry.mk (valueAt criterion w (ss.map f) i) i ∈
          (Ranking.order (valueAt criterion w (ss.map f)) ss.length).map fun i =>
            ⟨valueAt criterion w (ss.map f) i, i⟩ :=
        List.mem_map_of_mem ((Ranking.order_perm _ _).mem_iff.2 (List.mem_range.2 hi))
      rw [Except.ok.inj htables] at hrow
      obtain ⟨j, -, hj⟩ := List.mem_map.1 hrow
      obtain ⟨hvalue, rfl⟩ := RankEntry.mk.inj hj
      rw [valueAt_eq_rankingValue, valueAt_eq_rankingValue, List.getElem?_map,
        List.getElem?_eq_getElem hi] at hvalue
      exact hvalue.symm
    · intro hvalues
      have hsame : valueAt criterion w (ss.map f) = valueAt criterion w ss := by
        funext i
        rw [valueAt_eq_rankingValue, valueAt_eq_rankingValue, List.getElem?_map]
        cases hs : ss[i]? with
        | none => rfl
        | some s => exact hvalues s (List.mem_of_getElem? hs)
      rw [hsame]
  · have hw : w.stop < w.start := Int64.not_le.1 hw
    refine iff_of_true ?_ fun s _ => ?_
    · cases ss with
      | nil => rfl
      | cons s ss => rw [List.map_cons, result_table_inverted hw, result_table_inverted hw, hf]
    · rw [Series.rankingValue_of_lt hw, Series.rankingValue_of_lt hw]

/-- A ranking by the greatest sample does not see what is no number. A ranking by the latest sample does
not, either, unless this comes last in a series that has numbers. -/
theorem table_numbers (w : Window) (ss : List Series) :
    (table w .max (ss.map Series.numbers)).result = (table w .max ss).result ∧
    ((table w .current (ss.map Series.numbers)).result = (table w .current ss).result ↔
      ∀ s ∈ ss, ∀ p, Latest (s.within w) (some p) → p.value.isNaN = true →
        ∀ q ∈ s.within w, q.value.isNaN = true) := by
  constructor
  · rw [result_table_map_eq_iff Series.metric_numbers]
    exact fun s _ => s.rankingValue_max_numbers
  · rw [result_table_map_eq_iff Series.metric_numbers]
    exact forall₂_congr fun s _ => s.rankingValue_current_numbers_iff

/-- A series that has a number before what is none, and a series of one lesser number. -/
def maskedSeries : List Series :=
  [({ metric := "a" } : Series).insertAll [⟨1, .int 5⟩, ⟨2, .float Binary64.notANumber⟩],
    ({ metric := "b" } : Series).insertAll [⟨1, .int 3⟩]]

theorem table_numbers_masked :
    (table ⟨0, 100000⟩ .current (maskedSeries.map Series.numbers)).result ≠
      (table ⟨0, 100000⟩ .current maskedSeries).result := by
  rw [Ne, result_table_map_eq_iff Series.metric_numbers]
  intro hvalues
  have hfirst := hvalues _ (List.mem_cons_self)
  exact absurd hfirst (by decide)

end Select
end DerivedSeries
