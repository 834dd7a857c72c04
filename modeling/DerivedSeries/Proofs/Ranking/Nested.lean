import DerivedSeries.Proofs.Acceptance

/-!
# Selections from selections

The series that a selection returns stand in the order of their ranking, so a second ranking finds them
sorted and moves none, equal and unobserved ones included (`Ranking.order_of_pairwise`). To select from a
selection is to select the fewer series at once (`Function.evaluate_highest_nested`).
-/

namespace DerivedSeries

/-- Values that stand at the positions of a ranking, in its order, are ranked already. -/
theorem Ranking.order_of_pairwise {value other : Nat → Option Float} {positions : List Nat}
    (h : positions.Pairwise fun i j => atLeast value i j)
    (hother : ∀ i (hi : i < positions.length), other i = value positions[i]) :
    order other positions.length = List.range positions.length := by
  apply List.mergeSort_of_pairwise
  rw [List.pairwise_iff_getElem] at h ⊢
  intro i j hi hj hij
  simp only [List.length_range] at hi hj
  simp only [List.getElem_range]
  unfold atLeast
  rw [hother i hi, hother j hj]
  exact h i j hi hj hij

namespace Select

variable {criterion : Criterion} {c : Config} {w : Window} {input : Input} {k j : Nat}
  {params fewer : List String}

/-- A selection looks at the series of its input, however they are grouped. -/
theorem highest_congr {other : Input} (h : input.series = other.series) :
    highest criterion c w input params = highest criterion c w other params := by
  unfold highest
  rw [h]

/-! ## Ranking a selection -/

variable {ss out : List Series} {positions : List Nat}

theorem getElem?_selected (hout : out.map some = positions.map (ss[·]?)) (i : Nat)
    (hi : i < positions.length) : out[i]? = ss[positions[i]]? := by
  have hlength : out.length = positions.length := by
    simpa using congrArg List.length hout
  have hget : (out.map some)[i]? = (positions.map (ss[·]?))[i]? := by rw [hout]
  have hi' : i < out.length := hlength ▸ hi
  simpa [hi, hi'] using hget

theorem valueAt_selected (hout : out.map some = positions.map (ss[·]?)) (i : Nat)
    (hi : i < positions.length) :
    valueAt criterion w out i = valueAt criterion w ss positions[i] := by
  unfold valueAt
  rw [getElem?_selected hout i hi]

/-- The first of a list, by their positions. -/
theorem map_some_take (out : List Series) (j : Nat) :
    ((List.range out.length).take j).map (out[·]?) = (out.take j).map some := by
  apply List.ext_getElem?
  intro i
  rcases Nat.lt_or_ge i (min j out.length) with hlt | hge
  · have hj : i < j := by omega
    have hi : i < out.length := by omega
    simp [hj, hi]
  · rw [List.getElem?_eq_none, List.getElem?_eq_none]
    · simpa using hge
    · simpa using hge

/-- From series in the order of their ranking, the first come back. -/
theorem result_highest_selected (hj : count fewer = .ok j) (hpos : 0 < out.length)
    (h : w.start ≤ w.stop)
    (hranked : Ranking.order (valueAt criterion w out) out.length = List.range out.length) :
    (highest criterion c w [out] fewer).result = .ok (out.take j) := by
  have hseries : Input.series [out] = out := List.flatten_singleton
  have hsize : Input.size [out] = out.length := congrArg List.length hseries
  rcases Nat.lt_or_ge j out.length with hlt | hge
  · obtain ⟨top, hresult, htop⟩ := exists_highest criterion hj (hsize ▸ hlt) c h
    rw [hseries, hsize, hranked, map_some_take] at htop
    rw [hresult, List.map_injective_iff.2 (Option.some_injective _) htop]
  · rw [result_highest_of_ge hj (hsize ▸ hpos) (hsize ▸ hge), hseries, List.take_of_length_le hge]

/-- A smaller selection takes the first of a larger one. -/
theorem eq_take_of_selected {top : List Series} (hjk : j ≤ k)
    (hout : out.map some = (positions.take k).map (ss[·]?))
    (htop : top.map some = (positions.take j).map (ss[·]?)) : top = out.take j := by
  apply List.map_injective_iff.2 (Option.some_injective Series)
  have htake : (out.take j).map some = (out.map some).take j := List.map_take
  rw [htop, htake, hout, ← List.map_take, List.take_take, Nat.min_eq_left hjk]

/-! ## The nested selection -/

theorem result_highest_nested_of_lt (hk : count params = .ok k) (hj : count fewer = .ok j)
    (hjk : j ≤ k) (hlt : k < input.size) (c : Config) (h : w.start ≤ w.stop) :
    ((highest criterion c w input params).result >>= fun out =>
        (highest criterion c w [out] fewer).result) =
      (highest criterion c w input fewer).result := by
  obtain ⟨out, hresult, hout⟩ := exists_highest criterion hk hlt c h
  obtain ⟨top, htopResult, htop⟩ := exists_highest criterion hj (Nat.lt_of_le_of_lt hjk hlt) c h
  have hlength : ((Ranking.order (valueAt criterion w input.series) input.size).take k).length =
      out.length := by
    simpa using (congrArg List.length hout).symm
  have hsize : out.length = k := by
    rw [← hlength, List.length_take, (Ranking.order_perm _ _).length_eq, List.length_range]
    omega
  have hpos : 0 < out.length := by
    obtain ⟨_, _, _, hpos, _⟩ := count_eq_ok_iff.1 hk
    omega
  have hdescending : ((Ranking.order (valueAt criterion w input.series) input.size).take k).Pairwise
      fun i j => Ranking.atLeast (valueAt criterion w input.series) i j :=
    ((Ranking.pairwise_atLeast _).imp And.left).take
  have hranked := Ranking.order_of_pairwise hdescending (valueAt_selected hout)
  rw [hlength] at hranked
  rw [hresult, htopResult, eq_take_of_selected hjk hout htop]
  exact result_highest_selected hj hpos h hranked

theorem result_highest_nested (hk : count params = .ok k) (hj : count fewer = .ok j) (hjk : j ≤ k)
    (hpos : 0 < input.size) (criterion : Criterion) (c : Config) (w : Window) :
    ((highest criterion c w input params).result >>= fun out =>
        (highest criterion c w [out] fewer).result) =
      (highest criterion c w input fewer).result := by
  rcases Nat.lt_or_ge k input.size with hlt | hge
  · by_cases h : w.start ≤ w.stop
    · exact result_highest_nested_of_lt hk hj hjk hlt c h
    · have h : w.stop < w.start := Int64.not_le.1 h
      obtain ⟨s, ss, hs⟩ := List.exists_cons_of_length_pos hpos
      rw [result_highest_inverted hk hlt h hs,
        result_highest_inverted hj (Nat.lt_of_le_of_lt hjk hlt) h hs]
      rfl
  · have hsame : highest criterion c w [input.series] fewer = highest criterion c w input fewer :=
      highest_congr List.flatten_singleton
    rw [result_highest_of_ge hk hpos hge, ← hsame]
    rfl

end Select

namespace Function

variable {input : Input} {k j : Nat} {params fewer : List String}

/-- To select from a selection is to select at once: the same series in the same order, or the same
refusal of the window. -/
theorem evaluate_highest_nested (hk : Select.count params = .ok k) (hj : Select.count fewer = .ok j)
    (hjk : j ≤ k) (hpos : 0 < input.size) (criterion : Criterion) (c : Config) (w : Window) :
    (((highest criterion).evaluate c w input params).result >>= fun out =>
        ((highest criterion).evaluate c w [out] fewer).result) =
      ((highest criterion).evaluate c w input fewer).result ∧
    (w.start ≤ w.stop → ∃ out, ((highest criterion).evaluate c w input fewer).result = .ok out ∧
      out.length = min j input.size) := by
  refine ⟨Select.result_highest_nested hk hj hjk hpos criterion c w, fun h => ?_⟩
  have houtcome := (outcome_evaluate (highest criterion) c h input fewer).total
  obtain ⟨out, hout⟩ := houtcome.2.1.2 ⟨hpos, j, Select.count_eq_ok_iff.1 hj⟩
  obtain ⟨i, hasks, hlength, -⟩ := houtcome.2.2 out hout
  cases hj.symm.trans (Select.count_eq_ok_iff.2 hasks)
  exact ⟨out, hout, hlength⟩

/-- Of a tie of two series, a selection from a selection takes the first. -/
theorem evaluate_highest_nested_tied :
    Select.count ["2"] = .ok 2 ∧ Select.count ["1"] = .ok 1 ∧ 0 < tiedInput.size ∧
      (((highest .max).evaluate {} ⟨0, 10000⟩ tiedInput ["2"]).result >>= fun out =>
          ((highest .max).evaluate {} ⟨0, 10000⟩ [out] ["1"]).result) =
        ((highest .max).evaluate {} ⟨0, 10000⟩ tiedInput ["1"]).result :=
  ⟨rfl, rfl, by decide, (evaluate_highest_nested rfl rfl (by decide) (by decide) .max {} _).1⟩

end Function
end DerivedSeries
