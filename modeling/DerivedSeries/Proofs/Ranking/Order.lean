import DerivedSeries.Proofs.Ranking.Value

/-!
# Ranking order

Positions rank by their values: one with a value before one without, the greater value first, and
the earlier position among equals (`Before`). The ranking of values that are numbers is the list of
all positions in this order (`sort_range`, `pairwise_order`).
-/

namespace DerivedSeries.Ranking

/-- The position `i` stands before the position `j` when positions have these values. -/
def Before (value : Nat → Option Float) (i j : Nat) : Prop :=
  match value i, value j with
  | some x, some y => y < x ∨ (x == y) = true ∧ i < j
  | some _, none => True
  | none, some _ => False
  | none, none => i < j

/-- What orders the value of a position: none comes below every number. -/
def rank (value : Option Float) : Option (List Int) :=
  value.map Binary64.key

/-- The position `i` need not stand after the position `j`, wherever they are. -/
def atLeast (value : Nat → Option Float) (i j : Nat) : Bool :=
  (compare (rank (value j)) (rank (value i))).isLE

/-- The positions below `n`, from the greatest value down. -/
def order (value : Nat → Option Float) (n : Nat) : List Nat :=
  (List.range n).mergeSort (atLeast value)

theorem order_perm (value : Nat → Option Float) (n : Nat) :
    (order value n).Perm (List.range n) :=
  List.mergeSort_perm _ _

section
variable {value : Nat → Option Float}

theorem atLeast_trans (i j k : Nat) (hij : atLeast value i j) (hjk : atLeast value j k) :
    atLeast value i k :=
  Std.TransOrd.isLE_trans hjk hij

theorem atLeast_total (i j : Nat) : (atLeast value i j || atLeast value j i) = true := by
  unfold atLeast
  rw [Std.OrientedOrd.eq_swap (a := rank (value i))]
  cases compare (rank (value j)) (rank (value i)) <;> rfl

/-- Equal values keep their positions in order. -/
theorem pairwise_atLeast (n : Nat) :
    (order value n).Pairwise fun i j => atLeast value i j ∧ (atLeast value j i → i ≤ j) := by
  have hsort : ((List.range n).zipIdx.mergeSort (List.zipIdxLE (atLeast value))).Pairwise
      fun a b => List.zipIdxLE (atLeast value) a b :=
    List.pairwise_mergeSort (List.zipIdxLE_trans atLeast_trans)
      (List.zipIdxLE_total atLeast_total) _
  have hpos : ∀ e ∈ (List.range n).zipIdx.mergeSort (List.zipIdxLE (atLeast value)), e.1 = e.2 := by
    intro e he
    have hget := List.mem_zipIdx_iff_getElem?.1 (List.mem_mergeSort.1 he)
    obtain ⟨hlt, hval⟩ := List.getElem?_eq_some_iff.1 hget
    rw [← hval, List.getElem_range]
  rw [order, ← List.mergeSort_zipIdx, List.pairwise_map]
  refine hsort.imp_of_mem fun {a b} ha hb hab => ?_
  have ha := hpos a ha
  have hb := hpos b hb
  unfold List.zipIdxLE at hab
  by_cases hle : atLeast value a.1 b.1
  · refine ⟨hle, fun hge => ?_⟩
    rw [if_pos hle, if_pos hge, decide_eq_true_iff] at hab
    omega
  · rw [if_neg hle] at hab
    cases hab

theorem before_of_atLeast {i j : Nat} (hi : ∀ x, value i = some x → x.isNaN = false)
    (hj : ∀ y, value j = some y → y.isNaN = false) (h : atLeast value i j)
    (hpos : atLeast value j i → i < j) : Before value i j := by
  unfold atLeast rank at h hpos
  unfold Before
  cases hx : value i with
  | none =>
    cases hy : value j with
    | none =>
      rw [hx, hy] at hpos
      exact hpos rfl
    | some y =>
      rw [hx, hy] at h
      cases h
  | some x =>
    cases hy : value j with
    | none => exact trivial
    | some y =>
      rw [hx, hy] at h hpos
      have h : (compare (Binary64.key y) (Binary64.key x)).isLE := h
      have hpos : (compare (Binary64.key x) (Binary64.key y)).isLE → i < j := hpos
      rcases hc : compare (Binary64.key y) (Binary64.key x) with _ | _ | _
      · exact .inl ((Binary64.lt_iff (hj y hy) (hi x hx)).2 hc)
      · have hc' : compare (Binary64.key x) (Binary64.key y) = .eq := by
          rw [Std.OrientedOrd.eq_swap, hc]
          rfl
        refine .inr ⟨(Binary64.beq_iff (hi x hx) (hj y hy)).2 hc', hpos ?_⟩
        rw [hc']
        rfl
      · rw [hc] at h
        cases h

theorem pairwise_order (hv : ∀ i x, value i = some x → x.isNaN = false) (n : Nat) :
    (order value n).Pairwise (Before value) := by
  have hne : (order value n).Pairwise (· ≠ ·) := (order_perm value n).nodup_iff.2 List.nodup_range
  refine ((pairwise_atLeast n).and hne).imp fun {i j} h => ?_
  obtain ⟨⟨hle, hpos⟩, hij⟩ := h
  exact before_of_atLeast (hv i) (hv j) hle fun h => Nat.lt_of_le_of_ne (hpos h) hij

/-- Entries compare as their positions do. -/
theorem precedes_eq_atLeast (hv : ∀ i x, value i = some x → x.isNaN = false) (i j : Nat) :
    RankEntry.precedes ⟨value i, i⟩ ⟨value j, j⟩ = atLeast value i j := by
  unfold RankEntry.precedes atLeast rank
  cases hx : value i with
  | none => cases hy : value j <;> rfl
  | some x =>
    cases hy : value j with
    | none => rfl
    | some y =>
      show (!decide (x < y)) = (compare (Binary64.key y) (Binary64.key x)).isLE
      rw [Bool.eq_iff_iff, ← Binary64.le_iff (hv j y hy) (hv i x hx),
        ← Binary64.not_lt (hv i x hx) (hv j y hy)]
      simp

/-- The ranking of entries that stand at their positions. -/
theorem sort_range (hv : ∀ i x, value i = some x → x.isNaN = false) (n : Nat) :
    sort ((List.range n).map fun i => ⟨value i, i⟩) =
      (order value n).map fun i => ⟨value i, i⟩ :=
  (List.map_mergeSort fun i _ j _ => (precedes_eq_atLeast hv i j).symm).symm

end
end DerivedSeries.Ranking
