import Mathlib
import DerivedSeries.Aggregator

/-!
# Exact combinations of integers

A sum or a product of words leaves the integers as soon as a partial result does not fit the range,
so in general it depends on the order of the operands. It does not where the absolute values of the
operands, added up or multiplied, fit the range: they bound every partial result of every order
(`Exact`). Such words are combined exactly (`fold_words`), in any order (`fold_perm`), and also in
parts that are combined first (`fold_flatten`).
-/

namespace DerivedSeries

/-- The absolute values of integers, added up. -/
def absSum (ns : List Int) : Nat :=
  (ns.map Int.natAbs).sum

/-- The absolute values of integers, multiplied, with one in the place of zero. -/
def absProduct (ns : List Int) : Nat :=
  (ns.map fun n => max 1 n.natAbs).prod

/-- An operation combines integers to a value that neither their order nor a grouping changes, and a
size bounds the values of all parts of them. -/
structure Exact (op : Int → Int → Int) (value : List Int → Int) (size : List Int → Nat) : Prop where
  value_cons : ∀ n ns, value (n :: ns) = ns.foldl op n
  value_perm : ∀ ms ns, ms.Perm ns → value ms = value ns
  value_flatten : ∀ nss : List (List Int), value nss.flatten = value (nss.map value)
  natAbs_value_le : ∀ ns, (value ns).natAbs ≤ size ns
  size_le : ∀ ms ns, List.Subperm ms ns → size ms ≤ size ns
  size_values_le : ∀ nss : List (List Int), size (nss.map value) ≤ size nss.flatten

theorem natAbs_sum_le (ns : List Int) : ns.sum.natAbs ≤ absSum ns :=
  List.le_sum_of_subadditive Int.natAbs (by decide) Int.natAbs_add_le ns

theorem max_one_natAbs_mul_le (m n : Int) :
    max 1 (m * n).natAbs ≤ max 1 m.natAbs * max 1 n.natAbs := by
  rw [Int.natAbs_mul]
  apply Nat.max_le.2
  constructor
  · exact Nat.mul_le_mul (Nat.le_max_left 1 _) (Nat.le_max_left 1 _)
  · exact Nat.mul_le_mul (Nat.le_max_right 1 _) (Nat.le_max_right 1 _)

theorem max_one_natAbs_prod_le (ns : List Int) : max 1 ns.prod.natAbs ≤ absProduct ns :=
  List.le_prod_of_submultiplicative (fun n : Int => max 1 n.natAbs) (by decide)
    max_one_natAbs_mul_le ns

theorem exact_sum : Exact (· + ·) List.sum absSum where
  value_cons n ns := by
    rw [List.sum_eq_foldl, List.foldl_cons, Int.zero_add]
  value_perm _ _ h := h.sum_eq
  value_flatten _ := List.sum_flatten
  natAbs_value_le := natAbs_sum_le
  size_le ms ns h := by
    obtain ⟨ks, hperm, hsub⟩ := h
    unfold absSum
    rw [← (hperm.map _).sum_eq]
    exact (hsub.map _).sum_le_sum fun _ _ => Nat.zero_le _
  size_values_le nss := by
    unfold absSum
    rw [List.map_map, List.map_flatten, List.sum_flatten, List.map_map]
    exact List.sum_le_sum fun ns _ => natAbs_sum_le ns

theorem exact_product : Exact (· * ·) List.prod absProduct where
  value_cons n ns := by
    rw [List.prod_eq_foldl, List.foldl_cons, Int.one_mul]
  value_perm _ _ h := h.prod_eq
  value_flatten _ := List.prod_flatten
  natAbs_value_le ns := Nat.le_trans (Nat.le_max_right 1 _) (max_one_natAbs_prod_le ns)
  size_le ms ns h := by
    obtain ⟨ks, hperm, hsub⟩ := h
    unfold absProduct
    rw [← (hperm.map _).prod_eq]
    refine (hsub.map _).prod_le_prod' fun n hn => ?_
    obtain ⟨m, -, rfl⟩ := List.mem_map.1 hn
    exact Nat.le_max_left 1 _
  size_values_le nss := by
    unfold absProduct
    rw [List.map_map, List.map_flatten, List.prod_flatten, List.map_map]
    exact List.prod_le_prod' fun ns _ => max_one_natAbs_prod_le ns

/-! ## Folds of words -/

/-- An integer within the range of absolute values is a word. -/
theorem exists_word {n : Int} (h : n.natAbs ≤ Int64.maxValue.toInt) : ∃ v : Int64, v.toInt = n := by
  have hmin : Int64.minValue.toInt = -9223372036854775808 := rfl
  have hmax : Int64.maxValue.toInt = 9223372036854775807 := rfl
  exact ⟨Int64.ofInt n, Int64.toInt_ofInt_of_le (by omega) (by omega)⟩

namespace Aggregator

theorem fold_eq_none_iff {op : Int → Int → Int} {opFloat : Float → Float → Float}
    {ss : List Sample} : fold op opFloat ss = none ↔ ss = [] := by
  cases ss <;> simp [fold]

/-- Words are combined exactly as long as no partial result leaves the range. -/
theorem foldlM_words (op : Int → Int → Int) {v : Int64} {vs : List Int64}
    (h : ∀ us, us <+: vs → ∃ r : Int64, r.toInt = (us.map Int64.toInt).foldl op v.toInt) :
    ∃ r : Int64, (vs.map Sample.int).foldlM (combineInts op) (.int v) = some (.int r) ∧
      r.toInt = (vs.map Int64.toInt).foldl op v.toInt := by
  induction vs generalizing v with
  | nil => exact ⟨v, rfl, rfl⟩
  | cons u vs ih =>
    have hfirst : ∃ w : Int64, w.toInt = op v.toInt u.toInt := h [u] ⟨vs, rfl⟩
    obtain ⟨w, hw⟩ := hfirst
    have hstep : combineInts op (.int v) (.int u) = some (.int w) := by
      show (int64? (op v.toInt u.toInt)).map Sample.int = _
      rw [int64?_eq_some_iff.2 hw]
      rfl
    obtain ⟨r, hr, hval⟩ := ih (v := w) fun us hus => by
      rw [hw]
      exact h (u :: us) (List.cons_prefix_cons.2 ⟨rfl, hus⟩)
    refine ⟨r, ?_, ?_⟩
    · rw [List.map_cons, List.foldlM_cons, hstep]
      exact hr
    · rw [hval, hw]
      rfl

variable {op : Int → Int → Int} {value : List Int → Int} {size : List Int → Nat}

/-- Words whose size fits are combined exactly. -/
theorem fold_words (h : Exact op value size) (opFloat : Float → Float → Float) {vs : List Int64}
    (hne : vs ≠ []) (hsize : size (vs.map Int64.toInt) ≤ Int64.maxValue.toInt) :
    ∃ r : Int64, fold op opFloat (vs.map .int) = some (.int r) ∧
      r.toInt = value (vs.map Int64.toInt) := by
  obtain ⟨v, vs, rfl⟩ := List.exists_cons_of_ne_nil hne
  -- no partial result leaves the range, for its operands are a part of all of them
  have hprefix : ∀ us, us <+: vs →
      ∃ r : Int64, r.toInt = (us.map Int64.toInt).foldl op v.toInt := by
    intro us hus
    apply exists_word
    have hpart : List.Subperm ((v :: us).map Int64.toInt) ((v :: vs).map Int64.toInt) :=
      ((hus.sublist.cons_cons v).map _).subperm
    have hvalue := h.natAbs_value_le ((v :: us).map Int64.toInt)
    have hle := h.size_le _ _ hpart
    rw [List.map_cons, h.value_cons] at hvalue
    rw [List.map_cons] at hle
    omega
  obtain ⟨r, hr, hval⟩ := foldlM_words op hprefix
  refine ⟨r, ?_, ?_⟩
  · rw [List.map_cons, fold, hr]
    rfl
  · rw [List.map_cons, h.value_cons, hval]

theorem fold_perm (h : Exact op value size) (opFloat : Float → Float → Float)
    {us vs : List Int64} (hperm : us.Perm vs)
    (hsize : size (us.map Int64.toInt) ≤ Int64.maxValue.toInt) :
    fold op opFloat (us.map .int) = fold op opFloat (vs.map .int) := by
  by_cases hnil : us = []
  · subst hnil
    rw [List.nil_perm.1 hperm]
  · have hne : vs ≠ [] := by
      rintro rfl
      exact hnil (List.perm_nil.1 hperm)
    have hle := h.size_le _ _ (hperm.symm.map Int64.toInt).subperm
    obtain ⟨r, hr, hrval⟩ := fold_words h opFloat hnil hsize
    obtain ⟨q, hq, hqval⟩ := fold_words h opFloat hne (by omega)
    have heq : r = q := by
      rw [← Int64.toInt_inj, hrval, hqval, h.value_perm _ _ (hperm.map Int64.toInt)]
    rw [hr, hq, heq]

/-- Lists of words that are small each are combined to words, and empty lists to nothing. -/
theorem filterMap_fold_words (h : Exact op value size) (opFloat : Float → Float → Float)
    {vss : List (List Int64)}
    (hsize : ∀ vs ∈ vss, size (vs.map Int64.toInt) ≤ Int64.maxValue.toInt) :
    ∃ rs : List Int64,
      (vss.map (List.map Sample.int)).filterMap (fold op opFloat) = rs.map .int ∧
      rs.map Int64.toInt =
        ((vss.map (List.map Int64.toInt)).filter fun ns => decide (ns ≠ [])).map value := by
  induction vss with
  | nil => exact ⟨[], rfl, rfl⟩
  | cons vs vss ih =>
    obtain ⟨rs, hrs, hvals⟩ := ih fun us hus => hsize us (by simp [hus])
    by_cases hvs : vs = []
    · subst hvs
      exact ⟨rs, hrs, hvals⟩
    · obtain ⟨r, hr, hval⟩ := fold_words h opFloat hvs (hsize vs (by simp))
      refine ⟨r :: rs, ?_, ?_⟩
      · rw [List.map_cons, List.filterMap_cons_some hr, hrs, List.map_cons]
      · rw [List.map_cons, hval, hvals, List.map_cons, List.filter_cons_of_pos (by simpa using hvs),
          List.map_cons]

/-- Words that are small together are combined exactly in parts, too. -/
theorem fold_flatten (h : Exact op value size) (opFloat : Float → Float → Float)
    {vss : List (List Int64)}
    (hsize : size (vss.flatten.map Int64.toInt) ≤ Int64.maxValue.toInt) :
    fold op opFloat ((vss.map (List.map Sample.int)).filterMap (fold op opFloat)) =
      fold op opFloat (vss.flatten.map .int) := by
  have hpart : ∀ vs ∈ vss, size (vs.map Int64.toInt) ≤ Int64.maxValue.toInt := by
    intro vs hvs
    have hle := h.size_le _ _ ((List.sublist_flatten_of_mem hvs).map Int64.toInt).subperm
    omega
  obtain ⟨rs, hrs, hvals⟩ := filterMap_fold_words h opFloat hpart
  generalize hparts : (vss.map (List.map Int64.toInt)).filter (fun ns => decide (ns ≠ [])) = parts
    at hvals
  have hflatten : parts.flatten = vss.flatten.map Int64.toInt := by
    rw [← hparts, List.flatten_filter_ne_nil, List.map_flatten]
  rw [hrs]
  cases rs with
  | nil =>
    have hnil : parts = [] := List.map_eq_nil_iff.1 hvals.symm
    rw [hnil] at hflatten
    rw [List.map_eq_nil_iff.1 hflatten.symm]
  | cons r rs =>
    have hne : vss.flatten ≠ [] := by
      intro hempty
      rw [← hparts, List.filter_eq_nil_iff.2] at hvals
      · cases hvals
      · intro ns hns
        obtain ⟨vs, hvs, rfl⟩ := List.mem_map.1 hns
        simp [List.flatten_eq_nil_iff.1 hempty vs hvs]
    have hsizes := h.size_values_le parts
    rw [hflatten, ← hvals] at hsizes
    obtain ⟨p, hp, hpval⟩ := fold_words h opFloat (List.cons_ne_nil r rs) (by omega)
    obtain ⟨q, hq, hqval⟩ := fold_words h opFloat hne hsize
    have heq : p = q := by
      rw [← Int64.toInt_inj, hpval, hqval, hvals, ← h.value_flatten, hflatten]
    rw [hp, hq, heq]

end Aggregator
end DerivedSeries
