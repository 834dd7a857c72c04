import DerivedSeries.Proofs.Binary64.Rounding
import DerivedSeries.Proofs.Ranking.Contributed
import DerivedSeries.Proofs.Ranking.Selection
import DerivedSeries.Proofs.Word

/-!
# Rankings of integers

Integers rank as doubles, and beyond `2 ^ 53` two of them can be the same double. A ranking then puts the
lesser integer first if its series comes first. So a selection of series of integers takes those of the
greatest integers unless such a series is among the first (`Select.takesGreatest_iff`), which no series is
while the integers go up to `2 ^ 53`.
-/

namespace DerivedSeries

/-- In a list that a relation orders, the members of a front are those behind few others. -/
theorem mem_take_iff_countP {α : Type} {R : α → α → Prop} [DecidableRel R]
    (hasymm : ∀ a b, R a b → ¬ R b a) {l : List α} (h : l.Pairwise R) {a : α} (ha : a ∈ l) {k : Nat} :
    a ∈ l.take k ↔ l.countP (R · a) < k := by
  obtain ⟨front, back, rfl⟩ := List.append_of_mem ha
  obtain ⟨-, hback, hfront⟩ := List.pairwise_append.1 h
  have hirrefl : ¬ R a a := fun haa => hasymm a a haa haa
  have hahead : front.countP (R · a) = front.length :=
    List.countP_eq_length.2 fun b hb => decide_eq_true (hfront b hb a (by simp))
  have hbehind : (a :: back).countP (R · a) = 0 := by
    rw [List.countP_eq_zero]
    intro b hb
    rw [decide_eq_true_iff]
    rcases List.mem_cons.1 hb with rfl | hb
    · exact hirrefl
    · exact hasymm a b ((List.pairwise_cons.1 hback).1 b hb)
  rw [List.countP_append, hahead, hbehind, Nat.add_zero, List.take_append, List.mem_append]
  constructor
  · rintro (hmem | hmem)
    · exact absurd (hfront a (List.mem_of_mem_take hmem) a (by simp)) hirrefl
    · by_contra hle
      rw [Nat.sub_eq_zero_of_le (Nat.le_of_not_lt hle)] at hmem
      cases hmem
  · intro hlt
    obtain ⟨m, hm⟩ := Nat.exists_eq_add_of_lt hlt
    refine .inr ?_
    rw [show k - front.length = m + 1 by omega]
    exact List.mem_cons_self

/-! ## The exact values -/

/-- The integer that points of integers rank by: the greatest of them, or the one at the latest time. -/
def Criterion.Exact : Criterion → List Point → Int64 → Prop
  | max, ps, v => Greatest ((ps.map Point.value).filterMap Sample.int?) (some v)
  | current, ps, v => ∃ t, Latest ps (some ⟨t, .int v⟩)

theorem Greatest.unique {xs : List Int64} {v : Int64} {m : Option Int64} (h : Greatest xs (some v))
    (hm : Greatest xs m) : m = some v := by
  cases m with
  | none =>
    cases hm
    exact absurd h.1 List.not_mem_nil
  | some u => exact congrArg some (Int64.le_antisymm (h.2 u hm.1) (hm.2 v h.1))

theorem Series.IntegralIn.scan_eq {w : Window} {s : Series} (hint : s.IntegralIn w)
    {criterion : Criterion} {v : Int64} (h : criterion.Exact (s.within w) v) :
    criterion.scan (s.view w .identity) = { intMax := some v } := by
  cases criterion with
  | max =>
    obtain ⟨ns, hns⟩ := Point.exists_ints hint
    have hsamples : Criterion.max.samples (s.view w .identity) = ns.map .int := by
      rw [← hns, ← Series.points_view]
      rfl
    obtain ⟨hgreatest, hfloat⟩ := Criterion.scan_of_ints hsamples
    have h : Greatest (((s.within w).map Point.value).filterMap Sample.int?) (some v) := h
    rw [hns, Sample.filterMap_int?_map_int] at h
    have hint := h.unique hgreatest
    generalize Criterion.max.scan (s.view w .identity) = m at hint hfloat
    obtain ⟨_, _⟩ := m
    cases hint
    cases hfloat
    rfl
  | current =>
    obtain ⟨t, hlatest⟩ := h
    rw [← Series.points_view] at hlatest
    show ((s.view w .identity).points.getLast?.map Point.value).toList.foldl Maxima.observe {} = _
    rw [hlatest.getLast?_eq (s.view w .identity).pairwise_points]
    rfl

/-! ## Integers as doubles -/

namespace Ranking

/-- Two integers are the same double. -/
def Alike (u v : Int64) : Prop :=
  (Binary64.ofInt u.toInt == Binary64.ofInt v.toInt) = true

/-- By doubles, one position ranks ahead of another: its integer is greater, or it comes first of two that
are alike. -/
def Ahead (value : Nat → Int64) (i j : Nat) : Prop :=
  Binary64.ofInt (value j).toInt < Binary64.ofInt (value i).toInt ∨
    Alike (value i) (value j) ∧ i < j

instance (u v : Int64) : Decidable (Alike u v) :=
  inferInstanceAs (Decidable (_ = true))

instance (value : Nat → Int64) : DecidableRel (Ahead value) := fun _ _ =>
  inferInstanceAs (Decidable (_ ∨ _))

/-- How many of the first `n` positions rank ahead of one. -/
def countAhead (value : Nat → Int64) (n i : Nat) : Nat :=
  (List.range n).countP (Ahead value · i)

/-- Of the integers of a ranking, the first `k` descend, and none of the others exceeds one of them. -/
structure Leads (k : Nat) (vs : List Int64) : Prop where
  descending : (vs.take k).Pairwise fun u v => v ≤ u
  greatest : ∀ u ∈ vs.take k, ∀ v ∈ vs.drop k, v ≤ u

theorem ofInt_toInt_le {u v : Int64} (h : u ≤ v) :
    Binary64.ofInt u.toInt ≤ Binary64.ofInt v.toInt :=
  Binary64.ofInt_le (Int64.le_iff_toInt_le.1 h) (natAbs_toInt_le u) (natAbs_toInt_le v)

section
variable {value : Nat → Int64} {i j : Nat}

theorem ahead_of_before {ranks : Nat → Option Float}
    (hi : ranks i = some (Binary64.ofInt (value i).toInt))
    (hj : ranks j = some (Binary64.ofInt (value j).toInt)) (h : Before ranks i j) :
    Ahead value i j := by
  unfold Before at h
  rwa [hi, hj] at h

theorem Ahead.asymm (h : Ahead value i j) : ¬ Ahead value j i := by
  unfold Ahead Alike at h ⊢
  have hi := Binary64.isNaN_ofInt (value i).toInt
  have hj := Binary64.isNaN_ofInt (value j).toInt
  rw [Binary64.lt_iff hj hi, Binary64.beq_iff hi hj, Std.OrientedOrd.eq_swap] at h
  rw [Binary64.lt_iff hi hj, Binary64.beq_iff hj hi,
    Std.OrientedOrd.eq_swap (a := Binary64.key (Binary64.ofInt (value j).toInt))]
  cases hc : compare (Binary64.key (Binary64.ofInt (value i).toInt))
      (Binary64.key (Binary64.ofInt (value j).toInt)) with
  | lt => simp [hc] at h
  | eq =>
    simp [hc] at h ⊢
    omega
  | gt => simp

/-- By integers too, what ranks ahead is not less, unless the two are alike. -/
theorem Ahead.le_or_alike (h : Ahead value i j) :
    value j ≤ value i ∨ Alike (value i) (value j) ∧ i < j := by
  refine h.imp_left fun hlt => Int64.not_lt.1 fun hless => ?_
  have hle := ofInt_toInt_le (Int64.le_of_lt hless)
  exact (Binary64.not_lt (Binary64.isNaN_ofInt _) (Binary64.isNaN_ofInt _)).2 hle hlt

end

section
variable {value : Nat → Int64} {order : List Nat} {k n : Nat}

theorem leads_iff_forall_ahead (h : order.Pairwise (Ahead value)) :
    Leads k (order.map value) ↔
      ∀ i ∈ order.take k, ∀ j ∈ order, Ahead value i j → value j ≤ value i := by
  constructor
  · rintro ⟨hdescending, hgreatest⟩ i hi j hj hij
    rw [← List.map_take, List.pairwise_map] at hdescending
    rw [← List.take_append_drop k order, List.mem_append] at hj
    rcases hj with hj | hj
    · obtain ⟨a, ha, rfl⟩ := List.getElem_of_mem hi
      obtain ⟨b, hb, rfl⟩ := List.getElem_of_mem hj
      rcases Nat.lt_trichotomy a b with hab | rfl | hba
      · exact List.pairwise_iff_getElem.1 hdescending a b ha hb hab
      · exact Int64.le_refl _
      · exact absurd (List.pairwise_iff_getElem.1 h.take b a hb ha hba) hij.asymm
    · rw [← List.map_take, ← List.map_drop] at hgreatest
      exact hgreatest _ (List.mem_map_of_mem hi) _ (List.mem_map_of_mem hj)
  · intro hle
    constructor
    · rw [← List.map_take, List.pairwise_map]
      exact h.take.imp_of_mem fun ha hb hab => hle _ ha _ (List.mem_of_mem_take hb) hab
    · rw [← List.map_take, ← List.map_drop]
      intro u hu v hv
      obtain ⟨i, hi, rfl⟩ := List.mem_map.1 hu
      obtain ⟨j, hj, rfl⟩ := List.mem_map.1 hv
      rw [← List.take_append_drop k order] at h
      exact hle i hi j (List.mem_of_mem_drop hj) ((List.pairwise_append.1 h).2.2 i hi j hj)

/-- The first of a ranking by doubles have the greatest integers, in order, just if none of them has the
lesser of two integers that are alike. -/
theorem leads_iff (hperm : order.Perm (List.range n)) (h : order.Pairwise (Ahead value)) :
    Leads k (order.map value) ↔ ∀ i j, i < j → j < n → value i < value j →
      Alike (value i) (value j) → k ≤ countAhead value n i := by
  have hmem {i : Nat} : i ∈ order ↔ i < n := hperm.mem_iff.trans List.mem_range
  have hfront {i : Nat} (hi : i < n) : i ∈ order.take k ↔ countAhead value n i < k := by
    unfold countAhead
    rw [← hperm.countP_eq]
    exact mem_take_iff_countP (fun _ _ hab => hab.asymm) h (hmem.2 hi)
  rw [leads_iff_forall_ahead h]
  constructor
  · intro hle i j hij hj hlt halike
    by_contra hk
    have hi : i ∈ order.take k := (hfront (Nat.lt_trans hij hj)).2 (Nat.not_le.1 hk)
    exact Int64.not_le.2 hlt (hle i hi j (hmem.2 hj) (.inr ⟨halike, hij⟩))
  · intro hbehind i hi j hj hij
    have hin : i < n := hmem.1 (List.mem_of_mem_take hi)
    by_contra hle
    obtain ⟨halike, hlt⟩ := hij.le_or_alike.resolve_left hle
    have hk := hbehind i j hlt (hmem.1 hj) (Int64.not_le.1 hle) halike
    exact Nat.not_le.2 ((hfront hin).1 hi) hk

/-- The same integers, the first of them in the same order. -/
theorem Leads.congr {vs us : List Int64} (h : Leads k vs) (hperm : vs.Perm us)
    (htake : vs.take k = us.take k) : Leads k us := by
  have hdrop : (vs.drop k).Perm (us.drop k) := by
    rw [← List.take_append_drop k vs, ← List.take_append_drop k us, htake] at hperm
    exact (List.perm_append_left_iff _).1 hperm
  constructor
  · rw [← htake]
    exact h.descending
  · rw [← htake]
    exact fun u hu v hv => h.greatest u hu v (hdrop.mem_iff.2 hv)

end
end Ranking

/-! ## Selections of series of integers -/

namespace Select

variable {criterion : Criterion} {c : Config} {w : Window} {params : List String} {k : Nat}
  {input : Input} {value : Nat → Int64}

/-- A selection of `k` series takes those of the greatest integers, from the greatest down. -/
def TakesGreatest (criterion : Criterion) (c : Config) (w : Window) (params : List String) (k : Nat)
    (input : Input) (value : Nat → Int64) : Prop :=
  ∃ out, ∃ positions : List Nat, (highest criterion c w input params).result = .ok out ∧
    positions.Perm (List.range input.size) ∧
    out.map some = (positions.take k).map (input.series[·]?) ∧
    Ranking.Leads k (positions.map value)

/-- Series of integers in a window, and the integer that each of them ranks by. -/
structure RankedByIntegers (criterion : Criterion) (w : Window) (ss : List Series)
    (value : Nat → Int64) : Prop where
  integral : ∀ s ∈ ss, s.IntegralIn w
  exact : ∀ i s, ss[i]? = some s → criterion.Exact (s.within w) (value i)

namespace RankedByIntegers

variable {ss : List Series} {i : Nat}

theorem scan_eq (h : RankedByIntegers criterion w ss value) (hi : i < ss.length) :
    ss[i]?.map (fun s => criterion.scan (s.view w .identity)) =
      some { intMax := some (value i) } := by
  have hs : ss[i]? = some ss[i] := List.getElem?_eq_getElem hi
  rw [hs, Option.map_some, (h.integral _ (List.getElem_mem hi)).scan_eq (h.exact i _ hs)]

theorem valueAt_eq (h : RankedByIntegers criterion w ss value) (hi : i < ss.length) :
    valueAt criterion w ss i = some (Binary64.ofInt (value i).toInt) := by
  have hbind : valueAt criterion w ss i =
      (ss[i]?.map fun s => criterion.scan (s.view w .identity)).bind Maxima.resolve := by
    rw [Option.bind_map]
    rfl
  rw [hbind, h.scan_eq hi]
  rfl

theorem pairwise_ahead (h : RankedByIntegers criterion w ss value) :
    (Ranking.order (valueAt criterion w ss) ss.length).Pairwise (Ranking.Ahead value) := by
  have hlt : ∀ i ∈ Ranking.order (valueAt criterion w ss) ss.length, i < ss.length := fun i hi =>
    List.mem_range.1 ((Ranking.order_perm _ _).mem_iff.1 hi)
  exact (Ranking.pairwise_order isNaN_valueAt _).imp_of_mem fun hi hj hij =>
    Ranking.ahead_of_before (h.valueAt_eq (hlt _ hi)) (h.valueAt_eq (hlt _ hj)) hij

/-- Positions of the same series have the same integers. -/
theorem map_value_eq (h : RankedByIntegers criterion w ss value) {is js : List Nat}
    (his : ∀ i ∈ is, i < ss.length) (hjs : ∀ j ∈ js, j < ss.length)
    (heq : is.map (ss[·]?) = js.map (ss[·]?)) : is.map value = js.map value := by
  have hscan : ∀ ns : List Nat, (∀ n ∈ ns, n < ss.length) →
      (ns.map (ss[·]?)).map (Option.map fun s => criterion.scan (s.view w .identity)) =
        (ns.map value).map fun v => some { intMax := some v } := by
    intro ns hns
    rw [List.map_map, List.map_map]
    exact List.map_congr_left fun n hn => h.scan_eq (hns n hn)
  have hvalues := (hscan is his).symm.trans ((congrArg _ heq).trans (hscan js hjs))
  refine List.map_injective_iff.2 (fun u v huv => ?_) hvalues
  cases huv
  rfl

/-- A window that shows a sample of a series has its bounds in order. -/
theorem start_le_stop (h : RankedByIntegers criterion w ss value) (hss : 0 < ss.length) :
    w.start ≤ w.stop := by
  have hexact := h.exact 0 _ (List.getElem?_eq_getElem hss)
  by_contra hlt
  rw [Series.within_of_lt (Int64.not_le.1 hlt)] at hexact
  cases criterion with
  | max => exact absurd hexact.1 List.not_mem_nil
  | current =>
    obtain ⟨t, hlatest⟩ := hexact
    exact absurd hlatest.1 List.not_mem_nil

end RankedByIntegers

theorem takesGreatest_iff (hk : count params = .ok k) (hlt : k < input.size)
    (h : RankedByIntegers criterion w input.series value) (c : Config) :
    TakesGreatest criterion c w params k input value ↔
      ∀ i j, i < j → j < input.size → value i < value j → Ranking.Alike (value i) (value j) →
        k ≤ Ranking.countAhead value input.size i := by
  have hw : w.start ≤ w.stop := h.start_le_stop (Nat.zero_lt_of_lt hlt)
  obtain ⟨out, hresult, hout⟩ := exists_highest criterion hk hlt c hw
  have hperm := Ranking.order_perm (valueAt criterion w input.series) input.size
  rw [← Ranking.leads_iff hperm h.pairwise_ahead]
  constructor
  · rintro ⟨out', positions, hresult', hpositions, hout', hleads⟩
    cases hresult.symm.trans hresult'
    have hfront : ∀ {ns : List Nat}, ns.Perm (List.range input.size) →
        ∀ n ∈ ns.take k, n < input.size := fun hns n hn =>
      List.mem_range.1 (hns.mem_iff.1 (List.mem_of_mem_take hn))
    refine hleads.congr ((hpositions.trans hperm.symm).map value) ?_
    rw [← List.map_take, ← List.map_take]
    exact h.map_value_eq (hfront hpositions) (hfront hperm) (hout'.symm.trans hout)
  · intro hleads
    exact ⟨out, _, hresult, hperm, hout, hleads⟩

end Select

namespace Function

open Select Ranking

variable {criterion : Criterion} {w : Window} {params : List String} {k : Nat} {input : Input}
  {value : Nat → Int64}

/-- A selection takes the series of the greatest integers just if none of its series has the lesser of two
integers that are the same double and comes first of the two. Integers up to `2 ^ 53` never are. -/
theorem evaluate_highest_integral (hk : count params = .ok k) (hlt : k < input.size)
    (h : RankedByIntegers criterion w input.series value) (c : Config) :
    (TakesGreatest criterion c w params k input value ↔
      ∀ i j, i < j → j < input.size → value i < value j → Alike (value i) (value j) →
        k ≤ countAhead value input.size i) ∧
    ((∀ i < input.size, (value i).toInt.natAbs ≤ 2 ^ 53) →
      TakesGreatest criterion c w params k input value) := by
  have hiff := takesGreatest_iff hk hlt h c
  refine ⟨hiff, fun hsmall => hiff.2 fun i j hij hj hless halike => ?_⟩
  have heq := Binary64.ofInt_inj (hsmall i (Nat.lt_trans hij hj)) (hsmall j hj) halike
  exact absurd heq (Int.ne_of_lt (Int64.lt_iff_toInt_lt.1 hless))

theorem rankedByIntegers_unaligned :
    RankedByIntegers .current ⟨0, 20000⟩ unalignedSeries fun i => if i = 0 then -4 else 7 where
  integral := by decide
  exact := by
    rintro (_ | _ | i) s hs
    · cases hs
      exact ⟨9, by decide, by decide⟩
    · cases hs
      exact ⟨12, by decide, by decide⟩
    · cases hs

theorem evaluate_highest_integral_unaligned :
    count ["1"] = .ok 1 ∧ 1 < Input.size [unalignedSeries] ∧
      TakesGreatest .current {} ⟨0, 20000⟩ ["1"] 1 [unalignedSeries]
        fun i => if i = 0 then -4 else 7 := by
  have hsize : 1 < Input.size [unalignedSeries] := by decide
  refine ⟨rfl, hsize, ?_⟩
  refine (evaluate_highest_integral rfl hsize rankedByIntegers_unaligned {}).2 fun i _ => ?_
  by_cases hi : i = 0
  · rw [if_pos hi]
    decide
  · rw [if_neg hi]
    decide

/-- Two series whose integers are one apart, and the same double. -/
def adjacentInput : Input :=
  [[({ metric := "a" } : Series).insertAll [⟨1, .int 9007199254740992⟩]],
    [({ metric := "b" } : Series).insertAll [⟨1, .int 9007199254740993⟩]]]

def adjacentValue (i : Nat) : Int64 :=
  if i = 0 then 9007199254740992 else 9007199254740993

/-- The lesser integer comes out ahead. -/
theorem evaluate_highest_adjacent :
    count ["1"] = .ok 1 ∧ 1 < adjacentInput.size ∧
      RankedByIntegers .max ⟨0, 10000⟩ adjacentInput.series adjacentValue ∧
      ¬ TakesGreatest .max {} ⟨0, 10000⟩ ["1"] 1 adjacentInput adjacentValue := by
  have hranked : RankedByIntegers .max ⟨0, 10000⟩ adjacentInput.series adjacentValue := by
    refine ⟨by decide, ?_⟩
    rintro (_ | _ | i) s hs
    · cases hs
      exact ⟨List.mem_singleton_self _, fun v hv => Int64.le_of_eq (List.mem_singleton.1 hv)⟩
    · cases hs
      exact ⟨List.mem_singleton_self _, fun v hv => Int64.le_of_eq (List.mem_singleton.1 hv)⟩
    · cases hs
  refine ⟨rfl, by decide, hranked, fun htakes => ?_⟩
  have hcount := (takesGreatest_iff rfl (by decide) hranked {}).1 htakes 0 1 (by decide) (by decide)
    (by decide) (by decide)
  exact absurd hcount (by decide)

end Function
end DerivedSeries
