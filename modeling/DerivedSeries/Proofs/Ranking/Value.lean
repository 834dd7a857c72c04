import DerivedSeries.Ranking
import DerivedSeries.Proofs.Binary64.Order

/-!
# Ranking values

`Criterion.Ranks` says what a list of points ranks by: under `max` the greater, as doubles, of its
greatest integer and its greatest double that is a number; under `current` the sample at its latest
time, if that is a number. A scan of a view finds this value (`ranks_scan`), and it is a number
(`Criterion.Ranks.isNaN_eq_false`).
-/

namespace DerivedSeries

namespace Sample

/-- The double that a sample is, unless it is a NaN. -/
def number? : Sample → Option Float
  | int _ => none
  | float x => if x.isNaN then none else some x

theorem number?_of_isNaN {x : Float} (h : x.isNaN = true) : (float x).number? = none :=
  if_pos h

theorem number?_of_not_isNaN {x : Float} (h : x.isNaN = false) : (float x).number? = some x :=
  if_neg (Bool.not_eq_true _ ▸ h)

theorem isNaN_of_number? {s : Sample} {x : Float} (h : s.number? = some x) : x.isNaN = false := by
  cases s with
  | int v => cases h
  | float y =>
    cases hy : y.isNaN with
    | true => cases (number?_of_isNaN hy).symm.trans h
    | false =>
      cases (number?_of_not_isNaN hy).symm.trans h
      exact hy

theorem isNaN_of_mem_numbers {ss : List Sample} {x : Float} (h : x ∈ ss.filterMap number?) :
    x.isNaN = false := by
  obtain ⟨s, -, hs⟩ := List.mem_filterMap.1 h
  exact isNaN_of_number? hs

end Sample

/-! ## Greatest values -/

section
variable {α : Type} [LE α]

/-- The greatest of values, if there are any. -/
def Greatest (xs : List α) : Option α → Prop
  | none => xs = []
  | some x => x ∈ xs ∧ ∀ y ∈ xs, y ≤ x

theorem Greatest.singleton {xs : List α} (h : Greatest xs none) {x : α} (hx : x ≤ x) :
    Greatest (xs ++ [x]) (some x) := by
  cases h
  simpa [Greatest] using hx

theorem Greatest.concat {xs : List α} {m n x : α} (h : Greatest xs (some m)) (hn : n = m ∨ n = x)
    (hm : ∀ y ∈ xs, y ≤ m → y ≤ n) (hx : x ≤ n) :
    Greatest (xs ++ [x]) (some n) := by
  obtain ⟨hmem, hle⟩ := h
  refine ⟨?_, fun y hy => ?_⟩
  · rcases hn with rfl | rfl <;> simp [hmem]
  · rcases List.mem_append.1 hy with hy | hy
    · exact hm y hy (hle y hy)
    · rwa [List.mem_singleton.1 hy]

end

/-- The latest of points, if there are any. -/
def Latest (ps : List Point) : Option Point → Prop
  | none => ps = []
  | some p => p ∈ ps ∧ ∀ q ∈ ps, q.timestamp ≤ p.timestamp

theorem latest_getLast? {ps : List Point}
    (h : ps.Pairwise fun a b => a.timestamp < b.timestamp) : Latest ps ps.getLast? := by
  cases hlast : ps.getLast? with
  | none => exact List.getLast?_eq_none_iff.1 hlast
  | some p =>
    obtain ⟨front, rfl⟩ := List.getLast?_eq_some_iff.1 hlast
    refine ⟨by simp, fun q hq => ?_⟩
    rcases List.mem_append.1 hq with hq | hq
    · exact Int64.le_of_lt ((List.pairwise_append.1 h).2.2 q hq p (by simp))
    · rw [List.mem_singleton.1 hq]
      exact Int64.le_refl _

/-- Points at different times have one latest. -/
theorem Latest.getLast?_eq {ps : List Point}
    (hps : ps.Pairwise fun p q => p.timestamp < q.timestamp) {p : Point} (h : Latest ps (some p)) :
    ps.getLast? = some p := by
  cases hlast : ps.getLast? with
  | none =>
    rw [List.getLast?_eq_none_iff.1 hlast] at h
    exact absurd h.1 List.not_mem_nil
  | some q =>
    obtain ⟨front, rfl⟩ := List.getLast?_eq_some_iff.1 hlast
    rcases List.mem_append.1 h.1 with hp | hp
    · have hlt : p.timestamp < q.timestamp := (List.pairwise_append.1 hps).2.2 p hp q (by simp)
      exact absurd (h.2 q (by simp)) (Int64.not_le.2 hlt)
    · rw [List.mem_singleton.1 hp]

/-! ## The scan -/

/-- What points in a window rank by. -/
def Criterion.Ranks : Criterion → List Point → Option Float → Prop
  | max, ps, value =>
    ∃ i x, Greatest ((ps.map Point.value).filterMap Sample.int?) i ∧
      Greatest ((ps.map Point.value).filterMap Sample.number?) x ∧
      Greatest ((i.map fun v => Binary64.ofInt v.toInt).toList ++ x.toList) value
  | current, ps, value =>
    ∃ p, Latest ps p ∧ value = (p.map fun p => p.value.toFloat).filter fun x => !x.isNaN

namespace Maxima

theorem observe_of_isNaN {m : Maxima} {x : Float} (h : x.isNaN = true) :
    m.observe (.float x) = m :=
  if_pos h

theorem observe_of_not_isNaN {m : Maxima} {x : Float} (h : x.isNaN = false) :
    m.observe (.float x) =
      { m with floatMax := some (m.floatMax.elim x (Binary64.greater · x)) } :=
  if_neg (Bool.not_eq_true _ ▸ h)

/-- The maxima are those of samples. -/
structure Cover (m : Maxima) (ss : List Sample) : Prop where
  ints : Greatest (ss.filterMap Sample.int?) m.intMax
  numbers : Greatest (ss.filterMap Sample.number?) m.floatMax

namespace Cover

variable {m : Maxima} {ss : List Sample}

theorem observe_int (h : m.Cover ss) (v : Int64) : (m.observe (.int v)).Cover (ss ++ [.int v]) := by
  obtain ⟨hi, hx⟩ := h
  constructor
  · show Greatest _ (some (m.intMax.elim v (Max.max · v)))
    rw [List.filterMap_append]
    cases hm : m.intMax with
    | none =>
      rw [hm] at hi
      exact hi.singleton (Int64.le_refl v)
    | some u =>
      rw [hm] at hi
      show Greatest _ (some (if u ≤ v then v else u))
      by_cases huv : u ≤ v
      · rw [if_pos huv]
        exact hi.concat (.inr rfl) (fun y _ hy => Int64.le_trans hy huv) (Int64.le_refl v)
      · rw [if_neg huv]
        exact hi.concat (.inl rfl) (fun y _ hy => hy) (Int64.le_of_lt (Int64.not_le.1 huv))
  · rw [List.filterMap_append]
    show Greatest (_ ++ []) m.floatMax
    rwa [List.append_nil]

theorem observe_float (h : m.Cover ss) (x : Float) :
    (m.observe (.float x)).Cover (ss ++ [.float x]) := by
  obtain ⟨hi, hx⟩ := h
  constructor
  · have hints : (m.observe (.float x)).intMax = m.intMax := by
      cases hn : x.isNaN with
      | true => rw [observe_of_isNaN hn]
      | false => rw [observe_of_not_isNaN hn]
    rw [List.filterMap_append, hints]
    show Greatest (_ ++ []) m.intMax
    rwa [List.append_nil]
  · rw [List.filterMap_append]
    cases hn : x.isNaN with
    | true =>
      rw [observe_of_isNaN hn, List.filterMap_cons_none (Sample.number?_of_isNaN hn)]
      show Greatest (_ ++ []) m.floatMax
      rwa [List.append_nil]
    | false =>
      rw [observe_of_not_isNaN hn, List.filterMap_cons_some (Sample.number?_of_not_isNaN hn)]
      show Greatest (_ ++ [x]) (some (m.floatMax.elim x (Binary64.greater · x)))
      cases hm : m.floatMax with
      | none =>
        rw [hm] at hx
        exact hx.singleton (Binary64.le_refl hn)
      | some y =>
        rw [hm] at hx
        have hy : y.isNaN = false := Sample.isNaN_of_mem_numbers hx.1
        obtain ⟨hor, hly, hlx⟩ := Binary64.greater_spec hy hn
        have hg : (Binary64.greater y x).isNaN = false := by
          rcases hor with h | h <;> rwa [h]
        refine hx.concat hor ?_ hlx
        intro z hz hle
        exact Binary64.le_trans (Sample.isNaN_of_mem_numbers hz) hy hg hle hly

theorem observe (h : m.Cover ss) (s : Sample) : (m.observe s).Cover (ss ++ [s]) := by
  cases s with
  | int v => exact h.observe_int v
  | float x => exact h.observe_float x

theorem foldl (h : m.Cover ss) (rest : List Sample) :
    (rest.foldl Maxima.observe m).Cover (ss ++ rest) := by
  induction rest generalizing m ss with
  | nil => rwa [List.append_nil]
  | cons s rest ih =>
    rw [List.append_cons]
    exact ih (h.observe s)

end Cover

theorem cover_foldl (ss : List Sample) : (ss.foldl observe {}).Cover ss := by
  have h : Cover {} [] := ⟨rfl, rfl⟩
  exact h.foldl ss

theorem resolve_spec {m : Maxima} (hm : ∀ x, m.floatMax = some x → x.isNaN = false) :
    Greatest ((m.intMax.map fun v => Binary64.ofInt v.toInt).toList ++ m.floatMax.toList)
      m.resolve := by
  obtain ⟨i, f⟩ := m
  cases i with
  | none =>
    cases f with
    | none => rfl
    | some x => exact ⟨by simp, by simpa using Binary64.le_refl (hm x rfl)⟩
  | some v =>
    have hv : (Binary64.ofInt v.toInt).isNaN = false := Binary64.isNaN_ofInt _
    cases f with
    | none => exact ⟨by simp, by simpa using Binary64.le_refl hv⟩
    | some x =>
      obtain ⟨hor, hl, hr⟩ := Binary64.greater_spec hv (hm x rfl)
      refine ⟨?_, by simpa using ⟨hl, hr⟩⟩
      show Binary64.greater _ _ ∈ _
      rcases hor with h | h <;> rw [h] <;> simp

theorem resolve_observe_empty (s : Sample) :
    (observe {} s).resolve = (some s.toFloat).filter fun x => !x.isNaN := by
  cases s with
  | int v =>
    rw [Option.filter_some, Sample.toFloat, Binary64.isNaN_ofInt]
    rfl
  | float x =>
    rw [Option.filter_some, Sample.toFloat]
    cases h : x.isNaN with
    | true =>
      rw [observe_of_isNaN h]
      rfl
    | false =>
      rw [observe_of_not_isNaN h]
      rfl

end Maxima

/-! ## The ranking value -/

namespace Criterion

variable {c : Criterion}

/-- A scan of a view finds what its points rank by. -/
theorem ranks_scan (c : Criterion) (v : View) : c.Ranks v.points (c.scan v).resolve := by
  cases c with
  | max =>
    have hc : (max.scan v).Cover (v.points.map Point.value) := Maxima.cover_foldl _
    refine ⟨_, _, hc.ints, hc.numbers, Maxima.resolve_spec fun x hx => ?_⟩
    have hf := hc.numbers
    rw [hx] at hf
    exact Sample.isNaN_of_mem_numbers hf.1
  | current =>
    have hasc : v.points.Pairwise fun a b => a.timestamp < b.timestamp :=
      v.ascending.imp fun h => Std.compare_eq_lt.1 h
    refine ⟨v.points.getLast?, latest_getLast? hasc, ?_⟩
    show (List.foldl Maxima.observe {} (v.points.getLast?.map Point.value).toList).resolve = _
    cases v.points.getLast? with
    | none => rfl
    | some p => exact Maxima.resolve_observe_empty p.value

theorem Ranks.isNaN_eq_false {ps : List Point} {x : Float} (h : c.Ranks ps (some x)) :
    x.isNaN = false := by
  cases c with
  | max =>
    obtain ⟨i, f, -, hf, hx⟩ := h
    rcases List.mem_append.1 hx.1 with hx | hx
    · obtain ⟨v, -, rfl⟩ := Option.map_eq_some_iff.1 (Option.mem_toList.1 hx)
      exact Binary64.isNaN_ofInt _
    · rw [Option.mem_toList.1 hx] at hf
      exact Sample.isNaN_of_mem_numbers hf.1
  | current =>
    obtain ⟨p, -, hx⟩ := h
    simpa using (Option.filter_eq_some_iff.1 hx.symm).2

end Criterion
end DerivedSeries
