import DerivedSeries.MovingAverage
import DerivedSeries.Proofs.Binary64.Packing

/-!
# Means

`Mean` says what the average of samples is: of integers the quotient of their exact total, and as
soon as one sample is a double the quotient of the total of doubles. Samples that are not empty have
a mean, which `History.average` finds (`average_spec`); a quotient of integers always fits the
64-bit range, so nothing is cut off.
-/

namespace DerivedSeries

/-- The exact total of words. -/
def exactTotal : List Int64 → Int
  | [] => 0
  | v :: vs => v.toInt + exactTotal vs

/-- The average of samples. -/
inductive Mean : List Sample → Sample → Prop where
  /-- Of integers, the exact total over their number, truncated toward zero. -/
  | exact (vs : List Int64) (q : Int64) : vs ≠ [] →
    q.toInt = (exactTotal vs).tdiv vs.length → Mean (vs.map .int) (.int q)
  /-- With a double among them, the total of doubles from the left over their number. -/
  | inexact (s : Sample) (ss : List Sample) : (∃ x, .float x ∈ s :: ss) →
    Mean (s :: ss)
      (.float (ss.foldl (fun x s => x + s.toFloat) s.toFloat / Binary64.ofInt (ss.length + 1)))

namespace History

theorem intTotal_map (vs : List Int64) : intTotal (vs.map .int) = exactTotal vs := by
  have hacc : ∀ n : Int, vs.foldl (fun n v => n + v.toInt) n = n + exactTotal vs := by
    induction vs with
    | nil => exact fun n => (Int.add_zero n).symm
    | cons v vs ih =>
      intro n
      rw [List.foldl_cons, ih, exactTotal, Int.add_assoc]
  rw [intTotal, List.foldl_map]
  exact (hacc 0).trans (Int.zero_add _)

theorem floatTotal_cons (s : Sample) (ss : List Sample) :
    floatTotal (s :: ss) = ss.foldl (fun x s => x + s.toFloat) s.toFloat := by
  rw [floatTotal, List.foldl_cons, Binary64.negativeZero_add]

section
variable {vs : List Int64} {lo hi : Int}

/-- A total of words lies between as many of their lower bound and of their upper bound. -/
theorem exactTotal_bounds (h : ∀ v ∈ vs, lo ≤ v.toInt ∧ v.toInt ≤ hi) :
    vs.length * lo ≤ exactTotal vs ∧ exactTotal vs ≤ vs.length * hi := by
  induction vs with
  | nil => simp [exactTotal]
  | cons v vs ih =>
    obtain ⟨hmin, hmax⟩ := h v List.mem_cons_self
    obtain ⟨hlo, hhi⟩ := ih fun u hu => h u (List.mem_cons_of_mem v hu)
    simp only [exactTotal, List.length_cons, Int.natCast_succ, Int.add_mul, Int.one_mul]
    omega

/-- A mean keeps the bounds of its words, also where truncation moves it toward zero. -/
theorem quotient_bounds (hne : vs ≠ []) (h : ∀ v ∈ vs, lo ≤ v.toInt ∧ v.toInt ≤ hi) :
    lo ≤ (exactTotal vs).tdiv vs.length ∧ (exactTotal vs).tdiv vs.length ≤ hi := by
  have hpos : 0 < (vs.length : Int) := Int.natCast_pos.2 (List.length_pos_iff.2 hne)
  obtain ⟨hmin, hmax⟩ := exactTotal_bounds h
  have hlo := Int.tdiv_le_tdiv hpos hmin
  have hhi := Int.tdiv_le_tdiv hpos hmax
  rw [Int.mul_tdiv_cancel_left _ (Int.ne_of_gt hpos)] at hlo hhi
  exact ⟨hlo, hhi⟩

theorem toInt_quotient (hne : vs ≠ []) :
    (Int64.ofInt ((exactTotal vs).tdiv vs.length)).toInt = (exactTotal vs).tdiv vs.length := by
  obtain ⟨hlo, hhi⟩ := quotient_bounds hne fun v _ => ⟨v.minValue_le_toInt, v.toInt_le⟩
  exact Int64.toInt_ofInt_of_le hlo (Int.lt_add_one_of_le hhi)

theorem average_map_int (hne : vs ≠ []) : average (vs.map .int) =
    some (.int (Int64.ofInt ((exactTotal vs).tdiv vs.length))) := by
  have hsome : (vs.map Sample.int).isEmpty = false := by simpa using hne
  have hall : (vs.map Sample.int).all Sample.isInt = true := by
    rw [List.all_map]
    exact List.all_eq_true.2 fun _ _ => rfl
  rw [average, if_neg (by simp [hsome]), if_pos hall, intTotal_map, List.length_map]

end

theorem exists_float {ss : List Sample} (h : ss.all Sample.isInt = false) :
    ∃ x, .float x ∈ ss := by
  obtain ⟨s, hs, hint⟩ := List.all_eq_false.1 h
  cases s with
  | int v => exact absurd rfl hint
  | float x => exact ⟨x, hs⟩

/-- Samples have an average, and it is their mean. -/
theorem average_spec {ss : List Sample} (h : ss ≠ []) : ∃ v, average ss = some v ∧ Mean ss v := by
  cases hall : ss.all Sample.isInt with
  | true =>
    obtain ⟨vs, rfl⟩ := Sample.exists_map_int (List.all_eq_true.1 hall)
    have hvs : vs ≠ [] := fun hvs => h (hvs ▸ rfl)
    exact ⟨_, average_map_int hvs, .exact vs _ hvs (toInt_quotient hvs)⟩
  | false =>
    have hsome : ss.isEmpty = false := List.isEmpty_eq_false_iff.2 h
    obtain ⟨s, ss, rfl⟩ := List.exists_cons_of_ne_nil h
    refine ⟨_, by rw [average, if_neg (by simp [hsome]), if_neg (by simp [hall])], ?_⟩
    rw [floatTotal_cons]
    exact .inexact s ss (exists_float hall)

end History
end DerivedSeries
