import DerivedSeries.Proofs.Combining.Exact
import DerivedSeries.Proofs.Word

/-!
# Integers or doubles

A fold of samples tries the integers first. It stays with them just if all samples are integers and the
values of all parts at the front fit a word (`FrontsFit`); the answer is then the value of all of them.
Otherwise nothing that was gathered counts, and the doubles of all samples are combined, from the first one
on. That holds of sums and of products alike (`Aggregator.combines_sum_multiply`).
-/

namespace DerivedSeries

/-- The samples are these words, and each part of them at the front has a value within the range. -/
structure FrontsFit (value : List Int → Int) (ss : List Sample) (vs : List Int64) : Prop where
  words : ss = vs.map .int
  fits : ∀ us, us <+: vs → Fits (value (us.map Int64.toInt))

/-- What an aggregate makes of samples, with the value that it has in the integers and its operation on
doubles: nothing of no samples, else an integer wherever the fronts fit, else a double. -/
structure Combines (value : List Int → Int) (opFloat : Float → Float → Float)
    (f : List Sample → Option Sample) : Prop where
  none_iff : ∀ ss, f ss = none ↔ ss = []
  int_iff : ∀ ss v, f ss = some (.int v) ↔
    ss ≠ [] ∧ ∃ vs, FrontsFit value ss vs ∧ v.toInt = value (vs.map Int64.toInt)
  float_iff : ∀ ss x, f ss = some (.float x) ↔
    (∀ vs, ¬ FrontsFit value ss vs) ∧
      ∃ y ys, ss.map Sample.toFloat = y :: ys ∧ x = ys.foldl opFloat y

namespace Aggregator

variable {op : Int → Int → Int} {value : List Int → Int} {size : List Int → Nat}

theorem combineInts_int_eq_some_iff {v : Int64} {s r : Sample} :
    combineInts op (.int v) s = some r ↔
      ∃ u w : Int64, s = .int u ∧ r = .int w ∧ w.toInt = op v.toInt u.toInt := by
  cases s with
  | float x => exact iff_of_false nofun fun ⟨_, _, hs, _⟩ => nomatch hs
  | int u =>
    show (int64? (op v.toInt u.toInt)).map Sample.int = some r ↔ _
    rw [Option.map_eq_some_iff]
    simp only [int64?_eq_some_iff]
    constructor
    · rintro ⟨w, hw, rfl⟩
      exact ⟨u, w, rfl, rfl, hw⟩
    · rintro ⟨_, w, ⟨⟩, rfl, hw⟩
      exact ⟨w, hw, rfl⟩

/-- Where samples are combined exactly, they are words and no partial result leaves the range. -/
theorem words_of_foldlM {v : Int64} {ss : List Sample} {r : Sample}
    (h : ss.foldlM (combineInts op) (.int v) = some r) :
    ∃ vs : List Int64, ss = vs.map .int ∧
      ∀ us, us <+: vs → ∃ w : Int64, w.toInt = (us.map Int64.toInt).foldl op v.toInt := by
  induction ss generalizing v with
  | nil =>
    refine ⟨[], rfl, fun us hus => ⟨v, ?_⟩⟩
    rw [List.prefix_nil.1 hus]
    rfl
  | cons s ss ih =>
    rw [List.foldlM_cons] at h
    obtain ⟨q, hq, h⟩ := Option.bind_eq_some_iff.1 h
    obtain ⟨u, w, rfl, rfl, hw⟩ := combineInts_int_eq_some_iff.1 hq
    obtain ⟨vs, rfl, hvs⟩ := ih h
    refine ⟨u :: vs, rfl, fun us hus => ?_⟩
    rcases List.prefix_cons_iff.1 hus with rfl | ⟨ts, rfl, hts⟩
    · exact ⟨v, rfl⟩
    · rw [List.map_cons, List.foldl_cons, ← hw]
      exact hvs ts hts

/-- Beginning with a double, nothing is combined exactly. -/
theorem foldlM_float (op : Int → Int → Int) (opFloat : Float → Float → Float) (x : Float)
    (ss : List Sample) :
    (ss.foldlM (combineInts op) (.float x)).getD
        (.float (ss.foldl (fun acc v => opFloat acc v.toFloat) x)) =
      .float (ss.foldl (fun acc v => opFloat acc v.toFloat) x) := by
  cases ss <;> rfl

section

variable (h : Exact op value size) (opFloat : Float → Float → Float) {s : Sample} {ss : List Sample}
include h

theorem fold_of_frontsFit {vs : List Int64} (hfit : FrontsFit value (s :: ss) vs) :
    ∃ r : Int64, fold op opFloat (s :: ss) = some (.int r) ∧ r.toInt = value (vs.map Int64.toInt) := by
  cases vs with
  | nil => cases hfit.words
  | cons v vs =>
    obtain ⟨rfl, rfl⟩ := List.cons.inj hfit.words
    have hfront : ∀ us, us <+: vs →
        ∃ r : Int64, r.toInt = (us.map Int64.toInt).foldl op v.toInt := by
      intro us hus
      have hfits := hfit.fits (v :: us) (List.cons_prefix_cons.2 ⟨rfl, hus⟩)
      rwa [List.map_cons, h.value_cons, fits_iff] at hfits
    obtain ⟨r, hr, hval⟩ := foldlM_words op hfront
    refine ⟨r, ?_, ?_⟩
    · rw [fold, hr]
      rfl
    · rw [List.map_cons, h.value_cons, hval]

theorem frontsFit_of_foldlM (hnil : Fits (value [])) {v : Int64} {r : Sample}
    (hr : ss.foldlM (combineInts op) (.int v) = some r) : ∃ vs, FrontsFit value (.int v :: ss) vs := by
  obtain ⟨vs, rfl, hvs⟩ := words_of_foldlM hr
  refine ⟨v :: vs, rfl, fun us hus => ?_⟩
  rcases List.prefix_cons_iff.1 hus with rfl | ⟨ts, rfl, hts⟩
  · exact hnil
  · rw [List.map_cons, h.value_cons]
    exact fits_iff.2 (hvs ts hts)

theorem fold_of_not_frontsFit (hnil : Fits (value []))
    (hfit : ∀ vs, ¬ FrontsFit value (s :: ss) vs) :
    fold op opFloat (s :: ss) =
      some (.float ((ss.map Sample.toFloat).foldl opFloat s.toFloat)) := by
  rw [fold, List.foldl_map]
  cases s with
  | float x => exact congrArg some (foldlM_float op opFloat x ss)
  | int v =>
    cases hr : ss.foldlM (combineInts op) (.int v) with
    | none => rfl
    | some r =>
      obtain ⟨vs, hvs⟩ := frontsFit_of_foldlM h hnil hr
      exact absurd hvs (hfit vs)

theorem combines_fold (hnil : Fits (value [])) : Combines value opFloat (fold op opFloat) where
  none_iff _ := fold_eq_none_iff
  int_iff ss v := by
    cases ss with
    | nil => exact iff_of_false nofun fun hne => hne.1 rfl
    | cons s ss =>
      constructor
      · intro hfold
        by_cases hfit : ∃ vs, FrontsFit value (s :: ss) vs
        · obtain ⟨vs, hvs⟩ := hfit
          obtain ⟨r, hr, hval⟩ := fold_of_frontsFit h opFloat hvs
          rw [hr] at hfold
          cases hfold
          exact ⟨List.cons_ne_nil _ _, vs, hvs, hval⟩
        · rw [fold_of_not_frontsFit h opFloat hnil (not_exists.1 hfit)] at hfold
          cases hfold
      · rintro ⟨-, vs, hvs, hv⟩
        obtain ⟨r, hr, hval⟩ := fold_of_frontsFit h opFloat hvs
        rw [hr, Int64.toInt_inj.1 (hv.trans hval.symm)]
  float_iff ss x := by
    cases ss with
    | nil => exact iff_of_false nofun fun ⟨_, _, _, hmap, _⟩ => nomatch hmap
    | cons s ss =>
      constructor
      · intro hfold
        have hfit : ∀ vs, ¬ FrontsFit value (s :: ss) vs := by
          intro vs hvs
          obtain ⟨r, hr, -⟩ := fold_of_frontsFit h opFloat hvs
          rw [hr] at hfold
          cases hfold
        rw [fold_of_not_frontsFit h opFloat hnil hfit] at hfold
        cases hfold
        exact ⟨hfit, _, _, rfl, rfl⟩
      · rintro ⟨hfit, _, _, ⟨⟩, rfl⟩
        exact fold_of_not_frontsFit h opFloat hnil hfit

end

/-- Sums and products answer with the exact integer as long as every partial result from the left fits, and
with the doubles of all samples otherwise. -/
theorem combines_sum_multiply (t : Timestamp) :
    Combines List.sum (· + ·) (fun ss => (sum.step () t ss).1) ∧
      Combines List.prod (· * ·) (fun ss => (multiply.step () t ss).1) :=
  ⟨combines_fold exact_sum _ (by decide), combines_fold exact_product _ (by decide)⟩

/-- A sum that leaves the range does not come back, even where another order never leaves it. -/
example :
    total [.int Int64.maxValue, .int 1, .int (-1)] =
        some (.float (Binary64.ofInt (Int64.maxValue.toInt + 1))) ∧
      total [.int 1, .int (-1), .int Int64.maxValue] = some (.int Int64.maxValue) := by
  decide

end Aggregator
end DerivedSeries
