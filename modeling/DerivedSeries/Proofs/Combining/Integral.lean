import DerivedSeries.Proofs.Combining.Exact
import DerivedSeries.Proofs.Merge.Merged
import DerivedSeries.Proofs.Merge.Transformed

/-!
# Merges of integers

Views of integers contribute words (`Merge.contributionsAt_eq_words`). A merge that folds them has a
point at every time of its timeline (`Merge.times_points`), and where the words of each time are small
together, this point is their exact combination (`Merge.combined_points`). `Input.SmallIn` says so of
the series of an input in a window.
-/

namespace DerivedSeries

namespace Merge

variable {fill : Option Interpolation} {views : List View} {t : Timestamp}

/-- The words that views contribute at a time, in their order. -/
def wordsAt (fill : Option Interpolation) (views : List View) (t : Timestamp) : List Int64 :=
  (contributionsAt fill views t).filterMap Sample.int?

/-- The same as integers. -/
def integersAt (fill : Option Interpolation) (views : List View) (t : Timestamp) : List Int :=
  (wordsAt fill views t).map Int64.toInt

theorem contributionsAt_eq_words (hint : ∀ v ∈ views, v.Integral) :
    contributionsAt fill views t = (wordsAt fill views t).map .int := by
  have hall : ∀ s ∈ contributionsAt fill views t, s.isInt = true := by
    intro s hs
    obtain ⟨v, hv, hs⟩ := List.mem_filterMap.1 hs
    exact Sample.isInt_iff.2 ((hint v hv).contribution? hs)
  obtain ⟨vs, hvs⟩ := Sample.exists_map_int hall
  unfold wordsAt
  rw [hvs, Sample.filterMap_int?_map_int]

/-- A merge whose answers never fail to come has a point at every time. -/
theorem times_points {f : List Sample → Option Sample} (hf : ∀ ss, ss ≠ [] → ∃ s, f ss = some s)
    (name : String) (fill : Option Interpolation) (views : List View) :
    (points (.pure name f) fill views).map Point.timestamp = timeline views := by
  rw [points_pure, List.map_filterMap]
  have htime : ∀ t ∈ timeline views,
      ((f (contributionsAt fill views t)).map (Point.mk t)).map Point.timestamp = some t := by
    intro t ht
    obtain ⟨s, hs⟩ := hf _ (contributionsAt_ne_nil ht)
    rw [hs]
    rfl
  rw [List.filterMap_congr htime, List.filterMap_some]

/-- Points are exact combinations of what views contribute: one at every time of their timeline, the
`value` of the integers there. -/
structure Combined (value : List Int → Int) (fill : Option Interpolation) (views : List View)
    (ps : List Point) : Prop where
  times : ps.map Point.timestamp = timeline views
  exact : ∀ p ∈ ps, ∃ v : Int64, p.value = .int v ∧
    v.toInt = value (integersAt fill views p.timestamp)

theorem Combined.mem {value : List Int → Int} {ps : List Point} (h : Combined value fill views ps)
    {t : Timestamp} (ht : t ∈ timeline views) {v : Int64}
    (hv : v.toInt = value (integersAt fill views t)) : ⟨t, .int v⟩ ∈ ps := by
  rw [← h.times] at ht
  obtain ⟨p, hp, rfl⟩ := List.mem_map.1 ht
  obtain ⟨u, hu, huv⟩ := h.exact p hp
  have heq : u = v := Int64.toInt_inj.1 (huv.trans hv.symm)
  rwa [← heq, ← hu]

variable {op : Int → Int → Int} {value : List Int → Int} {size : List Int → Nat}

theorem combined_points (h : Exact op value size) (opFloat : Float → Float → Float) (name : String)
    (hint : ∀ v ∈ views, v.Integral)
    (hsize : ∀ t ∈ timeline views, size (integersAt fill views t) ≤ Int64.maxValue.toInt) :
    Combined value fill views
      (points (.pure name (Aggregator.fold op opFloat)) fill views) where
  times := by
    apply times_points
    intro ss hss
    obtain ⟨s, ss, rfl⟩ := List.exists_cons_of_ne_nil hss
    exact ⟨_, rfl⟩
  exact p hp := by
    obtain ⟨ht, hv⟩ := mem_points_pure.1 hp
    have hne : contributionsAt fill views p.timestamp ≠ [] := contributionsAt_ne_nil ht
    rw [contributionsAt_eq_words hint] at hv hne
    obtain ⟨r, hr, hval⟩ :=
      Aggregator.fold_words h opFloat (fun hnil => hne (by rw [hnil]; rfl)) (hsize _ ht)
    rw [hr] at hv
    exact ⟨r, (Option.some.inj hv).symm, hval⟩

end Merge

/-! ## Inputs -/

namespace Combine

variable {w : Window} {input : Input}

theorem mem_timeline_viewsOf {t : Timestamp} :
    t ∈ Merge.timeline (viewsOf w input) ↔ ∃ s ∈ input.series, ∃ p ∈ s.within w, p.timestamp = t := by
  simp only [viewsOf, Merge.mem_timeline, List.mem_map, exists_exists_and_eq_and,
    Series.times_view]

theorem integral_viewsOf (hint : ∀ s ∈ input.series, s.IntegralIn w) :
    ∀ v ∈ viewsOf w input, v.Integral := by
  intro v hv
  obtain ⟨s, hs, rfl⟩ := List.mem_map.1 hv
  exact (hint s hs).view

end Combine

/-- At every time at which a series has a sample in the window, the integers that the series contribute
are small together: their size fits a word. -/
def Input.SmallIn (size : List Int → Nat) (fill : Option Interpolation) (w : Window)
    (input : Input) : Prop :=
  ∀ s ∈ input.series, ∀ p ∈ s.within w,
    size (Merge.integersAt fill (Combine.viewsOf w input) p.timestamp) ≤ Int64.maxValue.toInt

instance (size : List Int → Nat) (fill : Option Interpolation) (w : Window) (input : Input) :
    Decidable (input.SmallIn size fill w) :=
  inferInstanceAs (Decidable (∀ s ∈ input.series, ∀ p ∈ s.within w,
    (size (Merge.integersAt fill (Combine.viewsOf w input) p.timestamp) : Int) ≤
      Int64.maxValue.toInt))

theorem Input.SmallIn.size_le {size : List Int → Nat} {fill : Option Interpolation} {w : Window}
    {input : Input} (h : input.SmallIn size fill w) {t : Timestamp}
    (ht : t ∈ Merge.timeline (Combine.viewsOf w input)) :
    size (Merge.integersAt fill (Combine.viewsOf w input) t) ≤ Int64.maxValue.toInt := by
  obtain ⟨s, hs, p, hp, rfl⟩ := Combine.mem_timeline_viewsOf.1 ht
  exact h s hs p hp

end DerivedSeries
