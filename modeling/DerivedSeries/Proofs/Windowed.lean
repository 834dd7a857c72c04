import DerivedSeries.View

/-!
# Series in a window

A window whose bounds are in order in seconds shows of each series the points at the times it
contains (`View.ofSeries_of_le`, `points_view`); any other window shows nothing and is refused
(`View.ofSeries_of_lt`). Bounds that are in order in milliseconds are so in seconds
(`Window.start_le_stop`).
-/

namespace DerivedSeries

/-- Times in order stay so when they are cut to seconds. -/
theorem Window.seconds_le {a b : Int64} (h : a ≤ b) : a / 1000 ≤ b / 1000 := by
  have hle := Int64.le_iff_toInt_le.1 h
  have hne : (1000 : Int64) ≠ -1 := by decide
  rw [Int64.le_iff_toInt_le, Int64.toInt_div_of_ne_right _ _ hne,
    Int64.toInt_div_of_ne_right _ _ hne]
  exact Int.tdiv_le_tdiv (by decide) hle

theorem Window.start_le_stop {startMs endMs : Int64} {w : Window}
    (h : Window.between startMs endMs = .ok w) : w.start ≤ w.stop := by
  unfold between at h
  by_cases hgt : startMs > endMs
  · rw [if_pos hgt] at h
    cases h
  · rw [if_neg hgt] at h
    cases h
    exact seconds_le (Int64.not_lt.1 hgt)

namespace Series

/-- The points of a series at the times that a window contains. -/
def within (w : Window) (s : Series) : List Point :=
  s.points.filter fun p => w.contains p.timestamp

/-- The view of a series in a window, each sample put through a transform. -/
def view (w : Window) (transform : Transform) (s : Series) : View :=
  View.ofMap transform.apply (s.samples.filterKeys w.contains)

theorem points_view (w : Window) (s : Series) : (s.view w .identity).points = s.within w := by
  unfold view within points View.ofMap
  simp only [OrderedMap.entries_filterKeys, List.filter_map]
  rfl

/-- A window whose bounds are out of order contains nothing. -/
theorem within_of_lt {w : Window} (h : w.stop < w.start) (s : Series) : s.within w = [] := by
  unfold within
  rw [List.filter_eq_nil_iff]
  intro p _ hp
  have hp := Window.contains_iff.1 hp
  exact Int64.lt_irrefl (Int64.lt_of_le_of_lt hp.1 (Int64.lt_trans hp.2 h))

end Series

namespace View

variable {w : Window}

theorem ofSeries_of_le (h : w.start ≤ w.stop) (transform : Transform) (s : Series) :
    ofSeries w transform s = .ok (s.view w transform) :=
  if_neg (Int64.not_lt.2 h)

theorem ofSeries_of_lt (h : w.stop < w.start) (transform : Transform) (s : Series) :
    ofSeries w transform s = .error (.invertedView s.metric w.start w.stop) :=
  if_pos h

theorem identities_of_le (h : w.start ≤ w.stop) (ss : List Series) :
    identities w ss = .ok (ss.map (Series.view w .identity)) :=
  mapM_eq_ok fun s _ => ofSeries_of_le h .identity s

theorem identities_of_lt (h : w.stop < w.start) (s : Series) (ss : List Series) :
    identities w (s :: ss) = .error (.invertedView s.metric w.start w.stop) := by
  unfold identities
  rw [List.mapM_cons, ofSeries_of_lt h]
  rfl

end View
end DerivedSeries
