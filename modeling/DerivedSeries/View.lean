import DerivedSeries.Window

/-!
# Views

A view is what a function sees of a series: its points inside a window, each sample put through a
transform. The transforms turn subtraction into addition and division into multiplication.
-/

namespace DerivedSeries

inductive Transform where
  | identity
  | negate
  | reciprocal
  deriving DecidableEq, Repr

def Transform.apply : Transform → Sample → Sample
  | identity, s => s
  | negate, s => s.neg
  | reciprocal, s => s.reciprocal

/-- Points in strictly ascending order of time. -/
structure View where
  points : List Point
  ascending : points.Pairwise fun a b => compare a.timestamp b.timestamp = .lt

namespace View

/-- The entries of an ordered map as the points of a view, changed by a function on samples. -/
def ofMap (f : Sample → Sample) (m : OrderedMap Timestamp Sample) : View where
  points := m.entries.map fun e => ⟨e.1, f e.2⟩
  ascending := by rw [List.pairwise_map]; exact m.ascending

/-- The points of a series in a window. A window whose bounds are out of order in seconds is
refused. -/
def ofSeries (w : Window) (transform : Transform) (s : Series) : Except Error View :=
  if w.start > w.stop then .error (.invertedView s.metric w.start w.stop)
  else .ok (ofMap transform.apply (s.samples.filterKeys w.contains))

/-- A view of each series as it is, in order. -/
def identities (w : Window) (ss : List Series) : Except Error (List View) :=
  ss.mapM (ofSeries w .identity)

end View
end DerivedSeries
