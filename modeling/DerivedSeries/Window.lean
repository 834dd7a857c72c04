import DerivedSeries.Error
import DerivedSeries.Series

/-!
# Windows

A window is a span of time in milliseconds, its start included and its end excluded. Series have
one sample a second at most, so the bounds are cut to whole seconds, toward zero.
-/

namespace DerivedSeries

structure Window where
  startMs : Int64
  endMs : Int64
  deriving DecidableEq, Repr, Inhabited

namespace Window

/-- The window between two times that are in order. -/
def between (startMs endMs : Int64) : Except Error Window :=
  if startMs > endMs then .error (.invertedWindow startMs endMs) else .ok ⟨startMs, endMs⟩

/-- The start in seconds; division of words truncates. -/
def start (w : Window) : Timestamp := w.startMs / 1000

/-- The end in seconds. -/
def stop (w : Window) : Timestamp := w.endMs / 1000

def contains (w : Window) (t : Timestamp) : Bool :=
  w.start ≤ t && t < w.stop

theorem contains_iff {w : Window} {t : Timestamp} :
    w.contains t = true ↔ w.start ≤ t ∧ t < w.stop := by
  simp [contains]

end Window
end DerivedSeries
