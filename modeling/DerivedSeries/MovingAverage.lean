import DerivedSeries.Aggregator
import DerivedSeries.Span

/-!
# Moving averages

The moving average of a span takes the sum of the samples at each time and averages the sums that
the span reaches back to. Until the span has filled once it answers a zero of the kind of the
newest sum; what has filled stays filled.
-/

namespace DerivedSeries

/-- What a moving average remembers: the sums in reach, oldest first, the first time it saw, and
whether the span has filled. -/
structure History where
  sums : List Point := []
  start? : Option Timestamp := none
  filled : Bool := false
  deriving DecidableEq, Inhabited

namespace History

/-- The milliseconds from one time to another, clamped to the 64-bit range. -/
def elapsed (since now : Timestamp) : Int64 :=
  Int64.ofIntClamp ((now.toInt - since.toInt) * 1000)

/-- The sums that are still in reach of a span at a time. A negative count reaches back without
end. -/
def retain (span : Span) (now : Timestamp) (sums : List Point) : List Point :=
  match span with
  | .milliseconds length => sums.dropWhile fun p => elapsed p.timestamp now > length
  | .samples count => if count < 0 then sums else sums.drop (sums.length - count.toInt.toNat)

/-- The span has been covered since `start`, `sums` being those in reach. -/
def covers (span : Span) (start now : Timestamp) (sums : List Point) : Bool :=
  match span with
  | .milliseconds length => elapsed start now ≥ length
  | .samples count => 0 ≤ count && count.toInt ≤ sums.length

/-- Adds the newest sum and drops those out of reach. -/
def push (span : Span) (h : History) (p : Point) : History :=
  let start := h.start?.getD p.timestamp
  let sums := retain span p.timestamp (h.sums ++ [p])
  { sums, start? := some start, filled := h.filled || covers span start p.timestamp sums }

/-- The exact total of integers. -/
def intTotal (ss : List Sample) : Int :=
  ss.foldl (fun n s => match s with | .int v => n + v.toInt | .float _ => n) 0

/-- The total of samples as doubles, from the left; negative zero is the neutral start. -/
def floatTotal (ss : List Sample) : Float :=
  ss.foldl (fun x s => x + s.toFloat) Binary64.negativeZero

/-- The average of samples: an integer truncated toward zero if all are integers. -/
def average (ss : List Sample) : Option Sample :=
  if ss.isEmpty then none
  else if ss.all Sample.isInt then
    some (.int (Int64.ofInt ((intTotal ss).tdiv ss.length)))
  else some (.float (floatTotal ss / Binary64.ofInt ss.length))

end History

namespace Aggregator

/-- What a moving average answers once it has taken in the sum `s`. -/
def smoothed (h : History) (s : Sample) : Option Sample :=
  if h.filled then History.average (h.sums.map Point.value) else some s.zeroLike

/-- The moving average of a span. A time without samples leaves it as it is. -/
def movingAverage (span : Span) : Aggregator History where
  name := "movingAverage"
  initial := {}
  step h t ss :=
    match total ss with
    | none => (none, h)
    | some s =>
      let next := h.push span ⟨t, s⟩
      (smoothed next s, next)

end Aggregator
end DerivedSeries
