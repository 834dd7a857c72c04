import DerivedSeries.Combine
import DerivedSeries.Elementwise
import DerivedSeries.Select

/-!
# Functions

The nine functions over series, their names, and what each computes from a window, the input and
its parameters.
-/

namespace DerivedSeries

inductive Function where
  | movingAverage
  | highest (criterion : Criterion)
  | sum
  | multiply
  | difference
  | divide
  | absolute
  | scale
  deriving DecidableEq, Repr

namespace Function

def builtIn : List Function :=
  [movingAverage, highest .max, highest .current, sum, multiply, difference, divide, absolute,
    scale]

/-- The name of the function in written expressions. -/
def name : Function → String
  | movingAverage => "movingAverage"
  | highest .max => "highestMax"
  | highest .current => "highestCurrent"
  | sum => "sumSeries"
  | multiply => "multiplySeries"
  | difference => "differenceSeries"
  | divide => "divideSeries"
  | absolute => "abs"
  | scale => "scale"

/-- The shorter or longer names that also stand for the function. -/
def aliases : Function → List String
  | sum => ["sum"]
  | multiply => ["multiply"]
  | difference => ["difference"]
  | divide => ["divide"]
  | absolute => ["absolute"]
  | _ => []

def ofName? (s : String) : Option Function :=
  builtIn.find? fun f => f.name == s

def evaluate (f : Function) (c : Config) (w : Window) (input : Input) (params : List String) :
    Evaluation (List Series) :=
  match f with
  | movingAverage => Combine.smooth c w input params
  | highest criterion => Select.highest criterion c w input params
  | sum => Combine.all .sum c w input
  | multiply => Combine.all .multiply c w input
  | difference => Combine.pair .sum .negate c w input
  | divide => Combine.pair .multiply .reciprocal c w input
  | absolute => Elementwise.absolute input
  | scale => Elementwise.scale input params

end Function
end DerivedSeries
