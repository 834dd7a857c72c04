import DerivedSeries.Sample

/-!
# Aggregators

An aggregator reduces the samples that several series contribute at one time to a single sample,
or to none. It may remember earlier times, so it is a step function on a state. Sums and products
stay exact integers as long as every operand is an integer and no partial result leaves the 64-bit
range; otherwise all operands are combined again as doubles, from the first one on.
-/

namespace DerivedSeries

structure Aggregator (σ : Type) where
  name : String
  initial : σ
  step : σ → Timestamp → List Sample → Option Sample × σ

/-- The samples contributed at one time. -/
structure Row where
  timestamp : Timestamp
  samples : List Sample
  deriving DecidableEq, Inhabited

namespace Aggregator

/-- The points that an aggregator emits for rows fed to it in order. -/
def runFrom {σ : Type} (a : Aggregator σ) (state : σ) : List Row → List Point
  | [] => []
  | r :: rs =>
    match a.step state r.timestamp r.samples with
    | (some v, next) => ⟨r.timestamp, v⟩ :: runFrom a next rs
    | (none, next) => runFrom a next rs

theorem runFrom_cons {σ : Type} (a : Aggregator σ) (state : σ) (r : Row) (rs : List Row) :
    a.runFrom state (r :: rs) = match a.step state r.timestamp r.samples with
      | (some v, next) => ⟨r.timestamp, v⟩ :: a.runFrom next rs
      | (none, next) => a.runFrom next rs := rfl

def run {σ : Type} (a : Aggregator σ) (rows : List Row) : List Point :=
  a.runFrom a.initial rows

/-- The answers of an aggregator to rows fed to it in order, one for each row. -/
def answers {σ : Type} (a : Aggregator σ) (state : σ) : List Row → List (Option Sample)
  | [] => []
  | r :: rs =>
    let (out, next) := a.step state r.timestamp r.samples
    out :: answers a next rs

theorem runFrom_eq_answers {σ : Type} (a : Aggregator σ) (state : σ) (rows : List Row) :
    a.runFrom state rows = (rows.zip (a.answers state rows)).filterMap
      fun e => e.2.map (Point.mk e.1.timestamp) := by
  induction rows generalizing state with
  | nil => rfl
  | cons r rs ih =>
    rw [runFrom_cons, answers]
    cases a.step state r.timestamp r.samples with
    | mk out next => cases out <;> simp [ih]

/-- Combines two integers exactly; a double, or a result out of range, has no exact combination. -/
def combineInts (op : Int → Int → Int) : Sample → Sample → Option Sample
  | .int a, .int b => Sample.ofInt? (op a.toInt b.toInt)
  | _, _ => none

/-- Combines samples from the left, exactly if that is possible and as doubles otherwise. -/
def fold (op : Int → Int → Int) (opFloat : Float → Float → Float) : List Sample → Option Sample
  | [] => none
  | s :: ss =>
    some <| (ss.foldlM (combineInts op) s).getD <|
      .float (ss.foldl (fun acc v => opFloat acc v.toFloat) s.toFloat)

/-- The sum of samples. -/
def total : List Sample → Option Sample :=
  fold (· + ·) (· + ·)

/-- The product of samples. -/
def product : List Sample → Option Sample :=
  fold (· * ·) (· * ·)

/-- An aggregator that remembers nothing. -/
def pure (name : String) (f : List Sample → Option Sample) : Aggregator Unit where
  name := name
  initial := ()
  step _ _ ss := (f ss, ())

def sum : Aggregator Unit := pure "sum" total

def multiply : Aggregator Unit := pure "multiply" product

end Aggregator
end DerivedSeries
