import DerivedSeries.Ranking
import DerivedSeries.Span

/-!
# Evaluation

An evaluation reports events as it goes and ends with a value or an error. What it reports never
decides what it returns: `result` carries an evaluation over to plain errors, step by step.
-/

namespace DerivedSeries

/-- Something that an evaluation reports. -/
inductive Event where
  | evaluating (function : String) (groups series : Nat) (params : List String)
  | merging (aggregator : String) (inputs : Nat) (metric : String)
  | averaging (span : Span) (inputs : Nat)
  /-- A series has no sample to rank by. -/
  | unobserved (index : Nat) (metric : String)
  | ranked (prominent : Bool) (criterion : Criterion) (table : List RankEntry)
  /-- As many series were asked for as there are, or more. -/
  | unranked (count total : Nat)
  | ignoringGroups (count : Nat)
  deriving DecidableEq

namespace Event

/-- Who an event is for: those who debug, or those who use. -/
inductive Level where
  | debug
  | info
  deriving DecidableEq, Repr

def level : Event → Level
  | ranked true _ _ => .info
  | _ => .debug

def message : Event → String
  | evaluating .. => "evaluating expression"
  | merging .. => "merging series"
  | averaging .. => "moving average"
  | unobserved .. => "series has no samples in window, ranking last"
  | ranked .. => "ranked series"
  | unranked .. => "k covers every series, returning input unranked"
  | ignoringGroups _ => "transform applies to the first group only"

/-- The named values of an event, as text. -/
def fields : Event → List (String × String)
  | evaluating function groups series params =>
    [("function", function), ("groups", toString groups), ("series", toString series),
      ("params", Text.quoteList params)]
  | merging aggregator inputs metric =>
    [("aggregator", aggregator), ("inputs", toString inputs), ("metric", metric)]
  | averaging span inputs =>
    [("count", toString span.size), ("duration_based", toString span.isDuration),
      ("inputs", toString inputs)]
  | unobserved index metric => [("index", toString index), ("metric", metric)]
  | ranked _ criterion table =>
    [("criterion", criterion.name), ("ranking", Ranking.format table)]
  | unranked count total => [("k", toString count), ("n", toString total)]
  | ignoringGroups count => [("ignored", toString count)]

end Event

structure Evaluation (α : Type) where
  events : List Event
  result : Except Error α

namespace Evaluation

variable {α β : Type}

protected def bind (x : Evaluation α) (f : α → Evaluation β) : Evaluation β :=
  match x.result with
  | .error e => ⟨x.events, .error e⟩
  | .ok a => ⟨x.events ++ (f a).events, (f a).result⟩

instance : Monad Evaluation where
  pure a := ⟨[], .ok a⟩
  bind := Evaluation.bind

/-- Reports an event. -/
def report (e : Event) : Evaluation Unit := ⟨[e], .ok ()⟩

def fail (e : Error) : Evaluation α := ⟨[], .error e⟩

/-- A value or an error, without a report. -/
def ofExcept (x : Except Error α) : Evaluation α := ⟨[], x⟩

@[simp] theorem result_pure (a : α) : (pure a : Evaluation α).result = .ok a := rfl

@[simp] theorem result_bind (x : Evaluation α) (f : α → Evaluation β) :
    (x >>= f).result = x.result >>= fun a => (f a).result := by
  simp only [Bind.bind, Evaluation.bind]
  cases x.result <;> rfl

@[simp] theorem result_report (e : Event) : (report e).result = .ok () := rfl

@[simp] theorem result_fail (e : Error) : (fail e : Evaluation α).result = .error e := rfl

@[simp] theorem result_ofExcept (x : Except Error α) : (ofExcept x).result = x := rfl

theorem ofExcept_ok_bind (a : α) (f : α → Evaluation β) : ofExcept (.ok a) >>= f = f a := rfl

theorem result_bind_of_ok {x : Evaluation α} {a : α} (h : x.result = .ok a)
    (f : α → Evaluation β) : (x >>= f).result = (f a).result := by
  rw [result_bind, h]
  rfl

theorem result_bind_of_error {x : Evaluation α} {e : Error} (h : x.result = .error e)
    (f : α → Evaluation β) : (x >>= f).result = .error e := by
  rw [result_bind, h]
  rfl

end Evaluation
end DerivedSeries
