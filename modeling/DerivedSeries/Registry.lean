import DerivedSeries.Function

/-!
# The registry

A registry maps names and aliases to operations on series, each with settings of its own, and has
settings that limit the size of an input. Of an operation it knows the name and what it computes; the
nine functions are the ones that it starts with. A later registration takes over the names it shares
with earlier ones.
-/

namespace DerivedSeries

/-- An operation on series: a name, and what it computes under settings. -/
structure Operation where
  name : String
  evaluate : Config → Window → Input → List String → Evaluation (List Series)

/-- The call of an operation on an inner expression, as text. -/
def Operation.render (o : Operation) (inner : String) : String :=
  o.name ++ "(" ++ inner ++ ")"

def Function.operation (f : Function) : Operation where
  name := f.name
  evaluate := f.evaluate

instance : Coe Function Operation := ⟨Function.operation⟩

/-- An operation with the settings that it works under. -/
structure Registration where
  function : Operation
  config : Config

def Registration.evaluate (r : Registration) (w : Window) (input : Input) (params : List String) :
    Evaluation (List Series) :=
  r.function.evaluate r.config w input params

structure Registry where
  config : Config
  entries : OrderedMap String Registration := .empty

namespace Registry

/-- Registers an operation under aliases and its own name, which wins among them. -/
def register (g : Registry) (r : Registration) (aliases : List String) : Registry :=
  { g with
    entries := (g.entries.insertAll (aliases.map (·, r))).insert r.function.name r }

/-- The registry of the built-in functions, which share its settings. -/
def ofConfig (c : Config) : Registry :=
  Function.builtIn.foldl (fun g (f : Function) => g.register ⟨f, c⟩ f.aliases) { config := c }

def get? (g : Registry) (name : String) : Option Registration :=
  g.entries.get? name

/-- The registered names and aliases, in ascending order. -/
def names (g : Registry) : List String :=
  g.entries.keys

def find (g : Registry) (name : String) : Except Error Registration :=
  match g.get? name with
  | some r => .ok r
  | none => .error (.unknownFunction name)

/-- Evaluates the operation of a name. The limit on the input is the registry's. -/
def evaluate (g : Registry) (name : String) (w : Window) (input : Input) (params : List String) :
    Evaluation (List Series) := do
  let r ← Evaluation.ofExcept (g.find name)
  Evaluation.report (.evaluating r.function.name input.length input.size params)
  Evaluation.ofExcept (g.config.checkSize input.size)
  r.evaluate w input params

/-- The call of the operation of a name on an inner expression, as text. Parameters are not part of
it. -/
def render (g : Registry) (name : String) (inner : String) : Except Error String :=
  return (← g.find name).function.render inner

end Registry
end DerivedSeries
