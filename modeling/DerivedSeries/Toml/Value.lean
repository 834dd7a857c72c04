/-!
# TOML tables

A document is a table of values in the order in which they were set. Tables remember how they came
about, because that decides who may add to them: a table is written inline, opened by a header of
its own, implied by the header of a table inside it, or implied by a dotted key.
-/

namespace DerivedSeries.Toml

/-- How a table came about. -/
inductive Form where
  | inline
  | header
  | implied
  | dotted
  deriving DecidableEq, Repr

inductive Value where
  | string (s : String)
  | integer (n : Int64)
  | float (x : Float)
  | boolean (b : Bool)
  /-- A date, a time or both; which one is of no use here. -/
  | dateTime
  | array (items : List Value)
  | table (form : Form) (entries : List (String × Value))
  /-- Tables opened by headers in double brackets, in order. -/
  | tables (elements : List (List (String × Value)))
  deriving Inhabited

/-- The entries of a table in the order in which they were set. -/
abbrev Entries := List (String × Value)

namespace Entries

def get? (es : Entries) (key : String) : Option Value :=
  es.lookup key

/-- Changes the value under a key in its place. -/
def replace (es : Entries) (key : String) (v : Value) : Entries :=
  es.map fun e => if e.1 = key then (key, v) else e

def remove (es : Entries) (key : String) : Entries :=
  es.filter fun e => e.1 ≠ key

/-- Changes the table at a path of keys, whose form the change may look at. Missing tables on the
way are made. The path of a dotted key may not enter a table that has a header of its own; no path
enters an inline table or anything that is no table. Of a list of tables the last is meant. -/
def modifyAt (dotted : Bool) (change : Form → Entries → Option Entries) :
    List String → Form → Entries → Option Entries
  | [], form, es => change form es
  | k :: ks, _, es =>
    match es.get? k with
    | none => do
      let form := if dotted then Form.dotted else .implied
      return es ++ [(k, .table form (← modifyAt dotted change ks form []))]
    | some (.table form inner) =>
      if form = .inline ∨ (dotted ∧ form = .header) then none
      else do return es.replace k (.table form (← modifyAt dotted change ks form inner))
    | some (.tables elements) => do
      let inner ← modifyAt dotted change ks .header (← elements.getLast?)
      return es.replace k (.tables (elements.dropLast ++ [inner]))
    | some _ => none

/-- Sets a new key. A dotted key adds only to tables that dotted keys made. -/
def insertNew (path : List String) (key : String) (v : Value) (form : Form) (es : Entries) :
    Option Entries :=
  if (form == .dotted) == path.isEmpty then none
  else if (es.get? key).isSome then none
  else some (es ++ [(key, v)])

/-- Sets the value of a dotted key, `path` being its keys before the last. -/
def setDotted (path : List String) (key : String) (v : Value) (form : Form) (es : Entries) :
    Option Entries :=
  modifyAt true (insertNew path key v) path form es

/-- Opens the table of a header. It may have been implied before, but not opened. -/
def openTable (key : String) (_ : Form) (es : Entries) : Option Entries :=
  match es.get? key with
  | none => some (es ++ [(key, .table .header [])])
  | some (.table .implied inner) => some (es.remove key ++ [(key, .table .header inner)])
  | some _ => none

/-- Opens one more table of a list of tables. -/
def openElement (key : String) (_ : Form) (es : Entries) : Option Entries :=
  match es.get? key with
  | none => some (es ++ [(key, .tables [[]])])
  | some (.tables elements) => some (es.replace key (.tables (elements ++ [[]])))
  | some _ => none

end Entries
end DerivedSeries.Toml
