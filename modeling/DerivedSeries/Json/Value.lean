import DerivedSeries.Json.Tree
import DerivedSeries.Json.Number
import DerivedSeries.OrderedMap

/-!
# JSON values

A value is what a tree means: numbers that did not overflow and strings of characters, nested at
most `depthLimit` containers deep. A value keeps all members of an object; looked at as a map, the
last member of a key counts.
-/

namespace DerivedSeries.Json

inductive Value where
  | null
  | bool (b : Bool)
  | number (n : Number)
  | string (s : String)
  | array (items : List Value)
  | object (members : List (String × Value))
  deriving Inhabited

namespace Value

/-- The greatest number of containers around one another. -/
def depthLimit : Nat := 127

/-- The value of a tree with at most `depth` containers around one another. -/
def ofTree? (depth : Nat) : Tree → Option Value
  | .null => some .null
  | .bool b => some (.bool b)
  | .number n => (Number.ofNumeral n).map .number
  | .string l => l.decode?.map .string
  | .array ts =>
    match depth with
    | 0 => none
    | depth + 1 => (ts.mapM (ofTree? depth)).map .array
  | .object ms =>
    match depth with
    | 0 => none
    | depth + 1 =>
      (ms.mapM fun (m : Literal × Tree) => do
        return (← m.1.decode?, ← ofTree? depth m.2)).map .object

/-- The value of a text. -/
def parse? (s : String) : Option Value :=
  (Tree.parse s).bind (ofTree? depthLimit)

/-- What a value is, for error texts. -/
def kindName : Value → String
  | null => "null"
  | bool _ => "boolean"
  | number _ => "number"
  | string _ => "string"
  | array _ => "array"
  | object _ => "object"

def string? : Value → Option String
  | string s => some s
  | _ => none

def array? : Value → Option (List Value)
  | array vs => some vs
  | _ => none

def object? : Value → Option (OrderedMap String Value)
  | object ms => some (OrderedMap.ofList ms)
  | _ => none

end Value
end DerivedSeries.Json
