import DerivedSeries.Json.Tree
import DerivedSeries.Json.Number
import DerivedSeries.Config
import DerivedSeries.RateOptions
import DerivedSeries.Window

/-!
# Writing and reading as JSON

Each type has one written form, and reading takes it back. Reading is strict about types and
ranges, and loose about shape: the fields of a record may stand in any order, other fields among
them, or be given by an array in the order of the fields. A field may be left out where it has a
default; no field may be given twice. Of several entries of a map with one key the last counts.
-/

namespace DerivedSeries.Json

/-! ## Reading -/

/-- Reads a value of a type off a tree. -/
abbrev Reader (α : Type) := Tree → Option α

namespace Reader

def bool : Reader Bool
  | .bool b => some b
  | _ => none

def number : Reader Number
  | .number n => Number.ofNumeral n
  | _ => none

def int64 : Reader Int64 := fun t =>
  (number t).bind Number.toInt64?

def uint64 : Reader UInt64 := fun t =>
  (number t).bind Number.toUInt64?

def string : Reader String
  | .string l => l.decode?
  | _ => none

def sample : Reader Sample := fun t =>
  (number t).map Number.toSample

def list {α : Type} (r : Reader α) : Reader (List α)
  | .array ts => ts.mapM r
  | _ => none

/-- A map whose keys are read off literals. -/
def map {κ α : Type} [Ord κ] [Std.TransOrd κ] (key : Literal → Option κ) (r : Reader α) :
    Reader (OrderedMap κ α)
  | .object ms => do
    let es ← ms.mapM fun (m : Literal × Tree) => do return (← key m.1, ← r m.2)
    return OrderedMap.ofList es
  | _ => none

/-- A key that is an integer is written as a numeral without escapes, and as nothing else. -/
def int64Key (l : Literal) : Option Int64 := do
  let (n, rest) ← Numeral.read (← l.plain?)
  if rest.isEmpty then (← Number.ofNumeral n).toInt64? else none

/-- The trees under a name among members. -/
def under (name : String) (ms : List (String × Tree)) : List Tree :=
  (ms.filter fun m => m.1 == name).map (·.2)

/-- The tree of each named field of a record, where it is given. -/
def fields (names : List String) : Reader (List (Option Tree))
  | .array ts => if ts.length ≤ names.length then some (names.mapIdx fun i _ => ts[i]?) else none
  | .object ms => do
    let ms ← ms.mapM fun (m : Literal × Tree) => do return (← m.1.decode?, m.2)
    names.mapM fun name =>
      match under name ms with
      | [] => some none
      | [t] => some (some t)
      | _ => none
  | _ => none

/-- A field that has to be given. -/
def required {α : Type} (r : Reader α) (t : Option Tree) : Option α :=
  t.bind r

/-- A field with a default. -/
def optional {α : Type} (r : Reader α) (default : α) : Option Tree → Option α
  | none => some default
  | some t => r t

def point : Reader Point := fun t => do
  match ← fields ["timestamp", "value"] t with
  | [timestamp, value] => return ⟨← required int64 timestamp, ← required sample value⟩
  | _ => none

def window : Reader Window := fun t => do
  match ← fields ["start_ms", "end_ms"] t with
  | [start, stop] => return ⟨← required int64 start, ← required int64 stop⟩
  | _ => none

def rateOptions : Reader RateOptions := fun t => do
  match ← fields ["counter", "counter_max", "reset_value"] t with
  | [counter, counterMax, resetValue] =>
    return ⟨← optional bool false counter, ← optional int64 Int64.maxValue counterMax,
      ← optional int64 0 resetValue⟩
  | _ => none

def series : Reader Series := fun t => do
  match ← fields ["metric", "tags", "aggregateTags", "dps"] t with
  | [metric, tags, aggregatedTags, samples] =>
    return {
      metric := ← optional string "" metric
      tags := ← optional (map Literal.decode? string) .empty tags
      aggregatedTags := ← optional (list string) [] aggregatedTags
      samples := ← optional (map int64Key sample) .empty samples }
  | _ => none

/-- A policy is its name, or an object with its name for a key and null under it. -/
def interpolation : Reader Interpolation
  | .string l => l.decode?.bind Interpolation.ofName?
  | .object [(l, .null)] => l.decode?.bind Interpolation.ofName?
  | _ => none

def config : Reader Config := fun t => do
  match ← fields ["interpolation", "skip_missing", "log_rankings", "max_input_series"] t with
  | [policy, skipMissing, logRankings, limit] =>
    return ⟨← optional interpolation .lerp policy, ← optional bool false skipMissing,
      ← optional bool false logRankings, ← optional uint64 100000 limit⟩
  | _ => none

/-- Reads a text that is one value. -/
def text {α : Type} (r : Reader α) (s : String) : Except Error α :=
  match (Tree.parse s).bind r with
  | some a => .ok a
  | none => .error .malformedJson

end Reader

/-! ## Writing -/

namespace Writer

def int (n : Int) : Tree := .number (.ofInt n)

def string (s : String) : Tree := .string (.encode s)

/-- An integer without a point, a double with a point or an exponent; there is no numeral for an
infinity or for what is no number. -/
def sample : Sample → Tree
  | .int v => int v.toInt
  | .float x => (Numeral.ofFloat? x).elim .null .number

def record (fields : List (String × Tree)) : Tree :=
  .object (fields.map fun f => (.encode f.1, f.2))

def point (p : Point) : Tree :=
  record [("timestamp", int p.timestamp.toInt), ("value", sample p.value)]

def window (w : Window) : Tree :=
  record [("start_ms", int w.startMs.toInt), ("end_ms", int w.endMs.toInt)]

def rateOptions (r : RateOptions) : Tree :=
  record [("counter", .bool r.counter), ("counter_max", int r.counterMax.toInt),
    ("reset_value", int r.resetValue.toInt)]

def series (s : Series) : Tree :=
  record [("metric", string s.metric),
    ("tags", record (s.tags.entries.map fun e => (e.1, string e.2))),
    ("aggregateTags", .array (s.aggregatedTags.map string)),
    ("dps", record (s.samples.entries.map fun e => (toString e.1, sample e.2)))]

def config (c : Config) : Tree :=
  record [("interpolation", string c.interpolation.name), ("skip_missing", .bool c.skipMissing),
    ("log_rankings", .bool c.logRankings), ("max_input_series", int c.maxInputSeries.toNat)]

end Writer
end DerivedSeries.Json
