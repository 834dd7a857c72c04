import DerivedSeries.Config.Overrides
import DerivedSeries.Toml.Document

/-!
# Configuration files

A configuration file is a TOML document with one key for each setting. Keys that are missing leave
the default, other keys are left out of account, and a key of a wrong type spoils the file. The
integers of the format are signed, so a limit beyond them cannot be saved.
-/

namespace DerivedSeries

/-- A place for a file: out of reach, free, or holding bytes. -/
inductive Location where
  | unreachable
  | free
  | holding (bytes : ByteArray)

namespace Config

/-! ## Reading -/

/-- A container that holds nothing. -/
def isHollow : Toml.Value → Bool
  | .array vs => vs.isEmpty
  | .table _ es => es.isEmpty
  | _ => false

/-- A policy is its name, or a table with its name for the only key, and nothing under it. -/
def policyOf? : Toml.Value → Option Interpolation
  | .string s => Interpolation.ofName? s
  | .table _ [(name, v)] => if isHollow v then Interpolation.ofName? name else none
  | _ => none

def boolOf? : Toml.Value → Option Bool
  | .boolean b => some b
  | _ => none

/-- A limit is an integer that is not negative. -/
def limitOf? : Toml.Value → Option UInt64
  | .integer n => if 0 ≤ n then some n.toInt.toNat.toUInt64 else none
  | _ => none

/-- The setting under a key, or its default if the key is missing. -/
def setting {α : Type} (read : Toml.Value → Option α) (default : α) (v : Option Toml.Value) :
    Option α :=
  match v with
  | none => some default
  | some v => read v

def ofEntries (es : Toml.Entries) : Option Config := do
  return {
    interpolation := ← setting policyOf? .lerp (es.get? "interpolation")
    skipMissing := ← setting boolOf? false (es.get? "skip_missing")
    logRankings := ← setting boolOf? false (es.get? "log_rankings")
    maxInputSeries := ← setting limitOf? 100000 (es.get? "max_input_series") }

def ofText (s : String) : Except Error Config :=
  match (Toml.parse s).bind ofEntries with
  | some c => .ok c
  | none => .error .malformedConfig

/-- The text at a place; there is none where the bytes are no UTF-8. -/
def readText : Location → Except Error String
  | .holding bytes =>
    match String.fromUTF8? bytes with
    | some s => .ok s
    | none => .error .unreadableFile
  | _ => .error .unreadableFile

def load (l : Location) : Except Error Config := do
  ofText (← readText l)

/-- The settings of a file after overriding, which have to agree with one another. -/
def loadWith (l : Location) (o : Overrides) : Except Error Config := do
  let c := (← load l).override o
  c.validate
  return c

/-! ## Writing -/

def boolText (b : Bool) : String := if b then "true" else "false"

def toText (c : Config) : String :=
  "interpolation = \"" ++ c.interpolation.name ++ "\"\n"
    ++ "skip_missing = " ++ boolText c.skipMissing ++ "\n"
    ++ "log_rankings = " ++ boolText c.logRankings ++ "\n"
    ++ "max_input_series = " ++ toString c.maxInputSeries.toNat ++ "\n"

/-- The text of a file, if its integers can express the limit. -/
def toText? (c : Config) : Except Error String :=
  if (int64? c.maxInputSeries.toNat).isSome then .ok c.toText else .error .unrepresentableLimit

/-- Saves at a place, and gives what is at the place then. Nothing is written unless the settings
can be expressed. -/
def save (c : Config) (l : Location) : Location × Except Error Unit :=
  match c.toText? with
  | .error e => (l, .error e)
  | .ok s =>
    match l with
    | .unreachable => (l, .error .unwritableFile)
    | _ => (.holding s.toUTF8, .ok ())

end Config
end DerivedSeries
