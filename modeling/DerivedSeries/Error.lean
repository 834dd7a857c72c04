import DerivedSeries.Text.Integer
import DerivedSeries.Text.Mismatch
import DerivedSeries.Decimal.Literal

/-!
# Errors

An error is the cause of a failure, with the values that its text shows. `Error.kind` sorts the
causes into the six kinds that callers tell apart, and `Error.text?` is what a user reads.
-/

namespace DerivedSeries

inductive ErrorKind where
  | invalidArgument
  | typeMismatch
  | invariantViolation
  | configuration
  | io
  | serialization
  deriving DecidableEq, Repr

namespace ErrorKind

def label : ErrorKind → String
  | invalidArgument => "Invalid argument"
  | typeMismatch => "Type mismatch"
  | invariantViolation => "Invariant violation"
  | configuration => "Configuration error"
  | io => "IO error"
  | serialization => "Serialization error"

/-- The text of an error of this kind with a given message. -/
def text (kind : ErrorKind) (message : String) : String :=
  kind.label ++ ": " ++ message

end ErrorKind

inductive Error where
  /-- A window that ends before it starts, in milliseconds. -/
  | invertedWindow (start stop : Int64)
  /-- A view asked for between seconds that are out of order. -/
  | invertedView (metric : String) (start stop : Int64)
  | unknownFunction (name : String)
  | tooManySeries (count : Nat) (limit : UInt64)
  | noInput
  /-- A function of two operands was given another number of them. -/
  | operandShape (groups series : Nat)
  | missingSpan
  | emptySpan
  | malformedSpan (param : String)
  | unreadableSpan (param : String) (fault : Text.IntegerFault)
  | spanWithoutDigits (param : String)
  | unknownUnit (unit : String)
  | oversizedSpan (param : String)
  | nonPositiveSpan (param : String)
  | missingCount
  | blankCount (param : String)
  | unreadableCount (param : String) (fault : Text.IntegerFault)
  | nonPositiveCount (count : Int64)
  /-- A ranking that lists fewer series than are asked for. -/
  | shortRanking (entries count : Nat)
  /-- A ranking that lists a series twice, or one that does not exist. -/
  | unavailableSeries (index : Nat)
  | missingFactor
  | unreadableFactor (param : String) (fault : Decimal.LiteralFault)
  | malformedRateOptions (text : String) (mismatch : Text.Mismatch)
  | seriesNotObject
  | tagNotString (key : String)
  | invalidTimestamp (key : String)
  /-- A sample was expected, and a value of the named JSON kind found. -/
  | sampleNotNumber (found : String)
  | unknownInterpolation (name : String)
  /-- A policy was chosen that can never be used, because missing samples are skipped. -/
  | idleInterpolation (name : String)
  | malformedConfig
  | unreadableFile
  | unwritableFile
  | malformedJson
  /-- A limit too great for the signed integers of the configuration file format. -/
  | unrepresentableLimit
  deriving DecidableEq, Repr

namespace Error

def kind : Error → ErrorKind
  | sampleNotNumber _ => .typeMismatch
  | shortRanking .. | unavailableSeries _ => .invariantViolation
  | unknownInterpolation _ | idleInterpolation _ | malformedConfig => .configuration
  | unreadableFile | unwritableFile => .io
  | malformedJson | unrepresentableLimit => .serialization
  | _ => .invalidArgument

/-- What the error says after its kind. Faults of files, JSON texts and configuration texts have
no fixed wording. -/
def message? : Error → Option String
  | invertedWindow start stop => s!"Invalid window: start {start} > end {stop}"
  | invertedView metric start stop =>
    s!"cannot build sample view for '{metric}': start {start} > end {stop}"
  | unknownFunction name => s!"unknown function '{name}'"
  | tooManySeries count limit => s!"{count} input series exceeds the limit of {limit}"
  | noInput => "query results cannot be empty"
  | operandShape groups series =>
    s!"expected two query results, got {groups} groups with {series} series"
  | missingSpan => "need aggregation window for moving average"
  | emptySpan => "invalid window=''"
  | malformedSpan p => s!"invalid window='{p}': expected a sample count or a quoted duration"
  | unreadableSpan p fault => s!"invalid window='{p}': {fault.message}"
  | spanWithoutDigits p => s!"invalid parameter: {p}"
  | unknownUnit unit => s!"unknown time unit={unit}"
  | oversizedSpan p => s!"window '{p}' is too large"
  | nonPositiveSpan p => s!"window must be positive, got '{p}'"
  | missingCount => "need number of series to select"
  | blankCount p => s!"invalid k='{p}'"
  | unreadableCount p fault => s!"invalid k='{p}': {fault.message}"
  | nonPositiveCount k => s!"k must be positive, got {k}"
  | shortRanking entries count => s!"ranking table has {entries} entries, need {count}"
  | unavailableSeries index => s!"series #{index} selected twice or missing"
  | missingFactor => "scaling parameter not available"
  | unreadableFactor p fault => s!"invalid scale factor '{p}': {fault.message}"
  | malformedRateOptions text mismatch => s!"invalid rate options '{text}': {mismatch.render}"
  | seriesNotObject => "series must be a JSON object"
  | tagNotString key => s!"tag '{key}' must be a string"
  | invalidTimestamp key => s!"invalid timestamp '{key}'"
  | sampleNotNumber found => s!"expected integer or float sample, found {found}"
  | unknownInterpolation name => s!"unknown interpolation '{name}'"
  | idleInterpolation name =>
    s!"interpolation '{name}' has no effect when skip_missing is set"
  | malformedConfig | unreadableFile | unwritableFile | malformedJson | unrepresentableLimit => none

/-- The kind and the message, where the error has one. -/
def text? (e : Error) : Option String :=
  e.message?.map e.kind.text

end Error

/-- A success of two steps in turn is one of each. -/
theorem exists_of_bind_eq_ok {ε α β : Type} {x : Except ε α} {f : α → Except ε β} {b : β}
    (h : x >>= f = .ok b) : ∃ a, x = .ok a ∧ f a = .ok b := by
  cases x with
  | error e => cases h
  | ok a => exact ⟨a, rfl, h⟩

theorem bind_eq_ok_iff {ε α β : Type} {x : Except ε α} {f : α → Except ε β} {b : β} :
    x >>= f = .ok b ↔ ∃ a, x = .ok a ∧ f a = .ok b := by
  refine ⟨exists_of_bind_eq_ok, ?_⟩
  rintro ⟨a, rfl, h⟩
  exact h

theorem map_eq_ok_iff {ε α β : Type} {x : Except ε α} {f : α → β} {b : β} :
    f <$> x = .ok b ↔ ∃ a, x = .ok a ∧ f a = b := by
  cases x <;> simp [Functor.map, Except.map]

theorem mapError_eq_ok_iff {ε ε' α : Type} {x : Except ε α} {f : ε → ε'} {a : α} :
    x.mapError f = .ok a ↔ x = .ok a := by
  cases x with
  | error e => exact iff_of_false nofun nofun
  | ok b =>
    show (Except.ok b : Except ε' α) = .ok a ↔ _
    simp only [Except.ok.injEq]

/-- A traversal whose steps all succeed is a map. -/
theorem mapM_eq_ok {ε α β : Type} {f : α → Except ε β} {g : α → β} {as : List α}
    (h : ∀ a ∈ as, f a = .ok (g a)) : as.mapM f = .ok (as.map g) := by
  induction as with
  | nil => rfl
  | cons a as ih =>
    rw [List.mapM_cons, h a (by simp), ih fun b hb => h b (by simp [hb])]
    rfl

/-- Where this fails, it refuses an invalid argument. -/
def Refuses {α : Type} (x : Except Error α) : Prop :=
  ∀ e, x = .error e → e.kind = .invalidArgument

namespace Refuses

variable {α β : Type} {x : Except Error α}

theorem ok (a : α) : Refuses (.ok a) := nofun

theorem error {e : Error} (h : e.kind = .invalidArgument) : Refuses (.error e : Except Error α) := by
  rintro _ ⟨⟩
  exact h

theorem bind {f : α → Except Error β} (hx : Refuses x) (hf : ∀ a, Refuses (f a)) :
    Refuses (x >>= f) := by
  cases x with
  | error e => exact error (hx e rfl)
  | ok a => exact hf a

theorem map {f : α → β} (hx : Refuses x) : Refuses (f <$> x) := by
  cases x with
  | error e => exact error (hx e rfl)
  | ok a => exact ok (f a)

theorem mapError {ε : Type} {y : Except ε α} {f : ε → Error}
    (h : ∀ fault, (f fault).kind = .invalidArgument) : Refuses (y.mapError f) := by
  cases y with
  | error fault => exact error (h fault)
  | ok a => exact ok a

end Refuses
end DerivedSeries
