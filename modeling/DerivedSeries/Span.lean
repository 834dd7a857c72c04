import DerivedSeries.Error
import DerivedSeries.Text.Blank
import DerivedSeries.Word

/-!
# Spans

A span says how far back a moving average reaches: over a number of samples, or over a time. It is
written as a count (`5`) or as a quoted duration (`'10min'`), digits followed by `sec`, `min` or
`hr`.
-/

namespace DerivedSeries

inductive Span where
  | samples (count : Int64)
  | milliseconds (length : Int64)
  deriving DecidableEq, Repr, Inhabited

namespace Span

/-- The number of samples or milliseconds. -/
def size : Span → Int64
  | samples n => n
  | milliseconds n => n

def isDuration : Span → Bool
  | samples _ => false
  | milliseconds _ => true

/-- The milliseconds in a unit of time. -/
def unitLength? : String → Option Int
  | "sec" => some 1000
  | "min" => some 60000
  | "hr" => some 3600000
  | _ => none

/-- The digits and the unit of a quoted duration, either of which may be empty. -/
def splitQuoted? : List Char → Option (List Char × List Char)
  | '\'' :: cs =>
    let digits := cs.takeWhile Char.isDigit
    let rest := cs.dropWhile Char.isDigit
    let unit := rest.takeWhile (· != '\'')
    if rest.dropWhile (· != '\'') = ['\''] then some (digits, unit) else none
  | _ => none

/-- The number that digits denote; `param` is what the error shows. -/
def readCount (param : String) (digits : List Char) : Except Error Int64 :=
  (Text.readInt64 (String.ofList digits)).mapError (.unreadableSpan param)

def readDuration (param : String) (digits unit : List Char) : Except Error Int64 := do
  if digits.isEmpty then throw (.spanWithoutDigits param)
  let amount ← readCount param digits
  match unitLength? (String.ofList unit) with
  | none => throw (.unknownUnit (String.ofList unit))
  | some length =>
    match int64? (amount.toInt * length) with
    | some n => return n
    | none => throw (.oversizedSpan param)

/-- A span whose size may still be zero. -/
def readUnchecked (param : String) : Except Error Span :=
  if param.isEmpty then .error .emptySpan
  else if param.toList.all Char.isDigit then samples <$> readCount param param.toList
  else
    match splitQuoted? param.toList with
    | some (digits, unit) => milliseconds <$> readDuration param digits unit
    | none => .error (.malformedSpan param)

/-- Reads a span, which has to be positive; blanks around it do not count. -/
def parse (s : String) : Except Error Span := do
  let param := Text.trim s
  let span ← readUnchecked param
  if span.size ≤ 0 then throw (.nonPositiveSpan param)
  return span

/-- The span that the first parameter gives. -/
def ofParams : List String → Except Error Span
  | [] => .error .missingSpan
  | p :: _ => parse p

end Span
end DerivedSeries
