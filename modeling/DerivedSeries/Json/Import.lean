import DerivedSeries.Json.Value
import DerivedSeries.Error
import DerivedSeries.Series
import DerivedSeries.Text.Blank

/-!
# Importing query results

Backends answer with JSON objects whose shape is taken loosely: a part of another type than
expected counts as missing, and times may be written with blanks or a plus sign. What is inside a
part of the right type has to be right: tags are strings, keys of samples are times, samples are
numbers. The first fault in the order of keys is reported, tags before samples.
-/

namespace DerivedSeries

namespace Sample

/-- A sample is any number. -/
def ofJson : Json.Value → Except Error Sample
  | .number n => .ok n.toSample
  | v => .error (.sampleNotNumber v.kindName)

end Sample

namespace Series

def tagOfJson (e : String × Json.Value) : Except Error (String × String) :=
  match e.2.string? with
  | some s => .ok (e.1, s)
  | none => .error (.tagNotString e.1)

def pointOfJson (e : String × Json.Value) : Except Error Point := do
  let t ← (Text.readInt64 (Text.trim e.1)).mapError fun _ => .invalidTimestamp e.1
  return ⟨t, ← Sample.ofJson e.2⟩

/-- The members of an object under a key, in order of their keys; none without such an object. -/
def membersAt (o : OrderedMap String Json.Value) (key : String) : List (String × Json.Value) :=
  ((o.get? key).bind Json.Value.object?).elim [] OrderedMap.entries

/-- The strings of an array under a key; what else it holds is left out. -/
def stringsAt (o : OrderedMap String Json.Value) (key : String) : List String :=
  ((o.get? key).bind Json.Value.array?).elim [] fun vs => vs.filterMap Json.Value.string?

def ofJson (v : Json.Value) : Except Error Series := do
  match v.object? with
  | none => throw .seriesNotObject
  | some o =>
    let tags ← (membersAt o "tags").mapM tagOfJson
    let points ← (membersAt o "dps").mapM pointOfJson
    let empty : Series :=
      { metric := ((o.get? "metric").bind Json.Value.string?).getD ""
        tags := OrderedMap.ofList tags
        aggregatedTags := stringsAt o "aggregateTags" }
    return empty.insertAll points

end Series
end DerivedSeries
