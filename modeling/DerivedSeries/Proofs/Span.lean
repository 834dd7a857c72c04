import DerivedSeries.Span
import DerivedSeries.Proofs.Text.Numeral

/-!
# Written spans

A span is written as digits, or as digits and a unit between quotes (`Span.Written`). These texts, if the
span is positive, are what the reader accepts once the blanks around them are gone
(`Span.parse_eq_ok_iff`), and every other text is refused (`Span.parse_grammar`). A duration is a whole
number of seconds, which keeps it below the greatest word (`Span.legal_of_ofParams`).
-/

namespace DerivedSeries.Span

open Text (IsDigits Numeral)

/-- A span as it is written: a number of samples, or an amount of a unit of time between quotes. -/
inductive Written : List Char → Span → Prop where
  | count {ds : List Char} {n : Int64} :
    IsDigits ds → n.toInt = Decimal.valueOf ds → Written ds (.samples n)
  | duration {ds : List Char} {unit : String} {length : Int} {n : Int64} :
    IsDigits ds → Decimal.valueOf ds ≤ Int64.maxValue.toInt → unitLength? unit = some length →
    n.toInt = Decimal.valueOf ds * length →
    Written ('\'' :: (ds ++ unit.toList ++ ['\''])) (.milliseconds n)

/-! ## Quoted durations -/

theorem eq_of_splitQuoted? {cs digits unit : List Char} (h : splitQuoted? cs = some (digits, unit)) :
    cs = '\'' :: (digits ++ unit ++ ['\'']) ∧ ∀ c ∈ digits, c.isDigit = true := by
  unfold splitQuoted? at h
  split at h
  · rename_i cs
    simp only [Option.ite_none_right_eq_some, Option.some.injEq, Prod.mk.injEq] at h
    obtain ⟨hquote, rfl, rfl⟩ := h
    refine ⟨?_, Text.isDigit_of_mem_takeWhile cs⟩
    rw [← hquote, List.append_assoc, List.takeWhile_append_dropWhile,
      List.takeWhile_append_dropWhile]
  · cases h

theorem splitQuoted?_of_unit {ds unit : List Char} (hds : ∀ c ∈ ds, c.isDigit = true)
    (hdigit : Text.NoDigitFirst (unit ++ ['\''])) (hquote : ∀ c ∈ unit, c ≠ '\'') :
    splitQuoted? ('\'' :: (ds ++ unit ++ ['\''])) = some (ds, unit) := by
  obtain ⟨htake, hdrop⟩ := Text.span_isDigit hds hdigit
  have hunit : ∀ c ∈ unit, (c != '\'') = true := by simpa using hquote
  unfold splitQuoted?
  rw [List.append_assoc]
  simp only [htake, hdrop, List.takeWhile_append_of_pos hunit, List.dropWhile_append_of_pos hunit]
  simp

theorem unitLength?_cases {unit : String} {length : Int} (h : unitLength? unit = some length) :
    unit = "sec" ∧ length = 1000 ∨ unit = "min" ∧ length = 60000 ∨
      unit = "hr" ∧ length = 3600000 := by
  unfold unitLength? at h
  split at h <;> simp_all

/-! ## The readers -/

variable {param : String} {ds : List Char} {n : Int64}

theorem readCount_eq_ok_iff : readCount param ds = .ok n ↔ Numeral ds n.toInt := by
  rw [readCount, mapError_eq_ok_iff, Text.readInt64_eq_ok_iff, String.toList_ofList]

theorem readDuration_eq_ok_iff {unit : List Char} (hds : ∀ c ∈ ds, c.isDigit = true) :
    readDuration param ds unit = .ok n ↔
      IsDigits ds ∧ Decimal.valueOf ds ≤ Int64.maxValue.toInt ∧
        ∃ length, unitLength? (String.ofList unit) = some length ∧
          n.toInt = Decimal.valueOf ds * length := by
  unfold readDuration
  by_cases hnil : ds.isEmpty
  · rw [if_pos hnil]
    exact iff_of_false nofun fun h => h.1.1 (List.isEmpty_iff.1 hnil)
  rw [if_neg hnil]
  show readCount param ds >>= _ = _ ↔ _
  simp only [bind_eq_ok_iff, readCount_eq_ok_iff, Text.numeral_iff_of_digits hds]
  constructor
  · rintro ⟨amount, ⟨hdigits, hamount⟩, h⟩
    have hle := amount.toInt_le
    cases hunit : unitLength? (String.ofList unit) with
    | none =>
      rw [hunit] at h
      cases h
    | some length =>
      simp only [hunit] at h
      cases hn : int64? (amount.toInt * length) with
      | none =>
        rw [hn] at h
        cases h
      | some m =>
        rw [hn] at h
        cases h
        exact ⟨hdigits, by omega, length, rfl, by rw [int64?_eq_some_iff.1 hn, hamount]⟩
  · rintro ⟨hdigits, hle, length, hunit, hn⟩
    have hmin : Int64.minValue.toInt ≤ (Decimal.valueOf ds : Int) :=
      Int.le_trans (by decide) (Int.natCast_nonneg _)
    have hamount := (Text.ofInt_eq_iff hmin hle).1 rfl
    refine ⟨_, ⟨hdigits, hamount⟩, ?_⟩
    simp only [hunit, hamount, int64?_eq_some_iff.2 hn]
    rfl

variable {cs : List Char} {span : Span}

theorem not_written_nil : ¬ Written [] span := by
  intro h
  cases h with
  | count hds => exact hds.1 rfl

theorem written_iff_of_digits (param : String) (hcs : ∀ c ∈ cs, c.isDigit = true) :
    Written cs span ↔ ∃ n, readCount param cs = .ok n ∧ samples n = span := by
  simp only [readCount_eq_ok_iff, Text.numeral_iff_of_digits hcs]
  constructor
  · intro h
    cases h with
    | count hds hn => exact ⟨_, ⟨hds, hn⟩, rfl⟩
    | duration => cases hcs '\'' (by simp)
  · rintro ⟨n, ⟨hds, hn⟩, rfl⟩
    exact .count hds hn

theorem written_iff_of_not_digits (param : String) (hcs : ¬ ∀ c ∈ cs, c.isDigit = true) :
    Written cs span ↔ ∃ ds unit, splitQuoted? cs = some (ds, unit) ∧
      ∃ n, readDuration param ds unit = .ok n ∧ milliseconds n = span := by
  constructor
  · intro h
    cases h with
    | count hds => exact absurd hds.2 hcs
    | @duration ds unit length n hds hle hunit hn =>
      have hsplit : splitQuoted? ('\'' :: (ds ++ unit.toList ++ ['\''])) = some (ds, unit.toList) := by
        rcases unitLength?_cases hunit with ⟨rfl, -⟩ | ⟨rfl, -⟩ | ⟨rfl, -⟩ <;>
          exact splitQuoted?_of_unit hds.2 (by simp [Text.NoDigitFirst]) (by simp)
      refine ⟨ds, unit.toList, hsplit, n, ?_, rfl⟩
      rw [readDuration_eq_ok_iff hds.2, String.ofList_toList]
      exact ⟨hds, hle, length, hunit, hn⟩
  · rintro ⟨ds, unit, hsplit, n, hread, rfl⟩
    obtain ⟨rfl, hds⟩ := eq_of_splitQuoted? hsplit
    obtain ⟨hdigits, hle, length, hunit, hn⟩ := (readDuration_eq_ok_iff hds).1 hread
    rw [← String.toList_ofList (l := unit)]
    exact .duration hdigits hle hunit hn

theorem readUnchecked_eq_ok_iff : readUnchecked param = .ok span ↔ Written param.toList span := by
  unfold readUnchecked
  by_cases hempty : param.isEmpty
  · have hparam : param.toList = [] := by simpa using hempty
    rw [if_pos hempty, hparam]
    exact iff_of_false nofun not_written_nil
  rw [if_neg hempty]
  by_cases hall : param.toList.all Char.isDigit
  · rw [if_pos hall, map_eq_ok_iff, written_iff_of_digits param (List.all_eq_true.1 hall)]
  · have hsome : ¬ ∀ c ∈ param.toList, c.isDigit = true := fun h => hall (List.all_eq_true.2 h)
    rw [if_neg hall, written_iff_of_not_digits param hsome]
    rcases splitQuoted? param.toList with _ | ⟨ds, unit⟩
    · simp
    · simp only [map_eq_ok_iff]
      constructor
      · intro h
        exact ⟨ds, unit, rfl, h⟩
      · rintro ⟨_, _, ⟨⟩, h⟩
        exact h

/-- The reader of spans accepts what writes a positive span. -/
theorem parse_eq_ok_iff {text : String} :
    parse text = .ok span ↔ Written (Text.trim text).toList span ∧ 0 < span.size.toInt := by
  have hpos : ∀ read : Span, 0 < read.size.toInt ↔ ¬ read.size ≤ 0 := by
    intro read
    rw [Int64.not_le, Int64.lt_iff_toInt_lt]
    rfl
  unfold parse
  simp only [bind_eq_ok_iff, readUnchecked_eq_ok_iff, hpos]
  constructor
  · rintro ⟨read, hread, h⟩
    by_cases hle : read.size ≤ 0
    · rw [if_pos hle] at h
      cases h
    · rw [if_neg hle] at h
      cases h
      exact ⟨hread, hle⟩
  · rintro ⟨hwritten, hle⟩
    exact ⟨span, hwritten, by rw [if_neg hle]; rfl⟩

/-! ## Refusals -/

theorem refuses_readCount (param : String) (ds : List Char) : Refuses (readCount param ds) :=
  .mapError fun _ => rfl

theorem refuses_readDuration (param : String) (ds unit : List Char) :
    Refuses (readDuration param ds unit) := by
  unfold readDuration
  by_cases hnil : ds.isEmpty
  · rw [if_pos hnil]
    exact .error rfl
  rw [if_neg hnil]
  refine (refuses_readCount param ds).bind fun amount => ?_
  cases unitLength? (String.ofList unit) with
  | none => exact .error rfl
  | some length =>
    dsimp only
    cases int64? (amount.toInt * length) with
    | none => exact .error rfl
    | some n => exact .ok n

theorem refuses_readUnchecked (param : String) : Refuses (readUnchecked param) := by
  unfold readUnchecked
  split
  · exact .error rfl
  · split
    · exact (refuses_readCount _ _).map
    · split
      · exact (refuses_readDuration _ _ _).map
      · exact .error rfl

theorem refuses_parse (text : String) : Refuses (parse text) := by
  refine (refuses_readUnchecked _).bind fun span => ?_
  split
  · exact .error rfl
  · exact .ok span

/-! ## The grammar -/

/-- The units of time and how many milliseconds each has. -/
def units : List (String × Int) :=
  [("sec", 1000), ("min", 60000), ("hr", 3600000)]

theorem unitLength?_eq_some_iff {unit : String} {length : Int} :
    unitLength? unit = some length ↔ (unit, length) ∈ units := by
  constructor
  · intro h
    rcases unitLength?_cases h with ⟨rfl, rfl⟩ | ⟨rfl, rfl⟩ | ⟨rfl, rfl⟩ <;> decide
  · intro h
    simp only [units, List.mem_cons, Prod.mk.injEq, List.not_mem_nil, or_false] at h
    rcases h with ⟨rfl, rfl⟩ | ⟨rfl, rfl⟩ | ⟨rfl, rfl⟩ <;> rfl

/-- Digits that denote a positive number of samples. -/
def IsCount (cs : List Char) (n : Int64) : Prop :=
  IsDigits cs ∧ n.toInt = Decimal.valueOf cs ∧ 1 ≤ n.toInt

/-- Digits that denote a positive word, and a unit of time, between quotes. They come to a number of
milliseconds, which is a word, too. -/
def IsDuration (cs : List Char) (n : Int64) : Prop :=
  ∃ ds unit length, cs = '\'' :: (ds ++ unit.toList ++ ['\'']) ∧ IsDigits ds ∧ (unit, length) ∈ units ∧
    1 ≤ Decimal.valueOf ds ∧ Decimal.valueOf ds ≤ Int64.maxValue.toInt ∧
    n.toInt = Decimal.valueOf ds * length

theorem length_pos_of_mem_units {unit : String} {length : Int} (h : (unit, length) ∈ units) :
    0 < length := by
  rcases unitLength?_cases (unitLength?_eq_some_iff.2 h) with ⟨-, rfl⟩ | ⟨-, rfl⟩ | ⟨-, rfl⟩ <;> decide

theorem written_samples_iff : Written cs (.samples n) ∧ 0 < n.toInt ↔ IsCount cs n := by
  constructor
  · rintro ⟨⟨hds, hn⟩, hpos⟩
    exact ⟨hds, hn, hpos⟩
  · rintro ⟨hds, hn, hpos⟩
    exact ⟨.count hds hn, hpos⟩

theorem written_milliseconds_iff : Written cs (.milliseconds n) ∧ 0 < n.toInt ↔ IsDuration cs n := by
  constructor
  · rintro ⟨hwritten, hpos⟩
    cases hwritten with
    | @duration ds unit length n hds hle hunit hn =>
      have hmem := unitLength?_eq_some_iff.1 hunit
      rw [hn] at hpos
      have hvalue : Decimal.valueOf ds ≠ 0 := by
        intro hzero
        simp [hzero] at hpos
      exact ⟨ds, unit, length, rfl, hds, hmem, by omega, hle, hn⟩
  · rintro ⟨ds, unit, length, rfl, hds, hmem, hvalue, hle, hn⟩
    refine ⟨.duration hds hle (unitLength?_eq_some_iff.2 hmem) hn, ?_⟩
    rw [hn]
    exact Int.mul_pos (by omega) (length_pos_of_mem_units hmem)

/-- Without the blanks around it, a text that is read is a count or a duration, and it is read as that. Every
other text is refused for an invalid argument. -/
theorem parse_grammar (text : String) :
    (∀ n, parse text = .ok (.samples n) ↔ IsCount (Text.trim text).toList n) ∧
    (∀ n, parse text = .ok (.milliseconds n) ↔ IsDuration (Text.trim text).toList n) ∧
    ((∃ e, parse text = .error e ∧ e.kind = .invalidArgument) ↔
      ∀ n, ¬ IsCount (Text.trim text).toList n ∧ ¬ IsDuration (Text.trim text).toList n) := by
  have hcount : ∀ n, parse text = .ok (.samples n) ↔ IsCount (Text.trim text).toList n := fun n =>
    parse_eq_ok_iff.trans written_samples_iff
  have hduration : ∀ n, parse text = .ok (.milliseconds n) ↔ IsDuration (Text.trim text).toList n :=
    fun n => parse_eq_ok_iff.trans written_milliseconds_iff
  refine ⟨hcount, hduration, ?_⟩
  simp only [← hcount, ← hduration]
  constructor
  · rintro ⟨e, he, -⟩ n
    rw [he]
    exact ⟨nofun, nofun⟩
  · intro hnone
    cases hparse : parse text with
    | error e => exact ⟨e, rfl, refuses_parse text e hparse⟩
    | ok span =>
      cases span with
      | samples n => exact absurd hparse (hnone n).1
      | milliseconds n => exact absurd hparse (hnone n).2

/-! ## Legal spans -/

/-- A span that can be written: positive, and if a duration shorter than the greatest word. -/
def Legal : Span → Prop
  | samples n => 0 < n.toInt
  | milliseconds n => 0 < n.toInt ∧ n.toInt < Int64.maxValue.toInt

theorem dvd_of_unitLength? {unit : String} {length : Int} (h : unitLength? unit = some length) :
    1000 ∣ length := by
  rcases unitLength?_cases h with ⟨-, rfl⟩ | ⟨-, rfl⟩ | ⟨-, rfl⟩ <;> decide

theorem legal_of_parse {text : String} {span : Span} (h : parse text = .ok span) : span.Legal := by
  obtain ⟨hwritten, hpos⟩ := parse_eq_ok_iff.1 h
  generalize (Text.trim text).toList = cs at hwritten
  cases hwritten with
  | count => exact hpos
  | @duration ds unit length n hds hle hunit hn =>
    have hdvd : 1000 ∣ n.toInt := by
      rw [hn]
      exact Int.dvd_mul_of_dvd_right (dvd_of_unitLength? hunit)
    have hmax := n.toInt_le
    refine ⟨hpos, ?_⟩
    rw [Int64.toInt_maxValue] at hmax ⊢
    omega

theorem legal_of_ofParams {params : List String} {span : Span} (h : ofParams params = .ok span) :
    span.Legal := by
  cases params with
  | nil => cases h
  | cons text rest => exact legal_of_parse h

end DerivedSeries.Span
