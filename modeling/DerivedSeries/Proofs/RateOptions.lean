import DerivedSeries.RateOptions
import DerivedSeries.Proofs.Text.Digits

/-!
# Written rate options

Options are written as a truth value and two integers between braces, with gaps around each part or not
(`Written`). These texts, once the blanks around them are gone, are what the reader of options accepts,
and rendered options are one of them (`parse_written`). Each part is read off the front of a text in one
way only (`Reads`), so the readers of the parts can be put together.
-/

namespace DerivedSeries.RateOptions

open Text (IsDigits NoDigitFirst)

/-! ## The grammar -/

/-- Spaces, tabs and line ends, or none. -/
def IsGaps (cs : List Char) : Prop :=
  ∀ c ∈ cs, isGap c = true

/-- Which texts write a value. -/
abbrev Grammar (α : Type) := List Char → α → Prop

inductive WrittenBool : Grammar Bool where
  | yes : WrittenBool ['t', 'r', 'u', 'e'] true
  | no : WrittenBool ['f', 'a', 'l', 's', 'e'] false

/-- Digits, after a minus sign or not, that denote a word. -/
inductive WrittenInt : Grammar Int64 where
  | unsigned {ds : List Char} {v : Int64} :
    IsDigits ds → v.toInt = Decimal.valueOf ds → WrittenInt ds v
  | minus {ds : List Char} {v : Int64} :
    IsDigits ds → v.toInt = -(Decimal.valueOf ds : Int) → WrittenInt ('-' :: ds) v

/-- A part with gaps around it. -/
inductive Spaced {α : Type} (G : Grammar α) : Grammar α where
  | around {before text after : List Char} {a : α} :
    IsGaps before → G text a → IsGaps after → Spaced G (before ++ text ++ after) a

inductive Written : Grammar RateOptions where
  | braced {counter ceiling reset : List Char} {r : RateOptions} :
    Spaced WrittenBool counter r.counter → Spaced WrittenInt ceiling r.counterMax →
    Spaced WrittenInt reset r.resetValue →
    Written ('\x7b' :: (counter ++ ',' :: (ceiling ++ ',' :: (reset ++ ['\x7d'])))) r

/-! ## The parts -/

/-- A reader takes what a grammar writes off the front of a text that does not go on with a digit.
Nothing that the grammar writes begins with a gap. -/
structure Reads {α : Type} (p : Part α) (G : Grammar α) : Prop where
  sound : ∀ {cs rest : List Char} {a : α}, p cs = .ok (a, rest) →
    ∃ text, cs = text ++ rest ∧ G text a
  complete : ∀ {text : List Char} {a : α}, G text a → ∀ {rest : List Char}, NoDigitFirst rest →
    p (text ++ rest) = .ok (a, rest)
  front : ∀ {text : List Char} {a : α}, G text a → ∃ c cs, text = c :: cs ∧ isGap c = false

theorem reads_bool : Reads readBool WrittenBool where
  sound := by
    intro cs rest b h
    unfold readBool at h
    split at h
    · cases h
      exact ⟨_, rfl, .yes⟩
    · cases h
      exact ⟨_, rfl, .no⟩
    · cases h
  complete := by
    intro text b h rest _
    cases h <;> rfl
  front := by
    intro text b h
    cases h <;> exact ⟨_, _, rfl, rfl⟩

theorem isDigit_of_isGap {c : Char} (h : isGap c = true) : c.isDigit = false := by
  simp only [isGap, Bool.or_eq_true, beq_iff_eq] at h
  obtain ((rfl | rfl) | rfl) | rfl := h <;> rfl

/-- A minus sign or nothing. -/
def IsSign (sign : List Char) : Prop :=
  sign = [] ∨ sign = ['-']

theorem splitMinus_spec (cs : List Char) :
    IsSign (splitMinus cs).1 ∧ cs = (splitMinus cs).1 ++ (splitMinus cs).2 := by
  unfold splitMinus
  split
  · exact ⟨.inr rfl, rfl⟩
  · exact ⟨.inl rfl, rfl⟩

theorem splitMinus_append {sign ds : List Char} (hsign : IsSign sign) (hds : IsDigits ds)
    (rest : List Char) : splitMinus (sign ++ ds ++ rest) = (sign, ds ++ rest) := by
  obtain ⟨c, cs, rfl⟩ := List.exists_cons_of_ne_nil hds.1
  have hne : c ≠ '-' := by
    rintro rfl
    cases hds.2 '-' (by simp)
  rcases hsign with rfl | rfl
  · show splitMinus (c :: (cs ++ rest)) = _
    unfold splitMinus
    simp [hne]
  · rfl

theorem writtenInt_iff {sign ds : List Char} {v : Int64} (hsign : IsSign sign)
    (hds : ∀ c ∈ ds, c.isDigit = true) :
    WrittenInt (sign ++ ds) v ↔ Text.Numeral (sign ++ ds) v.toInt := by
  rcases hsign with rfl | rfl
  · rw [List.nil_append, Text.numeral_iff_of_digits hds]
    constructor
    · intro h
      cases h with
      | unsigned h hv => exact ⟨h, hv⟩
      | minus => cases hds '-' (by simp)
    · rintro ⟨h, hv⟩
      exact .unsigned h hv
  · rw [List.singleton_append, Text.numeral_minus_iff]
    constructor
    · intro h
      cases h with
      | unsigned h => cases h.2 '-' (by simp)
      | minus h hv => exact ⟨h, hv⟩
    · rintro ⟨h, hv⟩
      exact .minus h hv

theorem WrittenInt.exists_digits {text : List Char} {v : Int64} (h : WrittenInt text v) :
    ∃ sign ds, IsSign sign ∧ IsDigits ds ∧ text = sign ++ ds := by
  cases h with
  | unsigned h => exact ⟨[], _, .inl rfl, h, rfl⟩
  | minus h => exact ⟨['-'], _, .inr rfl, h, rfl⟩

theorem readInt64_eq_ok_iff_writtenInt {sign ds : List Char} {v : Int64} (hsign : IsSign sign)
    (hds : ∀ c ∈ ds, c.isDigit = true) :
    Text.readInt64 (String.ofList (sign ++ ds)) = .ok v ↔ WrittenInt (sign ++ ds) v := by
  rw [Text.readInt64_eq_ok_iff, String.toList_ofList, writtenInt_iff hsign hds]

theorem reads_int : Reads readInt WrittenInt where
  sound := by
    intro cs rest v h
    obtain ⟨hsign, hcs⟩ := splitMinus_spec cs
    unfold readInt at h
    generalize splitMinus cs = split at *
    obtain ⟨sign, ds⟩ := split
    dsimp only at *
    split at h
    · cases h
    · split at h
      · rename_i hread
        cases h
        refine ⟨sign ++ ds.takeWhile Char.isDigit, ?_, ?_⟩
        · rw [List.append_assoc, List.takeWhile_append_dropWhile, hcs]
        · exact (readInt64_eq_ok_iff_writtenInt hsign (Text.isDigit_of_mem_takeWhile ds)).1 hread
      · cases h
  complete := by
    intro text v h rest hrest
    obtain ⟨sign, ds, hsign, hds, rfl⟩ := h.exists_digits
    obtain ⟨htake, hdrop⟩ := Text.span_isDigit hds.2 hrest
    have hread := (readInt64_eq_ok_iff_writtenInt hsign hds.2).2 h
    have hne : ds.isEmpty = false := by simpa using hds.1
    unfold readInt
    simp only [splitMinus_append hsign hds, htake, hdrop, hne, hread]
    rfl
  front := by
    intro text v h
    cases h with
    | unsigned h =>
      obtain ⟨c, cs, rfl⟩ := List.exists_cons_of_ne_nil h.1
      refine ⟨c, cs, rfl, Bool.eq_false_iff.2 fun hgap => ?_⟩
      have hdigit := h.2 c (by simp)
      rw [isDigit_of_isGap hgap] at hdigit
      cases hdigit
    | minus => exact ⟨_, _, rfl, rfl⟩

/-! ## Parts between gaps -/

theorem isGaps_takeWhile (cs : List Char) : IsGaps (cs.takeWhile isGap) :=
  List.all_eq_true.1 List.all_takeWhile

theorem skipGap_append {gaps cs : List Char} {c : Char} (hgaps : IsGaps gaps)
    (hc : isGap c = false) : skipGap (gaps ++ c :: cs) = c :: cs := by
  rw [skipGap, List.dropWhile_append_of_pos hgaps, List.dropWhile_cons_of_neg (by simp [hc])]

theorem noDigitFirst_append {gaps cs : List Char} {c : Char} (hgaps : IsGaps gaps)
    (hc : c.isDigit = false) : NoDigitFirst (gaps ++ c :: cs) := by
  cases gaps with
  | nil =>
    rintro d ⟨⟩
    exact hc
  | cons g gaps =>
    rintro d ⟨⟩
    exact isDigit_of_isGap (hgaps g (by simp))

/-- What closes a part: neither a gap nor a digit. -/
def Closes (c : Char) : Prop :=
  isGap c = false ∧ c.isDigit = false

variable {α : Type} {p : Part α} {G : Grammar α} {cs rest : List Char}

theorem padded_eq_ok_iff (h : Reads p G) {close : Char} (hclose : Closes close) {a : α} :
    padded p cs = .ok (a, close :: rest) ↔
      ∃ text, cs = text ++ close :: rest ∧ Spaced G text a := by
  unfold padded
  simp only [bind_eq_ok_iff, Prod.exists, pure, Except.pure, Except.ok.injEq, Prod.mk.injEq]
  constructor
  · rintro ⟨b, left, hread, rfl, hskip⟩
    obtain ⟨text, hcs, htext⟩ := h.sound hread
    refine ⟨cs.takeWhile isGap ++ text ++ left.takeWhile isGap, ?_,
      .around (isGaps_takeWhile cs) htext (isGaps_takeWhile left)⟩
    calc cs = cs.takeWhile isGap ++ skipGap cs := List.takeWhile_append_dropWhile.symm
      _ = cs.takeWhile isGap ++ (text ++ (left.takeWhile isGap ++ skipGap left)) := by
        rw [hcs, skipGap, List.takeWhile_append_dropWhile]
      _ = cs.takeWhile isGap ++ text ++ left.takeWhile isGap ++ close :: rest := by
        simp only [hskip, List.append_assoc]
  · rintro ⟨_, rfl, htext⟩
    cases htext with
    | @around before text after _ hbefore htext hafter =>
      obtain ⟨c, text, rfl, hc⟩ := h.front htext
      refine ⟨a, after ++ close :: rest, ?_, rfl, skipGap_append hafter hclose.1⟩
      have hfront : skipGap (before ++ c :: text ++ after ++ close :: rest) =
          c :: text ++ (after ++ close :: rest) := by
        rw [List.append_assoc, List.append_assoc]
        exact skipGap_append hbefore hc
      rw [hfront]
      exact h.complete htext (noDigitFirst_append hafter hclose.2)

/-! ## The whole text -/

theorem expectChar_eq_ok_iff {c : Char} : expectChar c cs = .ok rest ↔ cs = c :: rest := by
  unfold expectChar
  split
  · rename_i d ds
    by_cases hd : d = c
    · simp [hd]
    · simp [hd]
  · simp

theorem readBraced_eq_ok_iff {r : RateOptions} :
    readBraced cs = .ok (r, rest) ↔ ∃ text, cs = text ++ rest ∧ Written text r := by
  have hcomma : Closes ',' := ⟨rfl, rfl⟩
  have hbrace : Closes '\x7d' := ⟨rfl, rfl⟩
  unfold readBraced
  simp only [bind_eq_ok_iff, Prod.exists, expectChar_eq_ok_iff, pure, Except.pure, Except.ok.injEq,
    Prod.mk.injEq]
  constructor
  · rintro ⟨cs₁, rfl, counter, _, h₁, cs₂, rfl, ceiling, _, h₂, cs₃, rfl, reset, _, h₃, cs₄, rfl,
      rfl, rfl⟩
    obtain ⟨text₁, rfl, hcounter⟩ := (padded_eq_ok_iff reads_bool hcomma).1 h₁
    obtain ⟨text₂, rfl, hceiling⟩ := (padded_eq_ok_iff reads_int hcomma).1 h₂
    obtain ⟨text₃, rfl, hreset⟩ := (padded_eq_ok_iff reads_int hbrace).1 h₃
    exact ⟨_, by simp, .braced hcounter hceiling hreset⟩
  · rintro ⟨text, rfl, h⟩
    cases h with
    | @braced counter ceiling reset _ hcounter hceiling hreset =>
      refine ⟨_, rfl, r.counter, _, (padded_eq_ok_iff reads_bool hcomma).2 ⟨counter, ?_, hcounter⟩,
        _, rfl, r.counterMax, _, (padded_eq_ok_iff reads_int hcomma).2 ⟨ceiling, rfl, hceiling⟩,
        _, rfl, r.resetValue, _, (padded_eq_ok_iff reads_int hbrace).2 ⟨reset, rfl, hreset⟩,
        _, rfl, rfl, rfl⟩
      simp

theorem readAll_eq_ok_iff {r : RateOptions} : readAll cs = .ok r ↔ Written cs r := by
  unfold readAll
  simp only [bind_eq_ok_iff, Prod.exists, readBraced_eq_ok_iff]
  constructor
  · rintro ⟨read, left, ⟨text, rfl, h⟩, hend⟩
    cases left with
    | nil =>
      cases hend
      rwa [List.append_nil]
    | cons c left => cases hend
  · intro h
    exact ⟨r, [], ⟨cs, (List.append_nil cs).symm, h⟩, rfl⟩

/-! ## Rendering -/

theorem writtenInt_toString (v : Int64) : WrittenInt (toString v).toList v := by
  have hnumeral := Text.numeral_toString v
  have hdigits := Text.isDigits_digitChars v.toInt.natAbs
  rw [Text.toList_toString] at hnumeral ⊢
  refine (writtenInt_iff ?_ hdigits.2).2 hnumeral
  split
  · exact .inr rfl
  · exact .inl rfl

theorem writtenBool_toString (b : Bool) : WrittenBool (toString b).toList b := by
  cases b with
  | true => exact .yes
  | false => exact .no

/-- A part without gaps. -/
theorem Spaced.close {text : List Char} {a : α} (h : G text a) : Spaced G text a := by
  have hnone : IsGaps [] := nofun
  simpa using Spaced.around hnone h hnone

theorem written_render (r : RateOptions) : Written r.render.toList r := by
  have h := Written.braced (r := r) (.close (writtenBool_toString r.counter))
    (.close (writtenInt_toString r.counterMax)) (.close (writtenInt_toString r.resetValue))
  simpa [render] using h

theorem trim_render (r : RateOptions) : Text.trim r.render = r.render := by
  have htext : r.render.toList = '\x7b' :: (toString r.counter).toList ++ ',' ::
      (toString r.counterMax).toList ++ ',' :: (toString r.resetValue).toList ++ ['\x7d'] := by
    simp [render]
  have hstrip : Text.stripEnds Text.isBlank r.render.toList = r.render.toList := by
    apply Text.stripEnds_eq_self
    · rw [htext]
      rintro c ⟨⟩
      rfl
    · rw [htext, List.getLast?_append]
      rintro c ⟨⟩
      rfl
  rw [Text.trim, hstrip, String.ofList_toList]

/-- Options are read off a text just if the text, without the blanks around it, writes them; every other
text is refused as an invalid argument. So rendered options are read as they were. -/
theorem parse_written :
    (∀ (s : String) (r : RateOptions), parse s = .ok r ↔ Written (Text.trim s).toList r) ∧
    (∀ s : String, Refuses (parse s)) ∧
    ∀ r : RateOptions, parse r.render = .ok r := by
  have hparse (s : String) (r : RateOptions) :
      parse s = .ok r ↔ Written (Text.trim s).toList r := by
    rw [parse, mapError_eq_ok_iff, readAll_eq_ok_iff]
  refine ⟨hparse, fun s => .mapError fun _ => rfl, fun r => ?_⟩
  rw [hparse, trim_render]
  exact written_render r

end DerivedSeries.RateOptions
