import DerivedSeries.Toml.Document
import DerivedSeries.Proofs.Text.Digits

/-!
# Documents of plain lines

A line gives a key a value. Where the key needs no quotes and the text is read as the value (`Writes`), the
line adds one entry to the table that is open (`line_eq`), and so a document of such lines, with a key
of its own on each, is read as their entries in order (`parse_lines`). Truth values, strings without escapes
and whole numbers are texts of this kind.
-/

namespace DerivedSeries.Toml

open Toml.Text (skipGap isBareKeyChar isPlain)
open DerivedSeries.Text (IsDigits NoDigitFirst Unpadded)

/-! ## Values -/

/-- At the end of a line the text is read as the value. -/
def Writes (text : List Char) (v : Value) : Prop :=
  ∀ rest, value depthLimit (skipGap (text ++ '\n' :: rest)) = some (v, '\n' :: rest)

theorem writes_boolean (b : Bool) : Writes (if b then "true" else "false").toList (.boolean b) := by
  intro rest
  cases b <;> rfl

/-! ### Strings -/

/-- What stands for itself between double quotes. -/
def IsVerbatim (c : Char) : Prop :=
  isPlain c = true ∧ c ≠ '"' ∧ c ≠ '\\'

instance (c : Char) : Decidable (IsVerbatim c) :=
  inferInstanceAs (Decidable (_ ∧ _))

theorem quoted_verbatim {c : Char} (h : IsVerbatim c) (cs : List Char) :
    Text.quoted (c :: cs) = Text.prepend c (Text.quoted cs) := by
  obtain ⟨hplain, hquote, hslash⟩ := h
  rw [Text.quoted.eq_def]
  split <;> simp_all

theorem quoted_append {cs : List Char} (h : ∀ c ∈ cs, IsVerbatim c) (rest : List Char) :
    Text.quoted (cs ++ '"' :: rest) = some (cs, rest) := by
  induction cs with
  | nil => rfl
  | cons c cs ih =>
    obtain ⟨hc, hcs⟩ := List.forall_mem_cons.1 h
    rw [List.cons_append, quoted_verbatim hc, ih hcs]
    rfl

theorem string_append {cs : List Char} (h : ∀ c ∈ cs, IsVerbatim c) (rest : List Char) :
    Text.string ('"' :: (cs ++ '"' :: '\n' :: rest)) = some (cs, '\n' :: rest) := by
  cases cs with
  | nil => rfl
  | cons c cs =>
    -- no tripled quote
    have hc := (h c (by simp)).2.1
    have hshort : Text.string ('"' :: (c :: cs ++ '"' :: '\n' :: rest)) =
        Text.quoted (c :: cs ++ '"' :: '\n' :: rest) := by
      rw [Text.string.eq_def]
      split <;> simp_all [Text.shortString]
    rw [hshort, quoted_append h]

theorem writes_string {cs : List Char} (h : ∀ c ∈ cs, IsVerbatim c) :
    Writes ('"' :: (cs ++ ['"'])) (.string (String.ofList cs)) := by
  intro rest
  have hvalue : value depthLimit ('"' :: (cs ++ '"' :: '\n' :: rest)) =
      (Text.string ('"' :: (cs ++ '"' :: '\n' :: rest))).map
        fun r => (.string (String.ofList r.1), r.2) := rfl
  have htext : skipGap ('"' :: (cs ++ ['"']) ++ '\n' :: rest) = '"' :: (cs ++ '"' :: '\n' :: rest) := by
    rw [List.cons_append, List.append_assoc]
    rfl
  rw [htext, hvalue, string_append h]
  rfl

/-! ### Whole numbers -/

section
variable {ds : List Char}

theorem date?_of_digits (h : ∀ c ∈ ds, c.isDigit = true) : Scalar.date? ds = none := by
  unfold Scalar.date?
  split
  · cases h '-' (by simp)
  · rfl

theorem time?_of_digits (h : ∀ c ∈ ds, c.isDigit = true) : Scalar.time? ds = none := by
  unfold Scalar.time?
  split
  · cases h ':' (by simp)
  · rfl

theorem ungroup_digits (h : IsDigits ds) : Scalar.ungroup Char.isDigit ds = some ds := by
  obtain ⟨hne, hds⟩ := h
  induction ds with
  | nil => exact absurd rfl hne
  | cons c cs ih =>
    obtain ⟨hc, hcs⟩ := List.forall_mem_cons.1 hds
    cases cs with
    | nil => simp [Scalar.ungroup, hc]
    | cons d cs =>
      have hd : d ≠ '_' := DerivedSeries.Text.ne_of_isDigit (hcs d (by simp)) rfl
      rw [Scalar.ungroup, if_pos hc, ih (by simp) hcs]
      · rfl
      · exact nofun
      · exact fun _ hcons => hd (List.cons.inj hcons).1

theorem decimalDigits_eq (h : IsDigits ds) (hpadded : Unpadded ds) :
    Scalar.decimalDigits ds = some ds := by
  unfold Scalar.decimalDigits
  rw [ungroup_digits h]
  show (if _ then none else some ds) = _
  rw [if_neg]
  intro hzero
  simp only [Bool.and_eq_true, decide_eq_true_eq, beq_iff_eq] at hzero
  rw [hpadded hzero.2] at hzero
  exact absurd hzero.1 (by decide)

theorem valueIn_ten (h : ∀ c ∈ ds, c.isDigit = true) :
    Scalar.valueIn 10 ds = (Decimal.valueOf ds : Int) := by
  have hfold : ∀ acc : Nat,
      ds.foldl (fun (n : Int) c => n * (10 : Nat) + Scalar.digitValue c) acc =
        (ds.foldl (fun n c => n * 10 + (c.toNat - '0'.toNat)) acc : Nat) := by
    induction ds with
    | nil => exact fun _ => rfl
    | cons c cs ih =>
      obtain ⟨hc, hcs⟩ := List.forall_mem_cons.1 h
      intro acc
      have hstep : (acc : Int) * (10 : Nat) + Scalar.digitValue c =
          (acc * 10 + (c.toNat - '0'.toNat) : Nat) := by
        rw [Scalar.digitValue, if_pos hc]
        rfl
      rw [List.foldl_cons, List.foldl_cons, hstep]
      exact ih hcs _
  exact hfold 0

theorem splitSign_of_digits (h : IsDigits ds) : Decimal.splitSign ds = (false, ds) := by
  unfold Decimal.splitSign
  split
  · cases h.2 '-' (by simp)
  · cases h.2 '+' (by simp)
  · rfl

theorem integer?_of_digits {v : Int64} (h : IsDigits ds) (hpadded : Unpadded ds)
    (hv : v.toInt = Decimal.valueOf ds) : Scalar.integer? ds = some (.integer v) := by
  unfold Scalar.integer?
  split
  · cases h.2 'x' (by simp)
  · cases h.2 'o' (by simp)
  · cases h.2 'b' (by simp)
  · rw [splitSign_of_digits h]
    simp only [decimalDigits_eq h hpadded, Option.bind_some, valueIn_ten h.2, ← hv, Scalar.ofInt?,
      Bool.false_eq_true, if_false, int64?_toInt, Option.map_some]

theorem ofWord?_of_digits {v : Int64} (h : IsDigits ds) (hpadded : Unpadded ds)
    (hv : v.toInt = Decimal.valueOf ds) : Scalar.ofWord? ds = some (.integer v) := by
  have htime : Scalar.isDateTime ds = false := by
    rw [Scalar.isDateTime, date?_of_digits h.2, time?_of_digits h.2]
    rfl
  unfold Scalar.ofWord?
  split
  · cases h.2 't' (by simp)
  · cases h.2 'f' (by simp)
  · rw [htime, integer?_of_digits h hpadded hv]
    rfl

theorem read_digits {v : Int64} (h : IsDigits ds) (hpadded : Unpadded ds)
    (hv : v.toInt = Decimal.valueOf ds) (rest : List Char) :
    Scalar.read (ds ++ '\n' :: rest) = some (.integer v, '\n' :: rest) := by
  have hword : ∀ c ∈ ds, Scalar.isWordChar c = true := by
    intro c hc
    simp [Scalar.isWordChar, Char.isAlphanum, h.2 c hc]
  have hend : ∀ c ∈ ('\n' :: rest).head?, Scalar.isWordChar c = false := by
    rintro c ⟨⟩
    rfl
  obtain ⟨htake, hdrop⟩ := DerivedSeries.Text.span_append hword hend
  unfold Scalar.read
  simp only [htake, hdrop, date?_of_digits h.2, ofWord?_of_digits h hpadded hv]
  rfl

theorem isGap_of_isDigit {c : Char} (hc : c.isDigit = true) : Text.isGap c = false := by
  have hspace := DerivedSeries.Text.ne_of_isDigit hc (d := ' ') rfl
  have htab := DerivedSeries.Text.ne_of_isDigit hc (d := '\t') rfl
  simp [Text.isGap, hspace, htab]

/-- A value that begins with a digit is neither a list nor a table nor a string. -/
theorem value_of_isDigit {c : Char} (hc : c.isDigit = true) (cs : List Char) :
    value depthLimit (c :: cs) = Scalar.read (c :: cs) := by
  unfold depthLimit value value.scalar
  split
  · rename_i heq
    cases heq
    cases hc
  · rename_i heq
    cases heq
    cases hc
  · split
    · rename_i heq
      cases heq
      cases hc
    · rename_i heq
      cases heq
      cases hc
    · rfl

theorem writes_integer {v : Int64} (h : IsDigits ds) (hpadded : Unpadded ds)
    (hv : v.toInt = Decimal.valueOf ds) : Writes ds (.integer v) := by
  intro rest
  have hread := read_digits h hpadded hv rest
  obtain ⟨c, cs, rfl⟩ := List.exists_cons_of_ne_nil h.1
  have hc := h.2 c (by simp)
  have hgap := isGap_of_isDigit hc
  rw [List.cons_append, skipGap, List.dropWhile_cons_of_neg (by simp [hgap]), value_of_isDigit hc]
  exact hread

end

/-! ## Keys -/

/-- A key that needs no quotes. -/
def IsBareKey (cs : List Char) : Prop :=
  cs ≠ [] ∧ ∀ c ∈ cs, isBareKeyChar c = true

instance (cs : List Char) : Decidable (IsBareKey cs) :=
  decidable_of_iff (cs ≠ [] ∧ cs.all isBareKeyChar = true) (by rw [List.all_eq_true]; rfl)

theorem ne_of_isBareKeyChar {c d : Char} (hc : isBareKeyChar c = true) (hd : isBareKeyChar d = false) :
    c ≠ d := by
  rintro rfl
  rw [hc] at hd
  cases hd

theorem skipGap_bare {c : Char} (hc : isBareKeyChar c = true) (cs : List Char) :
    skipGap (c :: cs) = c :: cs := by
  have hspace := ne_of_isBareKeyChar hc (d := ' ') rfl
  have htab := ne_of_isBareKeyChar hc (d := '\t') rfl
  rw [skipGap, List.dropWhile_cons_of_neg (by simp [Text.isGap, hspace, htab])]

theorem shortString_bare {c : Char} (hc : isBareKeyChar c = true) (cs : List Char) :
    Text.shortString (c :: cs) = none := by
  unfold Text.shortString
  split
  · rename_i heq
    cases heq
    cases hc
  · rename_i heq
    cases heq
    cases hc
  · rfl

theorem key_append {k : List Char} (hk : IsBareKey k) (rest : List Char) :
    Text.key (k ++ ' ' :: '=' :: rest) = some ([String.ofList k], '=' :: rest) := by
  obtain ⟨hne, hchars⟩ := hk
  have hend : ∀ c ∈ (' ' :: '=' :: rest).head?, Text.isBareKeyChar c = false := by
    rintro c ⟨⟩
    rfl
  obtain ⟨htake, hdrop⟩ := DerivedSeries.Text.span_append hchars hend
  obtain ⟨c, cs, rfl⟩ := List.exists_cons_of_ne_nil hne
  have hc := hchars c (by simp)
  have hsimple : Text.simpleKey (c :: cs ++ ' ' :: '=' :: rest) =
      some (String.ofList (c :: cs), ' ' :: '=' :: rest) := by
    unfold Text.simpleKey
    rw [List.cons_append, shortString_bare hc, ← List.cons_append]
    simp only [htake, hdrop]
    rfl
  unfold Text.key Text.keyLimit Text.keyParts
  rw [List.cons_append, skipGap_bare hc, ← List.cons_append, hsimple]
  rfl

/-! ## Lines -/

/-- A line that gives a key a value, and the text of the value. -/
structure Line where
  key : String
  text : List Char
  value : Value

namespace Line

def chars (l : Line) : List Char :=
  l.key.toList ++ ' ' :: '=' :: ' ' :: (l.text ++ ['\n'])

def entry (l : Line) : String × Value := (l.key, l.value)

/-- The key needs no quotes, and the text is read as the value. -/
structure Plain (l : Line) : Prop where
  key : IsBareKey l.key.toList
  text : Writes l.text l.value

end Line

section
variable {l : Line} {es : Entries} {fuel : Nat}

theorem binding_eq (hl : l.Plain) (rest : List Char) :
    binding (value depthLimit) (l.key.toList ++ ' ' :: '=' :: ' ' :: (l.text ++ '\n' :: rest)) =
      some (([], l.key, l.value), '\n' :: rest) := by
  have hvalue : value depthLimit (skipGap (' ' :: (l.text ++ '\n' :: rest))) =
      some (l.value, '\n' :: rest) := hl.text rest
  unfold binding
  rw [key_append hl.key]
  simp [hvalue, String.ofList_toList]

theorem set_eq (hnew : es.get? l.key = none) :
    Progress.set { entries := es } [] l.key l.value = some { entries := es ++ [l.entry] } := by
  simp [Progress.set, Entries.modifyAt, Entries.setDotted, Entries.insertNew, hnew, Line.entry]

theorem line_bare {c : Char} (hc : isBareKeyChar c = true) (p : Progress) (cs : List Char) :
    line p (c :: cs) = (binding (value depthLimit) (c :: cs)).bind fun b =>
      (p.set b.1.1 b.1.2.1 b.1.2.2).bind fun q => some (q, b.2) := by
  unfold line
  split
  · rename_i heq
    cases heq
    cases hc
  · rename_i heq
    cases heq
    cases hc
  · rfl

theorem lines_bare {c : Char} (hc : isBareKeyChar c = true) (p : Progress) (cs : List Char) :
    lines (fuel + 1) p (c :: cs) = (line p (c :: cs)).bind fun q =>
      (restOfLine q.2).bind fun rest => lines fuel q.1 rest := by
  rw [lines]
  simp only [skipGap_bare hc]
  split
  · rename_i heq
    cases heq
  · rename_i heq
    cases heq
    cases hc
  · rename_i heq
    cases heq
    cases hc
  · rename_i heq
    cases heq
    cases hc
  · rfl

/-- A line adds its entry to the table that is open. -/
theorem lines_cons (hl : l.Plain) (hnew : es.get? l.key = none) (rest : List Char) :
    lines (fuel + 1) { entries := es } (l.chars ++ rest) =
      lines fuel { entries := es ++ [l.entry] } rest := by
  have hchars : l.chars ++ rest = l.key.toList ++ ' ' :: '=' :: ' ' :: (l.text ++ '\n' :: rest) := by
    simp [Line.chars]
  have hbinding := binding_eq hl rest
  obtain ⟨c, cs, hkey⟩ := List.exists_cons_of_ne_nil hl.key.1
  have hc : isBareKeyChar c = true := hl.key.2 c (by simp [hkey])
  rw [hchars]
  rw [hkey, List.cons_append] at hbinding ⊢
  rw [lines_bare hc, line_bare hc, hbinding, Option.bind_some, set_eq hnew]
  rfl

theorem get?_append_of_ne {key : String} (h : es.get? key = none) (hne : l.key ≠ key) :
    Entries.get? (es ++ [l.entry]) key = none := by
  have hkey : (key == l.key) = false := by simpa using hne.symm
  have hes : es.lookup key = none := h
  rw [Entries.get?, List.lookup_append, hes, Line.entry, Option.none_or, List.lookup_cons, hkey]
  rfl

/-- Lines with a key of their own each add their entries in order. -/
theorem lines_eq {ls : List Line} (hplain : ∀ l ∈ ls, l.Plain) (hkeys : (ls.map Line.key).Nodup)
    (hnew : ∀ l ∈ ls, es.get? l.key = none) (hfuel : ls.length < fuel) :
    lines fuel { entries := es } (ls.flatMap Line.chars) = some (es ++ ls.map Line.entry) := by
  induction ls generalizing es fuel with
  | nil =>
    cases fuel with
    | zero => exact absurd hfuel (Nat.not_lt_zero _)
    | succ fuel => simp [lines, skipGap]
  | cons l ls ih =>
    obtain ⟨hl, hls⟩ := List.forall_mem_cons.1 hplain
    obtain ⟨hnewl, hnewls⟩ := List.forall_mem_cons.1 hnew
    obtain ⟨hfresh, hkeys⟩ := List.nodup_cons.1 hkeys
    cases fuel with
    | zero => exact absurd hfuel (Nat.not_lt_zero _)
    | succ fuel =>
      have hnewls' : ∀ k ∈ ls, Entries.get? (es ++ [l.entry]) k.key = none := fun k hk =>
        get?_append_of_ne (hnewls k hk) fun he => hfresh (he ▸ List.mem_map_of_mem hk)
      rw [List.flatMap_cons, lines_cons hl hnewl, ih hls hkeys hnewls' (Nat.lt_of_succ_lt_succ hfuel)]
      simp

end

theorem length_le_chars (ls : List Line) : ls.length ≤ (ls.flatMap Line.chars).length := by
  induction ls with
  | nil => exact Nat.le_refl 0
  | cons l ls ih =>
    rw [List.flatMap_cons, List.length_append, List.length_cons, Line.chars, List.length_append,
      List.length_cons]
    omega

theorem skipMark_bare {c : Char} (hc : isBareKeyChar c = true) (cs : List Char) :
    skipMark (c :: cs) = c :: cs := by
  unfold skipMark
  split
  · rename_i heq
    cases heq
    cases hc
  · rfl

/-- A document of lines with a key of their own each is read as their entries. -/
theorem parse_lines {ls : List Line} (hplain : ∀ l ∈ ls, l.Plain) (hkeys : (ls.map Line.key).Nodup) :
    parse (String.ofList (ls.flatMap Line.chars)) = some (ls.map Line.entry) := by
  have hmark : skipMark (ls.flatMap Line.chars) = ls.flatMap Line.chars := by
    cases ls with
    | nil => rfl
    | cons l ls =>
      have hkey := (hplain l (by simp)).key
      obtain ⟨c, cs, hl⟩ := List.exists_cons_of_ne_nil hkey.1
      rw [List.flatMap_cons, Line.chars, hl, List.cons_append, List.cons_append,
        skipMark_bare (hkey.2 c (by simp [hl]))]
  unfold parse
  simp only [String.toList_ofList, hmark]
  exact lines_eq hplain hkeys (fun _ _ => rfl) (Nat.lt_succ_of_le (length_le_chars ls))

end DerivedSeries.Toml
