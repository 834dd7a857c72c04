import DerivedSeries.Proofs.Text.Numeral

/-!
# The grammar of decimal literals

A literal is a name (`inf`, `infinity`, `nan`, in any case) or a number, after a sign or not. A number
has a digit at least, may have a point in front of, between or behind its digits, and an exponent
(`IsLiteral`). These are the texts that the reader of doubles accepts (`exists_read_iff`).
-/

namespace DerivedSeries.Decimal

open Text (IsDigits)

/-- A sign or none. -/
inductive IsSign : List Char → Prop where
  | none : IsSign []
  | plus : IsSign ['+']
  | minus : IsSign ['-']

/-- An exponent or none. -/
inductive IsExponent : List Char → Prop where
  | none : IsExponent []
  | marked {mark : Char} {sign ds : List Char} :
    mark = 'e' ∨ mark = 'E' → IsSign sign → IsDigits ds → IsExponent (mark :: (sign ++ ds))

/-- Digits, or digits on either or both sides of a point, and an exponent or none. -/
inductive IsNumber : List Char → Prop where
  | whole {ds es : List Char} : IsDigits ds → IsExponent es → IsNumber (ds ++ es)
  | fraction {ds fs es : List Char} :
    IsDigits (ds ++ fs) → IsExponent es → IsNumber (ds ++ '.' :: (fs ++ es))

/-- The names of the doubles that are not finite. -/
def names : List String :=
  ["inf", "infinity", "nan"]

/-- The literals of a double. -/
inductive IsLiteral : List Char → Prop where
  | named {sign cs : List Char} {name : String} : IsSign sign →
    name ∈ names → cs.map Char.toLower = name.toList → IsLiteral (sign ++ cs)
  | number {sign cs : List Char} : IsSign sign → IsNumber cs → IsLiteral (sign ++ cs)

/-! ## Signs -/

theorem exists_splitSign (cs : List Char) :
    ∃ sign, IsSign sign ∧ cs = sign ++ (splitSign cs).2 := by
  unfold splitSign
  split
  · exact ⟨['-'], .minus, rfl⟩
  · exact ⟨['+'], .plus, rfl⟩
  · exact ⟨[], .none, rfl⟩

/-- The text does not begin with a sign. -/
def NoSignFirst (cs : List Char) : Prop :=
  ∀ c ∈ cs.head?, c ≠ '-' ∧ c ≠ '+'

theorem splitSign_append {sign cs : List Char} (hsign : IsSign sign) (hcs : NoSignFirst cs) :
    (splitSign (sign ++ cs)).2 = cs := by
  cases hsign with
  | plus => rfl
  | minus => rfl
  | none =>
    cases cs with
    | nil => rfl
    | cons c cs =>
      obtain ⟨hminus, hplus⟩ := hcs c rfl
      show (splitSign (c :: cs)).2 = c :: cs
      unfold splitSign
      simp [hminus, hplus]

theorem noSignFirst_of_isDigit {c : Char} (hc : c.isDigit = true) (cs : List Char) :
    NoSignFirst (c :: cs) := by
  rintro d ⟨⟩
  constructor
  · rintro rfl
    cases hc
  · rintro rfl
    cases hc

theorem noSignFirst_of_isDigits {cs : List Char} (h : IsDigits cs) (rest : List Char) :
    NoSignFirst (cs ++ rest) := by
  obtain ⟨c, cs, rfl⟩ := List.exists_cons_of_ne_nil h.1
  exact noSignFirst_of_isDigit (h.2 c (by simp)) _

/-! ## Exponents -/

theorem isExponent_cons_iff {c : Char} {cs : List Char} :
    IsExponent (c :: cs) ↔ (c = 'e' ∨ c = 'E') ∧ IsDigits (splitSign cs).2 := by
  constructor
  · intro h
    cases h with
    | @marked _ sign ds hmark hsign hds =>
      have hcs : NoSignFirst ds := List.append_nil ds ▸ noSignFirst_of_isDigits hds []
      rw [splitSign_append hsign hcs]
      exact ⟨hmark, hds⟩
  · rintro ⟨hmark, hds⟩
    obtain ⟨sign, hsign, hcs⟩ := exists_splitSign cs
    rw [hcs]
    exact .marked hmark hsign hds

theorem exists_readExponent_iff {cs : List Char} :
    (∃ e, readExponent cs = some e) ↔ IsExponent cs := by
  cases cs with
  | nil => exact iff_of_true ⟨0, rfl⟩ .none
  | cons c cs =>
    rw [isExponent_cons_iff, readExponent, IsDigits]
    simp [and_assoc]

theorem IsExponent.noDigitFirst {cs : List Char} (h : IsExponent cs) : Text.NoDigitFirst cs := by
  cases h with
  | none => nofun
  | marked hmark =>
    rintro c ⟨⟩
    rcases hmark with rfl | rfl <;> rfl

theorem IsExponent.ne_point {cs : List Char} (h : IsExponent cs) (r : List Char) : cs ≠ '.' :: r := by
  cases h with
  | none => nofun
  | marked hmark =>
    rintro ⟨⟩
    simp at hmark

/-! ## Numbers -/

theorem guard_bind (b : Bool) (x : Option Float) : (do guard b; x) = if b then x else none := by
  cases b <;> rfl

/-- Digits in front of and behind a point make a number with the exponent after them. -/
theorem exists_scaled_iff {whole fraction rest : List Char} :
    (∃ x, (do
      guard !(whole.isEmpty && fraction.isEmpty)
      let e ← readExponent rest
      return scaled (valueOf (whole ++ fraction)) (e - fraction.length)) = some x) ↔
    whole ++ fraction ≠ [] ∧ IsExponent rest := by
  have hempty : (whole.isEmpty && fraction.isEmpty) = (whole ++ fraction).isEmpty := by
    cases whole <;> rfl
  rw [guard_bind, hempty, ← exists_readExponent_iff]
  by_cases hnil : whole ++ fraction = []
  · simp [hnil]
  · cases readExponent rest <;> simp [hnil]

/-- The digits behind a point, if there is one, and what follows. -/
def splitFraction (rest : List Char) : List Char × List Char :=
  match rest with
  | '.' :: r => (r.takeWhile Char.isDigit, r.dropWhile Char.isDigit)
  | _ => ([], rest)

theorem splitFraction_of_ne {rest : List Char} (h : ∀ r, rest ≠ '.' :: r) :
    splitFraction rest = ([], rest) := by
  unfold splitFraction
  split
  · rename_i r
    exact absurd rfl (h r)
  · rfl

variable {cs : List Char}

theorem exists_readUnsigned_iff_split :
    (∃ x, readUnsigned cs = some x) ↔
      cs.takeWhile Char.isDigit ++ (splitFraction (cs.dropWhile Char.isDigit)).1 ≠ [] ∧
        IsExponent (splitFraction (cs.dropWhile Char.isDigit)).2 :=
  exists_scaled_iff

theorem exists_readUnsigned_iff : (∃ x, readUnsigned cs = some x) ↔ IsNumber cs := by
  rw [exists_readUnsigned_iff_split]
  constructor
  · have hcut : cs.takeWhile Char.isDigit ++ cs.dropWhile Char.isDigit = cs :=
      List.takeWhile_append_dropWhile
    have hdigits := Text.isDigit_of_mem_takeWhile cs
    rintro ⟨hne, hexp⟩
    by_cases hpoint : ∃ r, cs.dropWhile Char.isDigit = '.' :: r
    · obtain ⟨r, hr⟩ := hpoint
      rw [hr] at hne hexp
      have hmem : IsDigits (cs.takeWhile Char.isDigit ++ r.takeWhile Char.isDigit) :=
        ⟨hne, List.forall_mem_append.2 ⟨hdigits, Text.isDigit_of_mem_takeWhile r⟩⟩
      rw [← hcut, hr, ← List.takeWhile_append_dropWhile (p := Char.isDigit) (l := r)]
      exact .fraction hmem hexp
    · rw [splitFraction_of_ne fun r hr => hpoint ⟨r, hr⟩, List.append_nil] at hne
      rw [splitFraction_of_ne fun r hr => hpoint ⟨r, hr⟩] at hexp
      rw [← hcut]
      exact .whole ⟨hne, hdigits⟩ hexp
  · intro h
    cases h with
    | @whole ds es hds hes =>
      obtain ⟨htake, hdrop⟩ := Text.span_isDigit hds.2 hes.noDigitFirst
      rw [htake, hdrop, splitFraction_of_ne hes.ne_point]
      exact ⟨(List.append_nil ds).symm ▸ hds.1, hes⟩
    | @fraction ds fs es hds hes =>
      have hpoint : Text.NoDigitFirst ('.' :: (fs ++ es)) := by
        rintro c ⟨⟩
        rfl
      have hall := List.forall_mem_append.1 hds.2
      obtain ⟨htake, hdrop⟩ := Text.span_isDigit hall.1 hpoint
      obtain ⟨hfraction, hexp⟩ := Text.span_isDigit hall.2 hes.noDigitFirst
      rw [htake, hdrop]
      show ds ++ (fs ++ es).takeWhile Char.isDigit ≠ [] ∧ IsExponent ((fs ++ es).dropWhile Char.isDigit)
      rw [hfraction, hexp]
      exact ⟨hds.1, hes⟩

theorem IsNumber.noSignFirst (h : IsNumber cs) : NoSignFirst cs := by
  cases h with
  | whole hds => exact noSignFirst_of_isDigits hds _
  | @fraction ds fs es hds =>
    cases ds with
    | nil =>
      rintro c ⟨⟩
      decide
    | cons d ds => exact noSignFirst_of_isDigit (hds.2 d (by simp)) _

/-! ## Literals -/

theorem exists_readMagnitude_iff :
    (∃ x, readMagnitude cs = some x) ↔
      (∃ name ∈ names, cs.map Char.toLower = name.toList) ∨ IsNumber cs := by
  have hname : ∀ name, cs.map Char.toLower = name.toList ↔
      String.ofList (cs.map Char.toLower) = name := by
    intro name
    rw [← String.toList_inj, String.toList_ofList]
  simp only [hname, ← exists_readUnsigned_iff, readMagnitude, names]
  split
  · rename_i h
    simp [h]
  · rename_i h
    simp [h]
  · rename_i h
    simp [h]
  · rename_i hinf hinfinity hnan
    have hnone : ¬ ∃ name ∈ ["inf", "infinity", "nan"],
        String.ofList (cs.map Char.toLower) = name := by
      simpa using ⟨hinf, hinfinity, hnan⟩
    exact (or_iff_right hnone).symm

theorem noSignFirst_of_name {name : String} (hname : name ∈ names)
    (h : cs.map Char.toLower = name.toList) : NoSignFirst cs := by
  have hnames : ∀ name ∈ names, NoSignFirst name.toList := by simp [names, NoSignFirst]
  cases cs with
  | nil => nofun
  | cons c cs =>
    obtain ⟨hminus, hplus⟩ := hnames name hname c.toLower (by rw [← h]; rfl)
    rintro d ⟨⟩
    constructor
    · rintro rfl
      exact hminus rfl
    · rintro rfl
      exact hplus rfl

/-- The reader of doubles accepts the literals. -/
theorem exists_read_iff {s : String} : (∃ x, read s = .ok x) ↔ IsLiteral s.toList := by
  have hread : (∃ x, read s = .ok x) ↔ ∃ x, readMagnitude (splitSign s.toList).2 = some x := by
    unfold read
    by_cases hempty : s.isEmpty
    · have hs : s.toList = [] := by simpa using hempty
      rw [if_pos hempty, hs]
      exact iff_of_false nofun nofun
    · rw [if_neg hempty]
      cases h : readMagnitude (splitSign s.toList).2 <;> simp [h]
  rw [hread, exists_readMagnitude_iff]
  constructor
  · intro h
    obtain ⟨sign, hsign, hcs⟩ := exists_splitSign s.toList
    rw [hcs]
    rcases h with ⟨name, hname, h⟩ | h
    · exact .named hsign hname h
    · exact .number hsign h
  · intro h
    generalize s.toList = cs at h
    cases h with
    | named hsign hname h =>
      rw [splitSign_append hsign (noSignFirst_of_name hname h)]
      exact .inl ⟨_, hname, h⟩
    | number hsign h =>
      rw [splitSign_append hsign h.noSignFirst]
      exact .inr h

end DerivedSeries.Decimal
