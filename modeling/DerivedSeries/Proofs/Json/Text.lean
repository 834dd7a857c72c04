import DerivedSeries.Json.Text
import DerivedSeries.Proofs.Text.Digits

/-!
# Written strings

A literal whose pieces are of the form that the format asks for is read as it is written
(`Literal.read_write`). The literal of a string is such, whatever characters occur in the string
(`Literal.isValid_encode`), and stands for the string (`Literal.decode?_encode`).
-/

namespace DerivedSeries.Json

/-- A character that may stand for itself, a letter that may stand after a backslash, or any unit. -/
def Piece.IsValid : Piece → Prop
  | .plain c => c ≠ '"' ∧ c ≠ '\\' ∧ Literal.isControl c = false
  | .escape c => (Literal.escaped? c).isSome
  | .unit _ => True

namespace Literal

/-- All pieces are of the form that the format asks for. -/
def IsValid (l : Literal) : Prop :=
  ∀ p ∈ l, p.IsValid

/-! ## Hexadecimal digits -/

theorem hexValue?_digitChar {k : Nat} (h : k < 16) : hexValue? k.digitChar = some k := by
  have hall : ∀ k : Fin 16, hexValue? (k : Nat).digitChar = some (k : Nat) := by decide
  exact hall ⟨k, h⟩

/-- Four hexadecimal digits give back the unit. -/
theorem readUnit_hexDigits (n : UInt16) :
    readUnit (n.toNat / 4096 % 16).digitChar (n.toNat / 256 % 16).digitChar
      (n.toNat / 16 % 16).digitChar (n.toNat / 1 % 16).digitChar = some n := by
  have hlt : n.toNat < 65536 := n.toNat_lt
  have hvalue : ((n.toNat / 4096 % 16 * 16 + n.toNat / 256 % 16) * 16 + n.toNat / 16 % 16) * 16 +
      n.toNat / 1 % 16 = n.toNat := by omega
  have hdigit (k : Nat) : hexValue? (k % 16).digitChar = some (k % 16) :=
    hexValue?_digitChar (Nat.mod_lt k (by decide))
  simp only [readUnit, hdigit, Option.bind_eq_bind, Option.bind_some, hvalue, UInt16.ofNat_toNat]
  rfl

/-! ## Reading what is written -/

variable {cs rest : List Char}

theorem read_escape {c : Char} (h : (escaped? c).isSome) :
    read ('\\' :: c :: cs) = (read cs).map fun r => (.escape c :: r.1, r.2) := by
  have hu : c ≠ 'u' := by
    rintro rfl
    cases h
  rw [read.eq_4]
  · rw [if_pos h]
  · intro a b d e r hc
    exact absurd hc hu

theorem read_plain {c : Char} (h : (Piece.plain c).IsValid) :
    read (c :: cs) = (read cs).map fun r => (.plain c :: r.1, r.2) := by
  obtain ⟨hquote, hslash, hcontrol⟩ := h
  rw [read.eq_5]
  · simp [hcontrol, hslash]
  · exact fun hc => hquote hc
  · exact fun a b d e r hc => absurd hc hslash
  · exact fun d r hc => absurd hc hslash

theorem read_writePiece {p : Piece} (h : p.IsValid) :
    read (writePiece p ++ cs) = (read cs).map fun r => (p :: r.1, r.2) := by
  cases p with
  | plain c => exact read_plain h
  | escape c => exact read_escape h
  | unit n =>
    show read ('\\' :: 'u' :: _ :: _ :: _ :: _ :: cs) = _
    rw [read, readUnit_hexDigits]
    cases read cs <;> rfl

theorem read_write {l : Literal} (h : l.IsValid) :
    read (l.flatMap writePiece ++ '"' :: rest) = some (l, rest) := by
  induction l with
  | nil => rfl
  | cons p l ih =>
    obtain ⟨hp, hl⟩ := List.forall_mem_cons.1 h
    rw [List.flatMap_cons, List.append_assoc, read_writePiece hp, ih hl]
    rfl

/-! ## The literal of a string -/

theorem isValid_encodeChar (c : Char) : (encodeChar c).IsValid := by
  unfold encodeChar
  split
  case h_8 hquote hslash _ _ _ _ _ =>
    by_cases hcontrol : isControl c = true
    · rw [if_pos hcontrol]
      trivial
    · rw [if_neg hcontrol]
      exact ⟨hquote, hslash, eq_false_of_ne_true hcontrol⟩
  all_goals rfl

theorem isValid_encode (s : String) : (encode s).IsValid := by
  intro p hp
  obtain ⟨c, -, rfl⟩ := List.mem_map.1 hp
  exact isValid_encodeChar c

/-- A unit that is no half of a surrogate pair stands for a character, whatever follows. -/
theorem chars?_unit {n : UInt16} {ps : Literal} (hhigh : isHigh n = false) (hlow : isLow n = false) :
    chars? (.unit n :: ps) = (chars? ps).map (Char.ofNat n.toNat :: ·) := by
  rcases ps with _ | ⟨_ | _ | m, ps⟩ <;> simp [chars?, hhigh, hlow]

theorem chars?_encodeChar (c : Char) (ps : Literal) :
    chars? (encodeChar c :: ps) = (chars? ps).map (c :: ·) := by
  unfold encodeChar
  split
  case h_8 =>
    by_cases hcontrol : isControl c = true
    · -- a control is far below the surrogates
      have hlt : c.toNat < 32 := of_decide_eq_true hcontrol
      have hunit : (UInt16.ofNat c.toNat).toNat = c.toNat := 
        UInt16.toNat_ofNat_of_lt' (Nat.lt_trans hlt (by decide))
      have hhigh : isHigh (UInt16.ofNat c.toNat) = false := by
        simp only [isHigh, UInt16.le_iff_toNat_le, hunit]
        simp
        omega
      have hlow : isLow (UInt16.ofNat c.toNat) = false := by
        simp only [isLow, UInt16.le_iff_toNat_le, hunit]
        simp
        omega
      rw [if_pos hcontrol, chars?_unit hhigh hlow, hunit, Char.ofNat_toNat]
    · rw [if_neg hcontrol]
      rfl
  all_goals
    cases hps : chars? ps <;> simp [chars?, escaped?, hps]

theorem decode?_encode (s : String) : (encode s).decode? = some s := by
  have hchars (cs : List Char) : chars? (cs.map encodeChar) = some cs := by
    induction cs with
    | nil => rfl
    | cons c cs ih => rw [List.map_cons, chars?_encodeChar, ih]; rfl
  rw [decode?, encode, hchars, Option.map_some, String.ofList_toList]

/-! ## Literals without escapes -/

/-- The characters of a numeral stand for themselves. -/
theorem encodeChar_of_isDigit {c : Char} (h : c = '-' ∨ c.isDigit = true) :
    encodeChar c = .plain c := by
  have hcontrol : isControl c = false := by
    refine decide_eq_false (Nat.not_lt.2 ?_)
    rcases h with rfl | h
    · decide
    · exact Nat.le_trans (by decide) (Text.digit_bounds h).1
  unfold encodeChar
  split
  case h_8 => rw [hcontrol]; rfl
  all_goals exact absurd h (by decide)

theorem plain?_encode {s : String} (h : ∀ c ∈ s.toList, c = '-' ∨ c.isDigit = true) :
    (encode s).plain? = some s.toList := by
  have hencode : encode s = s.toList.map .plain :=
    List.map_congr_left fun c hc => encodeChar_of_isDigit (h c hc)
  have hplain (cs : List Char) : plain? (cs.map .plain) = some cs := by
    induction cs with
    | nil => rfl
    | cons c cs ih =>
      rw [plain?] at ih ⊢
      rw [List.map_cons, List.mapM_cons, ih]
      rfl
  rw [hencode, hplain]

theorem decode?_of_plain? {l : Literal} {cs : List Char} (h : l.plain? = some cs) :
    l.decode? = some (String.ofList cs) := by
  have hchars : chars? l = some cs := by
    induction l generalizing cs with
    | nil => exact h
    | cons p l ih =>
      simp only [plain?, List.mapM_cons, Option.bind_eq_bind, Option.bind_eq_some_iff,
        Option.pure_def, Option.some.injEq] at h
      obtain ⟨c, hc, cs, hcs, rfl⟩ := h
      cases p with
      | plain d => cases hc; rw [chars?, ih hcs]; rfl
      | escape d => cases hc
      | unit n => cases hc
  rw [decode?, hchars, Option.map_some]

end Literal
end DerivedSeries.Json
