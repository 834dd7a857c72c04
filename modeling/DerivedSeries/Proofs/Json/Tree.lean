import DerivedSeries.Json.Tree
import DerivedSeries.Proofs.Json.Numeral
import DerivedSeries.Proofs.Json.Text

/-!
# Written trees

A text of tokens is taken apart into the tokens again, if none of them continues the one before it
(`Token.scan_cons`). The tokens of a tree are of this kind, and the machine that reads them builds the tree
(`Tree.run_tokens`). So a tree whose numerals and literals are of the form that the format asks for
is read from its text (`Tree.parse_render`).
-/

namespace DerivedSeries.Json

namespace Token

/-- Numerals and literals are of the form that the format asks for. -/
def IsValid : Token → Prop
  | number n => n.IsValid
  | string l => l.IsValid
  | _ => True

/-- The text may follow the token: nothing in it continues a numeral. -/
def Before (t : Token) (cs : List Char) : Prop :=
  ∀ n, t = .number n → Numeral.Ends cs

variable {t : Token} {ts : List Token} {cs : List Char}

/-- A numeral begins with a minus sign or a digit. -/
theorem head?_write_numeral {n : Numeral} (h : n.IsValid) :
    ∃ c rest, n.write = c :: rest ∧ (c = '-' ∨ c.isDigit = true) := by
  obtain ⟨c, whole, hwhole⟩ := List.exists_cons_of_ne_nil h.whole.1
  rw [Numeral.write_eq, hwhole]
  cases n.negative with
  | true => exact ⟨_, _, rfl, .inl rfl⟩
  | false => exact ⟨c, _, rfl, .inr (h.whole.2 c (by simp [hwhole]))⟩

/-- What begins like a numeral is read as one. -/
theorem read_numeral {c : Char} (h : c = '-' ∨ c.isDigit = true) :
    read (c :: cs) = (Numeral.read (c :: cs)).map fun r => (number r.1, r.2) := by
  rw [read.eq_11] <;>
  · rintro _ ⟨⟩
    revert h
    decide

theorem read_write (h : t.IsValid) (hcs : t.Before cs) : read (t.write ++ cs) = some (t, cs) := by
  cases t with
  | bool b => cases b <;> rfl
  | number n =>
    have hread := Numeral.read_write h (hcs n rfl)
    obtain ⟨c, rest, hwrite, hc⟩ := head?_write_numeral h
    show read (n.write ++ cs) = _
    rw [hwrite] at hread ⊢
    rw [List.cons_append] at hread ⊢
    rw [read_numeral hc, hread]
    rfl
  | string l =>
    show (Literal.read ((l.flatMap Literal.writePiece ++ ['"']) ++ cs)).map _ = _
    rw [List.append_assoc, List.singleton_append, Literal.read_write h]
    rfl
  | _ => rfl

/-- No token begins with a blank. -/
theorem head?_write (h : t.IsValid) : ∃ c rest, t.write = c :: rest ∧ isGap c = false := by
  cases t with
  | bool b => cases b <;> exact ⟨_, _, rfl, rfl⟩
  | number n =>
    obtain ⟨c, rest, hwrite, hc⟩ := head?_write_numeral h
    refine ⟨c, rest, hwrite, ?_⟩
    rcases hc with rfl | hc
    · rfl
    · simp [isGap, Text.ne_of_isDigit hc]
  | string l => exact ⟨_, _, rfl, rfl⟩
  | _ => exact ⟨_, _, rfl, rfl⟩

theorem scan_nil : scan [] = some [] := by
  rw [scan]
  rfl

theorem scan_cons (h : t.IsValid) (hcs : t.Before cs) :
    scan (t.write ++ cs) = (scan cs).map (t :: ·) := by
  have hread := read_write h hcs
  obtain ⟨c, rest, hwrite, hgap⟩ := head?_write h
  rw [hwrite, List.cons_append] at hread ⊢
  rw [scan]
  have hdrop : (c :: (rest ++ cs)).dropWhile isGap = c :: (rest ++ cs) := by
    rw [List.dropWhile_cons_of_neg (by simp [hgap])]
  simp only [hdrop, List.isEmpty_cons, Bool.false_eq_true, if_false]
  split
  · rename_i hnone
    rw [hdrop, hread] at hnone
    cases hnone
  · rename_i t' rest' hsome
    rw [hdrop, hread] at hsome
    cases hsome
    rfl

end Token

namespace Tree

theorem sizeOf_lt_of_mem {ms : List (Literal × Tree)} {m : Literal × Tree} (h : m ∈ ms) :
    sizeOf m.2 < sizeOf ms := by
  have hlist := List.sizeOf_lt_of_mem h
  rw [Prod.mk.sizeOf_spec] at hlist
  omega

/-- What holds of a tree if it holds of the trees in it holds of every tree. -/
theorem induction {motive : Tree → Prop} (null : motive .null) (bool : ∀ b, motive (.bool b))
    (number : ∀ n, motive (.number n)) (string : ∀ l, motive (.string l))
    (array : ∀ ts, (∀ t ∈ ts, motive t) → motive (.array ts))
    (object : ∀ ms, (∀ m ∈ ms, motive m.2) → motive (.object ms)) (t : Tree) : motive t :=
  match t with
  | .null => null
  | .bool b => bool b
  | .number n => number n
  | .string l => string l
  | .array ts => array ts fun t _ => induction null bool number string array object t
  | .object ms => object ms fun m hm =>
    have := sizeOf_lt_of_mem hm
    induction null bool number string array object m.2

/-! ## The machine on the tokens of a tree -/

variable {fs : List Frame} {ts : List Token}

/-- No tree begins with a token that closes a container. -/
theorem tokens_head (t : Tree) :
    ∃ u us, tokens t = u :: us ∧ u ≠ .closeBracket ∧ u ≠ .closeBrace := by
  cases t with
  | array ts => cases ts <;> exact ⟨_, _, rfl, nofun, nofun⟩
  | object ms => cases ms <;> exact ⟨_, _, rfl, nofun, nofun⟩
  | _ => exact ⟨_, _, rfl, nofun, nofun⟩

/-- The tree is read off the front of any tokens. -/
def Runs (t : Tree) : Prop :=
  ∀ fs ts, run .value fs (tokens t ++ ts) = run (.finish t) fs ts

theorem run_itemTokens {items : List Tree} (h : ∀ t ∈ items, Runs t) (t : Tree) (done : List Tree) :
    run (.finish t) (.items done :: fs) (itemTokens items ++ .closeBracket :: ts) =
      run (.finish (.array (done.reverse ++ t :: items))) fs ts := by
  induction items generalizing t done with
  | nil => simp [itemTokens, run]
  | cons u items ih =>
    obtain ⟨hu, hitems⟩ := List.forall_mem_cons.1 h
    rw [itemTokens, List.cons_append, List.cons_append, List.append_assoc, run, hu, ih hitems]
    simp

theorem run_memberTokens {ms : List (Literal × Tree)} (h : ∀ m ∈ ms, Runs m.2) (k : Literal)
    (t : Tree) (done : List (Literal × Tree)) :
    run (.finish t) (.members done k :: fs) (memberTokens ms ++ .closeBrace :: ts) =
      run (.finish (.object (done.reverse ++ (k, t) :: ms))) fs ts := by
  induction ms generalizing k t done with
  | nil => simp [memberTokens, run]
  | cons m ms ih =>
    obtain ⟨hm, hms⟩ := List.forall_mem_cons.1 h
    rw [memberTokens]
    simp only [List.cons_append, List.append_assoc]
    rw [run, run, hm, ih hms]
    simp

theorem run_tokens (t : Tree) : Runs t := by
  induction t using induction with
  | null => exact fun _ _ => rfl
  | bool b => exact fun _ _ => rfl
  | number n => exact fun _ _ => rfl
  | string l => exact fun _ _ => rfl
  | array items ih =>
    intro fs ts
    cases items with
    | nil => rfl
    | cons t items =>
      obtain ⟨ht, hitems⟩ := List.forall_mem_cons.1 ih
      obtain ⟨u, us, hu, hne, -⟩ := tokens_head t
      have hopen (rest : List Token) : run .value fs (.openBracket :: (tokens t ++ rest)) =
          run .value (.items [] :: fs) (tokens t ++ rest) := by
        rw [hu, List.cons_append, run]
        simpa using hne
      simp only [tokens, List.cons_append, List.append_assoc, List.nil_append]
      rw [hopen, ht, run_itemTokens hitems]
      rfl
  | object ms ih =>
    intro fs ts
    cases ms with
    | nil => rfl
    | cons m ms =>
      obtain ⟨hm, hms⟩ := List.forall_mem_cons.1 ih
      simp only [tokens, List.cons_append, List.append_assoc, List.nil_append]
      rw [run, run, hm, run_memberTokens hms]
      · rfl
      · nofun

/-! ## Reading the text of a tree -/

/-- Numerals and literals are of the form that the format asks for. -/
inductive IsValid : Tree → Prop
  | null : IsValid .null
  | bool (b : Bool) : IsValid (.bool b)
  | number {n : Numeral} (h : n.IsValid) : IsValid (.number n)
  | string {l : Literal} (h : l.IsValid) : IsValid (.string l)
  | array {ts : List Tree} (h : ∀ t ∈ ts, IsValid t) : IsValid (.array ts)
  | object {ms : List (Literal × Tree)} (hkeys : ∀ m ∈ ms, m.1.IsValid)
    (h : ∀ m ∈ ms, IsValid m.2) : IsValid (.object ms)

/-- The tokens are taken off the front of any text that does not continue a numeral. -/
def Scans (us : List Token) : Prop :=
  ∀ cs, Numeral.Ends cs → Token.scan (us.flatMap Token.write ++ cs) = (Token.scan cs).map (us ++ ·)

/-- The tokens begin with one that ends a numeral. -/
def Closes (us : List Token) : Prop :=
  ∀ cs, Numeral.Ends (us.flatMap Token.write ++ cs)

variable {u : Token} {us vs : List Token} {t : Tree}

theorem scans_nil : Scans [] := by
  intro cs _
  cases h : Token.scan cs <;> simp [h]

theorem scans_number {n : Numeral} (h : n.IsValid) : Scans [.number n] := by
  intro cs hcs
  have hbefore : (Token.number n).Before cs := fun _ _ => hcs
  have hvalid : (Token.number n).IsValid := h
  rw [List.flatMap_singleton, Token.scan_cons hvalid hbefore]
  rfl

theorem scans_cons (hu : u.IsValid) (hne : ∀ n, u ≠ .number n) (h : Scans us) :
    Scans (u :: us) := by
  intro cs hcs
  have hbefore : u.Before (us.flatMap Token.write ++ cs) := fun n hn => absurd hn (hne n)
  rw [List.flatMap_cons, List.append_assoc, Token.scan_cons hu hbefore, h cs hcs, Option.map_map]
  rfl

theorem scans_append (hus : Scans us) (hvs : Scans vs) (hcloses : Closes vs) : Scans (us ++ vs) := by
  intro cs hcs
  rw [List.flatMap_append, List.append_assoc, hus _ (hcloses cs), hvs cs hcs, Option.map_map]
  congr 1
  funext ts
  exact (List.append_assoc us vs ts).symm

/-- A comma or what closes a container ends a numeral. -/
theorem closes_cons (h : u = .comma ∨ u = .closeBracket ∨ u = .closeBrace) : Closes (u :: us) := by
  rcases h with rfl | rfl | rfl
  all_goals
    rintro cs c ⟨⟩
    decide

/-- A key, a colon and a value. -/
theorem scans_member {l : Literal} (hl : l.IsValid) (ht : Scans (tokens t)) (hus : Scans us)
    (hcloses : Closes us) : Scans (.string l :: .colon :: (tokens t ++ us)) :=
  scans_cons hl nofun (scans_cons trivial nofun (scans_append ht hus hcloses))

theorem scans_itemTokens {items : List Tree} (h : ∀ t ∈ items, Scans (tokens t)) :
    Scans (itemTokens items ++ [Token.closeBracket]) ∧
      Closes (itemTokens items ++ [Token.closeBracket]) := by
  induction items with
  | nil => exact ⟨scans_cons trivial nofun scans_nil, closes_cons (.inr (.inl rfl))⟩
  | cons t items ih =>
    obtain ⟨ht, hitems⟩ := List.forall_mem_cons.1 h
    obtain ⟨hscans, hcloses⟩ := ih hitems
    simp only [itemTokens, List.cons_append, List.append_assoc]
    exact ⟨scans_cons trivial nofun (scans_append ht hscans hcloses), closes_cons (.inl rfl)⟩

theorem scans_memberTokens {ms : List (Literal × Tree)} (hkeys : ∀ m ∈ ms, m.1.IsValid)
    (h : ∀ m ∈ ms, Scans (tokens m.2)) :
    Scans (memberTokens ms ++ [Token.closeBrace]) ∧
      Closes (memberTokens ms ++ [Token.closeBrace]) := by
  induction ms with
  | nil => exact ⟨scans_cons trivial nofun scans_nil, closes_cons (.inr (.inr rfl))⟩
  | cons m ms ih =>
    obtain ⟨hkey, hkeys⟩ := List.forall_mem_cons.1 hkeys
    obtain ⟨hm, hms⟩ := List.forall_mem_cons.1 h
    obtain ⟨hscans, hcloses⟩ := ih hkeys hms
    simp only [memberTokens, List.cons_append, List.append_assoc]
    exact ⟨scans_cons trivial nofun (scans_member hkey hm hscans hcloses), closes_cons (.inl rfl)⟩

theorem scans_tokens (h : t.IsValid) : Scans (tokens t) := by
  induction h with
  | null => exact scans_cons trivial nofun scans_nil
  | bool b => exact scans_cons trivial nofun scans_nil
  | number h => exact scans_number h
  | string h => exact scans_cons h nofun scans_nil
  | @array items _ ih =>
    cases items with
    | nil => exact scans_cons trivial nofun (scans_cons trivial nofun scans_nil)
    | cons t items =>
      obtain ⟨ht, hitems⟩ := List.forall_mem_cons.1 ih
      obtain ⟨hscans, hcloses⟩ := scans_itemTokens hitems
      simp only [tokens, List.cons_append, List.append_assoc]
      exact scans_cons trivial nofun (scans_append ht hscans hcloses)
  | @object ms hkeys _ ih =>
    cases ms with
    | nil => exact scans_cons trivial nofun (scans_cons trivial nofun scans_nil)
    | cons m ms =>
      obtain ⟨hkey, hkeys⟩ := List.forall_mem_cons.1 hkeys
      obtain ⟨hm, hms⟩ := List.forall_mem_cons.1 ih
      obtain ⟨hscans, hcloses⟩ := scans_memberTokens hkeys hms
      simp only [tokens, List.cons_append, List.append_assoc]
      exact scans_cons trivial nofun (scans_member hkey hm hscans hcloses)

theorem parse_render (h : t.IsValid) : parse t.render = some t := by
  have hscan : Token.scan (t.tokens.flatMap Token.write) = some t.tokens := by
    have hempty := scans_tokens h [] nofun
    simpa [Token.scan_nil] using hempty
  have hrun : run .value [] t.tokens = some t := by
    have hnil := run_tokens t [] []
    rwa [List.append_nil] at hnil
  rw [parse, render, String.toList_ofList, hscan, Option.bind_some, hrun]

end Tree
end DerivedSeries.Json
