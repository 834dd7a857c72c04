import DerivedSeries.Error

/-!
# The grammar of integer literals

A numeral is one or more ASCII digits, after a sign or not, and denotes an integer without bounds
(`Numeral`). The reader of 64-bit integers accepts the numerals of its range and reads off what they
denote (`readInt64_eq_ok_iff`). It works digit by digit and stops as soon as the value leaves the range:
the value of a prefix is never above that of the whole (`le_foldl_digits`).
-/

namespace DerivedSeries.Text

/-- Digits, one at least. -/
def IsDigits (cs : List Char) : Prop :=
  cs ≠ [] ∧ ∀ c ∈ cs, c.isDigit = true

/-- An integer literal and what it denotes. -/
inductive Numeral : List Char → Int → Prop where
  | unsigned {ds : List Char} : IsDigits ds → Numeral ds (Decimal.valueOf ds)
  | plus {ds : List Char} : IsDigits ds → Numeral ('+' :: ds) (Decimal.valueOf ds)
  | minus {ds : List Char} : IsDigits ds → Numeral ('-' :: ds) (-(Decimal.valueOf ds : Int))

/-! ## Digits -/

/-- The value of a number is at least that of the digits in front. -/
theorem le_foldl_digits (cs : List Char) (acc : Nat) :
    acc ≤ cs.foldl (fun n c => n * 10 + (c.toNat - '0'.toNat)) acc := by
  induction cs generalizing acc with
  | nil => exact Nat.le_refl acc
  | cons c cs ih =>
    have hstep := ih (acc * 10 + (c.toNat - '0'.toNat))
    rw [List.foldl_cons]
    omega

/-- The text does not begin with a digit. -/
def NoDigitFirst (cs : List Char) : Prop :=
  ∀ c ∈ cs.head?, c.isDigit = false

/-- A run of characters of one kind ends where one of another kind follows. -/
theorem span_append {p : Char → Bool} {run rest : List Char} (hrun : ∀ c ∈ run, p c = true)
    (hrest : ∀ c ∈ rest.head?, p c = false) :
    (run ++ rest).takeWhile p = run ∧ (run ++ rest).dropWhile p = rest := by
  rw [List.takeWhile_append_of_pos hrun, List.dropWhile_append_of_pos hrun]
  cases rest with
  | nil => exact ⟨List.append_nil run, rfl⟩
  | cons c rest =>
    have hc : p c = false := hrest c rfl
    simp [hc]

theorem span_isDigit {ds rest : List Char} (hds : ∀ c ∈ ds, c.isDigit = true)
    (hrest : NoDigitFirst rest) :
    (ds ++ rest).takeWhile Char.isDigit = ds ∧ (ds ++ rest).dropWhile Char.isDigit = rest :=
  span_append hds hrest

theorem isDigit_of_mem_takeWhile (cs : List Char) :
    ∀ c ∈ cs.takeWhile Char.isDigit, c.isDigit = true :=
  List.all_eq_true.1 List.all_takeWhile

variable {limit n acc : Nat} {overflow : IntegerFault} {cs : List Char}

theorem readMagnitude_eq_ok_iff (hacc : acc ≤ limit) :
    readMagnitude limit overflow acc cs = .ok n ↔
      (∀ c ∈ cs, c.isDigit = true) ∧
        cs.foldl (fun n c => n * 10 + (c.toNat - '0'.toNat)) acc = n ∧ n ≤ limit := by
  induction cs generalizing acc with
  | nil =>
    simp only [readMagnitude, Except.ok.injEq, List.foldl_nil]
    constructor
    · rintro rfl
      exact ⟨by simp, rfl, hacc⟩
    · rintro ⟨-, rfl, -⟩
      rfl
  | cons c cs ih =>
    rw [readMagnitude, digit?]
    by_cases hc : c.isDigit = true
    · simp only [hc, if_true, List.forall_mem_cons, true_and, List.foldl_cons]
      by_cases hle : acc * 10 + (c.toNat - '0'.toNat) ≤ limit
      · rw [if_pos hle]
        exact ih hle
      · rw [if_neg hle]
        constructor
        · intro h
          cases h
        · rintro ⟨-, rfl, hn⟩
          have := le_foldl_digits cs (acc * 10 + (c.toNat - '0'.toNat))
          omega
    · simp [hc]

theorem readSigned_eq_ok_iff :
    readSigned limit overflow cs = .ok n ↔
      IsDigits cs ∧ Decimal.valueOf cs = n ∧ n ≤ limit := by
  unfold readSigned IsDigits
  cases cs with
  | nil => simp
  | cons c cs =>
    rw [if_neg (by simp), readMagnitude_eq_ok_iff (Nat.zero_le limit), Decimal.valueOf, and_assoc]
    simp

/-! ## Integers -/

theorem not_numeral_nil {n : Int} : ¬ Numeral [] n := by
  intro h
  cases h with
  | unsigned hds => exact hds.1 rfl

theorem numeral_minus_iff {n : Int} :
    Numeral ('-' :: cs) n ↔ IsDigits cs ∧ n = -(Decimal.valueOf cs : Int) := by
  constructor
  · intro h
    cases h with
    | unsigned hds => exact absurd (hds.2 '-' (by simp)) (by decide)
    | minus hds => exact ⟨hds, rfl⟩
  · rintro ⟨hds, rfl⟩
    exact .minus hds

theorem numeral_plus_iff {n : Int} :
    Numeral ('+' :: cs) n ↔ IsDigits cs ∧ n = Decimal.valueOf cs := by
  constructor
  · intro h
    cases h with
    | unsigned hds => exact absurd (hds.2 '+' (by simp)) (by decide)
    | plus hds => exact ⟨hds, rfl⟩
  · rintro ⟨hds, rfl⟩
    exact .plus hds

theorem numeral_unsigned_iff {n : Int} (hminus : ∀ ds, cs ≠ '-' :: ds) (hplus : ∀ ds, cs ≠ '+' :: ds) :
    Numeral cs n ↔ IsDigits cs ∧ n = Decimal.valueOf cs := by
  constructor
  · intro h
    cases h with
    | unsigned hds => exact ⟨hds, rfl⟩
    | plus hds => exact absurd rfl (hplus _)
    | minus hds => exact absurd rfl (hminus _)
  · rintro ⟨hds, rfl⟩
    exact .unsigned hds

theorem numeral_iff_of_digits {n : Int} (hcs : ∀ c ∈ cs, c.isDigit = true) :
    Numeral cs n ↔ IsDigits cs ∧ n = Decimal.valueOf cs := by
  apply numeral_unsigned_iff
  · rintro ds rfl
    cases hcs '-' (by simp)
  · rintro ds rfl
    cases hcs '+' (by simp)

/-- Within the range, a word is the integer that it is made of. -/
theorem ofInt_eq_iff {n : Int} {v : Int64} (hmin : Int64.minValue.toInt ≤ n)
    (hmax : n ≤ Int64.maxValue.toInt) : Int64.ofInt n = v ↔ v.toInt = n := by
  rw [← Int64.toInt_inj, Int64.toInt_ofInt_of_le hmin (Int.lt_add_one_of_le hmax)]
  exact eq_comm

/-- A number that is read, taken for an integer and made a word. -/
theorem map_ofInt_eq_ok_iff {x : Except IntegerFault Nat} {f : Int → Int64} {v : Int64} :
    Except.map f x = .ok v ↔ ∃ n : Nat, x = .ok n ∧ f n = v := by
  cases x with
  | error fault => exact iff_of_false nofun fun ⟨n, h, _⟩ => nomatch h
  | ok m =>
    show Except.ok (f m) = .ok v ↔ _
    simp

/-- Where the limit is that of the range, digits and a sign are read as what they denote. -/
theorem map_readSigned_eq_ok_iff {sign : Int → Int} {v : Int64}
    (hlimit : ∀ n : Nat, n ≤ limit ↔
      Int64.minValue.toInt ≤ sign n ∧ sign n ≤ Int64.maxValue.toInt) :
    (readSigned limit overflow cs).map (fun n => Int64.ofInt (sign n)) = .ok v ↔
      IsDigits cs ∧ v.toInt = sign (Decimal.valueOf cs) := by
  rw [map_ofInt_eq_ok_iff]
  simp only [readSigned_eq_ok_iff]
  constructor
  · rintro ⟨n, ⟨hcs, rfl, hle⟩, hv⟩
    obtain ⟨hmin, hmax⟩ := (hlimit _).1 hle
    exact ⟨hcs, (ofInt_eq_iff hmin hmax).1 hv⟩
  · rintro ⟨hcs, hv⟩
    have hmin := v.minValue_le_toInt
    have hmax := v.toInt_le
    rw [hv] at hmin hmax
    exact ⟨_, ⟨hcs, rfl, (hlimit _).2 ⟨hmin, hmax⟩⟩, (ofInt_eq_iff hmin hmax).2 hv⟩

theorem readSigned_minus_eq_ok_iff {v : Int64} :
    (readSigned Int64.minValue.toInt.natAbs overflow cs).map (fun n => Int64.ofInt (-n)) = .ok v ↔
      IsDigits cs ∧ v.toInt = -(Decimal.valueOf cs : Int) := by
  have hmin : Int64.minValue.toInt = -9223372036854775808 := rfl
  have hmax : Int64.maxValue.toInt = 9223372036854775807 := rfl
  exact map_readSigned_eq_ok_iff fun n => by omega

theorem readSigned_plus_eq_ok_iff {v : Int64} :
    (readSigned Int64.maxValue.toInt.natAbs overflow cs).map (fun n => Int64.ofInt n) = .ok v ↔
      IsDigits cs ∧ v.toInt = Decimal.valueOf cs := by
  have hmin : Int64.minValue.toInt = -9223372036854775808 := rfl
  have hmax : Int64.maxValue.toInt = 9223372036854775807 := rfl
  have h : ∀ n : Nat, n ≤ Int64.maxValue.toInt.natAbs ↔
      Int64.minValue.toInt ≤ (n : Int) ∧ (n : Int) ≤ Int64.maxValue.toInt := fun n => by omega
  exact map_readSigned_eq_ok_iff h

theorem readInt64_eq_ok_iff {s : String} {v : Int64} :
    readInt64 s = .ok v ↔ Numeral s.toList v.toInt := by
  unfold readInt64
  split
  · rename_i hs
    rw [hs, numeral_unsigned_iff (by simp) (by simp)]
    simp [IsDigits]
  · rename_i cs hs
    rw [hs, numeral_minus_iff]
    exact readSigned_minus_eq_ok_iff
  · rename_i cs hs
    rw [hs, numeral_plus_iff]
    exact readSigned_plus_eq_ok_iff
  · rename_i hne hminus hplus
    have hunsigned : readMagnitude Int64.maxValue.toInt.natAbs .tooLarge 0 s.toList =
        readSigned Int64.maxValue.toInt.natAbs .tooLarge s.toList := by
      rw [readSigned, if_neg (by simpa using hne)]
    rw [hunsigned, numeral_unsigned_iff hminus hplus]
    exact readSigned_plus_eq_ok_iff

theorem readSigned_unsigned_eq_ok_iff {n : UInt64} :
    (readSigned (UInt64.size - 1) overflow cs).map UInt64.ofNat = .ok n ↔
      IsDigits cs ∧ (n.toNat : Int) = Decimal.valueOf cs := by
  refine (map_eq_ok_iff (x := readSigned _ _ _)).trans ?_
  simp only [readSigned_eq_ok_iff]
  have hsize : UInt64.size = 2 ^ 64 := rfl
  constructor
  · rintro ⟨m, ⟨hcs, rfl, hle⟩, rfl⟩
    rw [UInt64.toNat_ofNat_of_lt' (by omega)]
    exact ⟨hcs, rfl⟩
  · rintro ⟨hcs, hn⟩
    have hvalue : n.toNat = Decimal.valueOf cs := Int.ofNat.inj hn
    have hlt := n.toNat_lt
    exact ⟨_, ⟨hcs, rfl, by omega⟩, by rw [← hvalue, UInt64.ofNat_toNat]⟩

theorem readUInt64_eq_ok_iff {s : String} {n : UInt64} :
    readUInt64 s = .ok n ↔ Numeral s.toList n.toNat ∧ s.toList.head? ≠ some '-' := by
  unfold readUInt64
  split
  · rename_i hs
    rw [hs]
    exact iff_of_false nofun fun h => not_numeral_nil h.1
  · rename_i cs hs
    rw [hs, readSigned_unsigned_eq_ok_iff, numeral_plus_iff]
    simp
  · rename_i hne hplus
    have hunsigned : readMagnitude (UInt64.size - 1) .tooLarge 0 s.toList =
        readSigned (UInt64.size - 1) .tooLarge s.toList := by
      rw [readSigned, if_neg (by simpa using hne)]
    rw [hunsigned, readSigned_unsigned_eq_ok_iff]
    by_cases hminus : s.toList.head? = some '-'
    · obtain ⟨cs, hs⟩ := List.head?_eq_some_iff.1 hminus
      refine iff_of_false (fun h => ?_) fun h => h.2 hminus
      cases h.1.2 '-' (by simp [hs])
    · rw [numeral_unsigned_iff (fun ds hs => hminus (by rw [hs]; rfl)) hplus]
      exact (and_iff_left hminus).symm

end DerivedSeries.Text
