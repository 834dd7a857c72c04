import DerivedSeries.Proofs.Binary64.Packing

/-!
# The order of doubles

Comparison of doubles, NaN apart, is a total preorder in which the two zeros are equal. It is the
lexicographic order of keys (`lt_iff`, `beq_iff`), and so inherits its laws from lists of integers.
A double made of an integer is no NaN (`isNaN_ofInt`).
-/

namespace DerivedSeries.Binary64

open Float.Model Float.Model.UnpackedFloat

/-- What orders a double that is no NaN: its sign and kind, its exponent, its mantissa. -/
def keyOf : UnpackedFloat → List Int
  | .infinity .negative => [-2]
  | .finite .negative m e _ => [-1, -e, -m]
  | .zero _ | .notANumber => [0]
  | .finite .positive m e _ => [1, e, m]
  | .infinity .positive => [2]

def key (x : Float) : List Int := keyOf x.toModel.unpack

theorem compare_triple (k e f m n : Int) :
    compare [k, e, m] [k, f, n] = (compare e f).then (compare m n) := by
  simp only [List.compare_cons_cons, Std.ReflOrd.compare_self]
  cases compare e f <;> cases compare m n <;> rfl

theorem compare_neg (m n : Int) : compare (-m) (-n) = (compare m n).swap := by
  rw [Int.compare_eq_ite_lt, Int.compare_eq_ite_lt]
  rcases Int.lt_trichotomy m n with h | rfl | h
  · rw [if_neg (by omega), if_pos (by omega), if_pos h]
    rfl
  · simp
  · rw [if_pos (by omega), if_neg (by omega), if_pos h]
    rfl

theorem compare_natCast (m n : Nat) : compare (m : Int) n = compare m n := by
  rw [Int.compare_eq_ite_lt, Nat.compare_eq_ite_lt]
  simp only [Int.ofNat_lt]

theorem compare_eq_keyOf {x y : UnpackedFloat} (hx : x.isNaN = false) (hy : y.isNaN = false) :
    x.compare y = some (compare (keyOf x) (keyOf y)) := by
  cases x with
  | notANumber => cases hx
  | infinity s =>
    cases s <;> rcases y with (_ | _) | _ | _ | ⟨_ | _, n, f, hn⟩ <;> first | rfl | cases hy
  | zero s =>
    rcases y with (_ | _) | _ | _ | ⟨_ | _, n, f, hn⟩ <;> first | rfl | cases hy
  | finite s m e hm =>
    cases y with
    | notANumber => cases hy
    | infinity t => cases s <;> cases t <;> rfl
    | zero t => cases s <;> rfl
    | finite t n f hn =>
      cases s with
      | negative =>
        cases t with
        | positive => rfl
        | negative =>
          show some ((compare e f).then (compare m n)).swap =
            some (compare [-1, -e, -(m : Int)] [-1, -f, -(n : Int)])
          rw [compare_triple, compare_neg, compare_neg, compare_natCast, Ordering.swap_then]
      | positive =>
        cases t with
        | negative => rfl
        | positive =>
          show some ((compare e f).then (compare m n)) =
            some (compare [1, e, (m : Int)] [1, f, (n : Int)])
          rw [compare_triple, compare_natCast]

section
variable {x y : Float}

theorem lt_iff (hx : x.isNaN = false) (hy : y.isNaN = false) :
    x < y ↔ compare (key x) (key y) = .lt := by
  have h : x < y ↔ x.toModel.unpack.compare y.toModel.unpack = some .lt := by
    show decide ((x.toModel.unpack.compare y.toModel.unpack == some .lt) = true) = true ↔ _
    rw [decide_eq_true_iff, beq_iff_eq]
  rw [h, compare_eq_keyOf hx hy, Option.some.injEq, key, key]

theorem le_iff (hx : x.isNaN = false) (hy : y.isNaN = false) :
    x ≤ y ↔ (compare (key x) (key y)).isLE = true := by
  have h : x ≤ y ↔ (x.toModel.unpack.compare y.toModel.unpack).any (·.isLE) = true := by
    show decide (Option.any _ _ = true) = true ↔ _
    rw [decide_eq_true_iff]
  rw [h, compare_eq_keyOf hx hy, Option.any_some, key, key]

theorem beq_iff (hx : x.isNaN = false) (hy : y.isNaN = false) :
    (x == y) = true ↔ compare (key x) (key y) = .eq := by
  have h : (x == y) = true ↔ x.toModel.unpack.compare y.toModel.unpack = some .eq := by
    show (x.toModel.unpack.compare y.toModel.unpack == some .eq) = true ↔ _
    rw [beq_iff_eq]
  rw [h, compare_eq_keyOf hx hy, Option.some.injEq, key, key]

theorem le_refl (hx : x.isNaN = false) : x ≤ x := by
  rw [le_iff hx hx, Std.ReflOrd.compare_self]
  rfl

theorem le_trans {z : Float} (hx : x.isNaN = false) (hy : y.isNaN = false) (hz : z.isNaN = false)
    (hxy : x ≤ y) (hyz : y ≤ z) : x ≤ z := by
  rw [le_iff hx hy] at hxy
  rw [le_iff hy hz] at hyz
  rw [le_iff hx hz]
  exact Std.TransOrd.isLE_trans hxy hyz

theorem not_lt (hx : x.isNaN = false) (hy : y.isNaN = false) : ¬ x < y ↔ y ≤ x := by
  rw [lt_iff hx hy, le_iff hy hx, Std.OrientedOrd.eq_swap (a := key x)]
  cases compare (key y) (key x) <;> simp

theorem le_of_lt (hx : x.isNaN = false) (hy : y.isNaN = false) (h : x < y) : x ≤ y := by
  rw [lt_iff hx hy] at h
  rw [le_iff hx hy, h]
  rfl

/-- The greater of two numbers is one of them, and neither exceeds it. -/
theorem greater_spec (hx : x.isNaN = false) (hy : y.isNaN = false) :
    (greater x y = x ∨ greater x y = y) ∧ x ≤ greater x y ∧ y ≤ greater x y := by
  have hg : greater x y = if x < y then y else x := by
    unfold greater
    simp only [hx, hy, Bool.false_eq_true, if_false]
  rw [hg]
  by_cases h : x < y
  · rw [if_pos h]
    exact ⟨.inr rfl, le_of_lt hx hy h, le_refl hy⟩
  · rw [if_neg h]
    exact ⟨.inl rfl, le_refl hx, (not_lt hx hy).1 h⟩

end

theorem isNaN_round (sign : Sign) (m : Nat) (e : Int) :
    (UnpackedFloat.round .binary64 sign m e).isNaN = false := by
  unfold UnpackedFloat.round roundWithAccuracy
  simp only
  split <;> rfl

theorem isNaN_ofInt (n : Int) : (ofInt n).isNaN = false := by
  refine isNaN_pack ?_
  unfold UnpackedFloat.ofInt UnpackedFloat.normalize
  split
  · exact isNaN_round ..
  · rfl
  · exact isNaN_round ..

end DerivedSeries.Binary64
