import Mathlib
import DerivedSeries.Word

/-!
# The range of words

An integer fits if it is the value of a word (`fits_iff`). One that does not is clamped to the nearer limit
of the range (`clamp`), as the core library does on the way to a word (`toInt_ofIntClamp`).
-/

namespace DerivedSeries

/-- The integer lies in the signed 64-bit range. -/
def Fits (n : Int) : Prop :=
  Int64.minValue.toInt ≤ n ∧ n ≤ Int64.maxValue.toInt

instance (n : Int) : Decidable (Fits n) :=
  inferInstanceAs (Decidable (_ ∧ _))

theorem fits_toInt (v : Int64) : Fits v.toInt :=
  ⟨v.minValue_le_toInt, v.toInt_le⟩

theorem fits_iff {n : Int} : Fits n ↔ ∃ v : Int64, v.toInt = n := by
  constructor
  · rintro ⟨hmin, hmax⟩
    exact ⟨Int64.ofInt n, Int64.toInt_ofInt_of_le hmin (Int.lt_add_one_of_le hmax)⟩
  · rintro ⟨v, rfl⟩
    exact fits_toInt v

theorem not_fits_iff {n : Int} : ¬ Fits n ↔ n < -2 ^ 63 ∨ 2 ^ 63 ≤ n := by
  have hmin := Int64.toInt_minValue
  have hmax := Int64.toInt_maxValue
  unfold Fits
  omega

theorem natAbs_toInt_le (v : Int64) : v.toInt.natAbs ≤ 2 ^ 63 := by
  have hlo := v.le_toInt
  have hhi := v.toInt_lt
  omega

theorem int64?_eq_none_iff {n : Int} : int64? n = none ↔ ¬ Fits n := by
  unfold int64? Fits
  split <;> simp_all

/-- The integer of the range that is nearest. -/
def clamp (n : Int) : Int :=
  max Int64.minValue.toInt (min n Int64.maxValue.toInt)

theorem clamp_of_fits {n : Int} (h : Fits n) : clamp n = n := by
  rw [clamp, Int.min_eq_left h.2, Int.max_eq_right h.1]

theorem clamp_le_clamp {m n : Int} (h : m ≤ n) : clamp m ≤ clamp n := by
  unfold clamp
  omega

theorem toInt_ofIntClamp (n : Int) : (Int64.ofIntClamp n).toInt = clamp n := by
  unfold Int64.ofIntClamp clamp
  have hle : Int64.minValue.toInt ≤ Int64.maxValue.toInt := by decide
  split
  · split
    · rw [Int64.toInt_ofIntLE]
      omega
    · omega
  · omega

end DerivedSeries
