/-!
# Integers as words

Integers are computed without bounds and kept as signed 64-bit words, so a result out of range is
a case of its own and nothing wraps around.
-/

namespace DerivedSeries

/-- The word of an integer, if the integer lies in the signed 64-bit range. -/
def int64? (n : Int) : Option Int64 :=
  if Int64.minValue.toInt ≤ n ∧ n ≤ Int64.maxValue.toInt then some (Int64.ofInt n) else none

theorem int64?_eq_some_iff {n : Int} {v : Int64} : int64? n = some v ↔ v.toInt = n := by
  unfold int64?
  constructor
  · intro h
    split at h
    · rename_i hn
      cases h
      exact Int64.toInt_ofInt_of_le hn.1 (Int.lt_add_one_of_le hn.2)
    · cases h
  · rintro rfl
    rw [if_pos ⟨v.minValue_le_toInt, v.toInt_le⟩, Int64.ofInt_toInt]

@[simp] theorem int64?_toInt (v : Int64) : int64? v.toInt = some v :=
  int64?_eq_some_iff.2 rfl

/-- Every word but the least has an opposite. -/
theorem toInt_neg_of_ne_minValue {v : Int64} (h : v ≠ Int64.minValue) : (-v).toInt = -v.toInt := by
  have hne : v.toInt ≠ Int64.minValue.toInt := fun he => h (Int64.toInt_inj.1 he)
  have hle := v.minValue_le_toInt
  have hlt := v.toInt_le
  have hmin : Int64.minValue.toInt = -9223372036854775808 := rfl
  have hmax : Int64.maxValue.toInt = 9223372036854775807 := rfl
  have hneg : -v = Int64.ofInt (-v.toInt) := by rw [← Int64.neg_ofInt, Int64.ofInt_toInt]
  rw [hneg]
  exact Int64.toInt_ofInt_of_le (by omega) (by omega)

end DerivedSeries
