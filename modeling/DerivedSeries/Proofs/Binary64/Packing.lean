import Mathlib
import DerivedSeries.Binary64

/-!
# Packing doubles

An operation on doubles unpacks its operands, computes, and packs the result. Unpacking loses
nothing (`pack_unpack_toModel`), so an operation that hands an operand on returns that very operand, and
packing makes no NaN (`isNaN_pack`) and changes no number of 53 bits (`unpack_pack`) and no lesser one at the
least exponent (`unpack_pack_subnormal`). What is unpacked is canonical (`canonical_of_unpack`): it has 53
bits, or fewer at the least exponent.
-/

namespace DerivedSeries.Binary64

open Float.Model Float.Model.UnpackedFloat

theorem pack_unpack_toModel (x : Float) : Float.Model.pack x.toModel.unpack = x.toModel := by
  cases h : x.toModel with
  | mk bits hvalid =>
    simp only [Float.Model.pack, Float.Model.unpack, pack_unpack_of_valid hvalid]

/-! ## Negative zero -/

/-- Negative zero is neutral on the left. -/
theorem negativeZero_add (x : Float) : negativeZero + x = x := by
  have hz : negativeZero.toModel.unpack = .zero .negative := rfl
  have hadd : UnpackedFloat.add .binary64 (.zero .negative) x.toModel.unpack =
      x.toModel.unpack := by
    cases x.toModel.unpack with
    | zero s => cases s <;> rfl
    | _ => rfl
  show Float.ofModel (Float.Model.pack
    (UnpackedFloat.add .binary64 negativeZero.toModel.unpack x.toModel.unpack)) = x
  rw [hz, hadd, pack_unpack_toModel]

/-! ## NaN -/

/-- A word is a NaN only if its exponent is all ones and its mantissa is not zero. -/
theorem isNaN_unpack_packComponents {s : Sign} {e : BitVec 11} {m : BitVec 52}
    (h : e ≠ -1#11 ∨ m = 0#52) :
    (UnpackedFloat.unpack .binary64 (packComponents .binary64 s e m)).isNaN = false := by
  unfold UnpackedFloat.unpack
  simp only [unpackMantissa_packComponents, unpackExponent_packComponents]
  split
  · rename_i he
    rw [if_pos (h.resolve_left fun hne => hne he)]
    rfl
  · split
    · split <;> rfl
    · rfl

theorem isNaN_pack {f : UnpackedFloat} (h : f.isNaN = false) :
    (Float.Model.pack f).isNaN = false := by
  show (UnpackedFloat.unpack .binary64 (UnpackedFloat.pack .binary64 f)).isNaN = false
  have hinf : ∀ s, (UnpackedFloat.unpack .binary64 (packedInfinity .binary64 s)).isNaN = false :=
    fun s => isNaN_unpack_packComponents (.inr rfl)
  cases f with
  | notANumber => cases h
  | infinity s => exact hinf s
  | zero s => exact isNaN_unpack_packComponents (.inr rfl)
  | finite s m e hm =>
    unfold UnpackedFloat.pack
    simp only
    split
    · exact hinf s
    rename_i hle
    have hlt := Nat.not_le.1 hle
    split
    · refine isNaN_unpack_packComponents (.inl fun he => ?_)
      have he := congrArg BitVec.toNat he
      rw [BitVec.toNat_ofNat, Nat.mod_eq_of_lt (Nat.lt_of_succ_lt hlt)] at he
      rw [he] at hlt
      exact absurd hlt (by decide)
    · exact isNaN_unpack_packComponents (.inl (by decide))

/-! ## Normal numbers -/

theorem unpackSign_packComponents (s : Sign) (e : BitVec 11) (m : BitVec 52) :
    unpackSign (packComponents .binary64 s e m) = s.toBitVec := by
  show (s.toBitVec ++ e ++ m).extractLsb' 63 1 = s.toBitVec
  rw [BitVec.extractLsb'_append_eq_of_le (by decide),
    BitVec.extractLsb'_append_eq_of_le (by decide)]
  cases s <;> rfl

/-- A word whose exponent is neither all zeros nor all ones has a leading bit that it does not store. -/
theorem unpack_packComponents {s : Sign} {e : BitVec 11} {m : BitVec 52} (h₀ : e ≠ 0#11)
    (h₁ : e ≠ -1#11) :
    ∃ h, UnpackedFloat.unpack .binary64 (packComponents .binary64 s e m) =
      .finite s (2 ^ 52 + m.toNat) (e.toNat - 1075) h := by
  have hsign : Sign.ofBitVec s.toBitVec = s := by cases s <;> rfl
  have hlead : (1#1 ++ m).toNat = 2 ^ 52 + m.toNat := by
    rw [BitVec.toNat_append, ← Nat.shiftLeft_add_eq_or_of_lt m.isLt]
    rfl
  refine ⟨by omega, ?_⟩
  unfold UnpackedFloat.unpack
  simp only [unpackMantissa_packComponents, unpackExponent_packComponents,
    unpackSign_packComponents, hsign, hlead]
  rw [if_neg h₁, if_neg h₀]
  rfl

/-- A number of 53 bits within the range of exponents is packed without loss. -/
theorem unpack_pack {s : Sign} {a : Nat} {e : Int} (ha : 0 < a) (hlo : 2 ^ 52 ≤ a)
    (hhi : a < 2 ^ 53) (hmin : -1074 ≤ e) (hmax : e ≤ 971) :
    (Float.Model.pack (.finite s a e ha)).unpack = .finite s a e ha := by
  have hlog : a.log2 = 52 := (Nat.log2_eq_iff ha.ne').2 ⟨hlo, hhi⟩
  have hbiased : (e + Format.exponentBias .binary64 + (52 : Nat)).toNat = (e + 1075).toNat := by
    rw [show (Format.exponentBias .binary64 : Int) = 1023 by decide]
    omega
  have hexp : (BitVec.ofNat 11 (e + 1075).toNat).toNat = (e + 1075).toNat := by
    rw [BitVec.toNat_ofNat, Nat.mod_eq_of_lt (by omega)]
  have hzero : BitVec.ofNat 11 (e + 1075).toNat ≠ 0#11 := by
    rw [Ne, ← BitVec.toNat_inj, hexp]
    show ¬ (e + 1075).toNat = 0
    omega
  have hones : BitVec.ofNat 11 (e + 1075).toNat ≠ -1#11 := by
    rw [Ne, ← BitVec.toNat_inj, hexp]
    show ¬ (e + 1075).toNat = 2047
    omega
  have hpack : UnpackedFloat.pack .binary64 (.finite s a e ha) =
      packComponents .binary64 s (BitVec.ofNat 11 (e + 1075).toNat) (BitVec.ofNat 52 a) := by
    have hfits : ¬ 2 ^ 11 ≤ (e + 1075).toNat + 1 := by omega
    unfold UnpackedFloat.pack
    simp only [hbiased, hlog]
    rw [if_neg hfits]
    exact if_pos rfl
  obtain ⟨h, hunpack⟩ := unpack_packComponents (s := s) (m := BitVec.ofNat 52 a) hzero hones
  show UnpackedFloat.unpack .binary64 (UnpackedFloat.pack .binary64 (.finite s a e ha)) = _
  rw [hpack, hunpack, UnpackedFloat.finite.injEq, hexp, BitVec.toNat_ofNat]
  exact ⟨rfl, by omega, by omega⟩

/-! ## Numbers that are not normal -/

/-- A word whose exponent is all zeros has no bit that it does not store. -/
theorem unpack_packComponents_zero {s : Sign} {m : BitVec 52} (hm : m ≠ 0#52) :
    ∃ h, UnpackedFloat.unpack .binary64 (packComponents .binary64 s 0#11 m) =
      .finite s m.toNat (-1074) h := by
  have hsign : Sign.ofBitVec s.toBitVec = s := by cases s <;> rfl
  have hpos : 0 < m.toNat := Nat.pos_of_ne_zero fun h => hm (BitVec.eq_of_toNat_eq h)
  refine ⟨hpos, ?_⟩
  unfold UnpackedFloat.unpack
  simp only [unpackMantissa_packComponents, unpackExponent_packComponents,
    unpackSign_packComponents, hsign]
  rw [if_neg (by decide), if_pos trivial, dif_neg hm]
  rfl

/-- A number of fewer than 53 bits at the least exponent is packed without loss. -/
theorem unpack_pack_subnormal {s : Sign} {a : Nat} (ha : 0 < a) (hlt : a < 2 ^ 52) :
    (Float.Model.pack (.finite s a (-1074) ha)).unpack = .finite s a (-1074) ha := by
  have hlog : a.log2 < 52 := (Nat.log2_lt ha.ne').2 hlt
  have htoNat : (BitVec.ofNat 52 a).toNat = a := by
    rw [BitVec.toNat_ofNat, Nat.mod_eq_of_lt hlt]
  have hne : BitVec.ofNat 52 a ≠ 0#52 := by
    rw [Ne, ← BitVec.toNat_inj, htoNat]
    exact ha.ne'
  have hpack : UnpackedFloat.pack .binary64 (.finite s a (-1074) ha) =
      packComponents .binary64 s 0#11 (BitVec.ofNat 52 a) := by
    have hbiased : ((-1074 : Int) + Format.exponentBias .binary64 + (52 : Nat)).toNat = 1 := by decide
    have hbits : a.log2 + 1 ≠ Format.binary64.mantissaBits := by
      show a.log2 + 1 ≠ 53
      omega
    unfold UnpackedFloat.pack
    simp only [hbiased]
    rw [if_neg (by decide), if_neg hbits]
  obtain ⟨h, hunpack⟩ := unpack_packComponents_zero (s := s) hne
  show UnpackedFloat.unpack .binary64 (UnpackedFloat.pack .binary64 (.finite s a (-1074) ha)) = _
  rw [hpack, hunpack, UnpackedFloat.finite.injEq]
  exact ⟨rfl, htoNat, rfl⟩

/-- A number above the range of exponents is packed as an infinity. -/
theorem unpack_pack_infinity {s : Sign} {a : Nat} {e : Int} (ha : 0 < a) (he : 971 < e) :
    (Float.Model.pack (.finite s a e ha)).unpack = .infinity s := by
  have hpack : UnpackedFloat.pack .binary64 (.finite s a e ha) = packedInfinity .binary64 s := by
    have hbias : (Format.exponentBias .binary64 : Int) = 1023 := by decide
    unfold UnpackedFloat.pack
    simp only
    rw [if_pos]
    show 2 ^ 11 ≤ (e + Format.exponentBias .binary64 + (52 : Nat)).toNat + 1
    omega
  show UnpackedFloat.unpack .binary64 (UnpackedFloat.pack .binary64 (.finite s a e ha)) = _
  rw [hpack]
  cases s <;> rfl

/-! ## The bounds of the format -/

/-- A finite double is subnormal, at the least exponent, or has a significand of 53 bits exactly. -/
theorem canonical_of_unpack {x : Float} {s : Sign} {m : Nat} {e : Int} {hm : 0 < m}
    (h : x.toModel.unpack = .finite s m e hm) :
    m < 2 ^ 52 ∧ e = -1074 ∨ (2 ^ 52 ≤ m ∧ m < 2 ^ 53) ∧ -1074 ≤ e ∧ e ≤ 971 := by
  have hbias : (Format.exponentBias .binary64 : Int) +
      Format.mantissaBitsWithoutImplicit .binary64 = 1075 := by decide
  have hlead (v : BitVec 52) : 2 ^ 52 ≤ (1#1 ++ v).toNat ∧ (1#1 ++ v).toNat < 2 ^ 53 := by
    refine ⟨?_, (1#1 ++ v).isLt⟩
    rw [BitVec.toNat_append]
    exact Nat.left_le_or
  unfold Float.Model.unpack UnpackedFloat.unpack at h
  simp only [hbias] at h
  split at h
  · split at h <;> cases h
  rename_i hones
  have hones := mt BitVec.eq_of_toNat_eq hones
  split at h
  · rename_i hzero
    rw [hzero] at h
    split at h <;> cases h
    exact .inl ⟨BitVec.isLt _, rfl⟩
  · rename_i hzero
    have hzero := mt BitVec.eq_of_toNat_eq hzero
    cases h
    refine .inr ⟨hlead _, ?_⟩
    have hlt := (@unpackExponent .binary64 x.toModel.toBits.toBitVec).isLt
    generalize (@unpackExponent .binary64 x.toModel.toBits.toBitVec).toNat = n at *
    have hlt : n < 2048 := hlt
    have hones : n ≠ 2047 := hones
    have hzero : n ≠ 0 := hzero
    omega

/-- The significand and the exponent of a double are within the bounds of the format. -/
theorem bounds_of_unpack {x : Float} {s : Sign} {m : Nat} {e : Int} {hm : 0 < m}
    (h : x.toModel.unpack = .finite s m e hm) : m < 2 ^ 53 ∧ -1074 ≤ e ∧ e ≤ 971 := by
  have hcanonical := canonical_of_unpack h
  omega

end DerivedSeries.Binary64
