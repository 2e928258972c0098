import BenchLedger.Decimal.Binary64
import Mathlib

/-!
# Numbers and their magnitudes

A number is the number with its own sign and magnitude, and a magnitude up to infinity is that of
its number.  The finite numbers are those whose magnitudes come before infinity.
-/

namespace BenchLedger.Decimal

open Float.Model (UnpackedFloat Format)

theorem toNat_unpackExponent (b : BitVec Format.binary64.numBits) :
    (UnpackedFloat.unpackExponent b).toNat = b.toNat / 2 ^ 52 % 2 ^ 11 := by
  rw [UnpackedFloat.unpackExponent_def, BitVec.extractLsb'_toNat, Nat.shiftRight_eq_div_pow]

theorem toNat_unpackMantissa (b : BitVec Format.binary64.numBits) :
    (UnpackedFloat.unpackMantissa b).toNat = b.toNat % 2 ^ 52 := by
  rw [UnpackedFloat.unpackMantissa_def, BitVec.extractLsb'_toNat, Nat.shiftRight_zero]

-- The bits of a magnitude up to infinity are those of a number, with either sign.
theorem isNaNBits_ofNat {k : ℕ} (hk : k % 0x8000000000000000 ≤ infinityIndex) :
    UnpackedFloat.isNaNBits (BitVec.ofNat Format.binary64.numBits k) = false := by
  unfold infinityIndex at hk
  refine decide_eq_false fun ⟨hexponent, hmantissa⟩ => hmantissa ?_
  have hones : k % 2 ^ 64 / 2 ^ 52 % 2 ^ 11 = 2047 := by
    have hexponent := congrArg BitVec.toNat hexponent
    rwa [toNat_unpackExponent, BitVec.toNat_ofNat] at hexponent
  refine BitVec.eq_of_toNat_eq ?_
  rw [toNat_unpackMantissa, BitVec.toNat_ofNat]
  show k % 2 ^ 64 % 2 ^ 52 = 0
  omega

section OfIndex

variable {k : ℕ} (negative : Bool)

theorem toNat_toBits_ofIndex (hk : k ≤ infinityIndex) : (ofIndex negative k).toBits.toNat =
    (if negative then 0x8000000000000000 else 0) + k := by
  unfold ofIndex
  generalize hbits : (if negative then 0x8000000000000000 else 0) + k = bits
  unfold infinityIndex at hk
  have hmod : bits % 0x8000000000000000 = k ∧ bits < 2 ^ 64 := by
    cases negative <;> simp at hbits <;> omega
  have hpack := UnpackedFloat.pack_unpack (BitVec.ofNat Format.binary64.numBits bits)
  rw [isNaNBits_ofNat (hmod.1.trans_le hk)] at hpack
  show ((UnpackedFloat.unpack .binary64 (BitVec.ofNat 64 bits)).pack .binary64).toNat = bits
  refine (congrArg BitVec.toNat hpack).trans ?_
  show bits % 2 ^ 64 = bits
  omega

theorem isNegative_ofIndex (hk : k ≤ infinityIndex) :
    isNegative (ofIndex negative k) = negative := by
  unfold isNegative
  rw [toNat_toBits_ofIndex negative hk]
  unfold infinityIndex at hk
  cases negative <;> simp
  omega

theorem magnitudeIndex_ofIndex (hk : k ≤ infinityIndex) :
    magnitudeIndex (ofIndex negative k) = k := by
  unfold magnitudeIndex
  rw [toNat_toBits_ofIndex negative hk]
  unfold infinityIndex at hk
  cases negative <;> simp <;> omega

end OfIndex

theorem ofIndex_magnitudeIndex (x : Float) : ofIndex (isNegative x) (magnitudeIndex x) = x := by
  have hlt := x.toBits.toNat_lt
  have hbits : (if isNegative x then 0x8000000000000000 else 0) + magnitudeIndex x =
      x.toBits.toNat := by
    unfold isNegative magnitudeIndex
    simp only [decide_eq_true_eq]
    split <;> omega
  unfold ofIndex
  rw [hbits, UInt64.ofNat_toNat, Float.ofBits_toBits]

-- The greatest exponent is that of infinity and of what is not a number.
theorem unpackExponent_ne_of_isFinite {b : BitVec Format.binary64.numBits}
    (h : (UnpackedFloat.unpack .binary64 b).isFinite = true) :
    (UnpackedFloat.unpackExponent b).toNat ≠ 2047 := by
  intro hones
  have hones : UnpackedFloat.unpackExponent b = -1#11 := BitVec.eq_of_toNat_eq hones
  unfold UnpackedFloat.unpack at h
  dsimp only at h
  rw [if_pos hones] at h
  split at h <;> exact nomatch h

theorem isFinite_unpack {b : BitVec Format.binary64.numBits}
    (h : (UnpackedFloat.unpackExponent b).toNat ≠ 2047) :
    (UnpackedFloat.unpack .binary64 b).isFinite = true := by
  have hones : UnpackedFloat.unpackExponent b ≠ -1#11 :=
    fun hones => h (congrArg BitVec.toNat hones)
  unfold UnpackedFloat.unpack
  dsimp only
  rw [if_neg hones]
  split
  · split <;> rfl
  · rfl

theorem isInf_unpack {b : BitVec Format.binary64.numBits}
    (hexponent : (UnpackedFloat.unpackExponent b).toNat = 2047)
    (hmantissa : (UnpackedFloat.unpackMantissa b).toNat = 0) :
    (UnpackedFloat.unpack .binary64 b).isInf = true := by
  have hones : UnpackedFloat.unpackExponent b = -1#11 := BitVec.eq_of_toNat_eq hexponent
  have hzeros : UnpackedFloat.unpackMantissa b = 0#52 := BitVec.eq_of_toNat_eq hmantissa
  unfold UnpackedFloat.unpack
  dsimp only
  rw [if_pos hones, if_pos hzeros]
  rfl

section Finite

variable {x : Float}

theorem magnitudeIndex_lt_of_isFinite (h : x.isFinite = true) :
    magnitudeIndex x < infinityIndex := by
  have hexponent := unpackExponent_ne_of_isFinite h
  rw [toNat_unpackExponent] at hexponent
  have hexponent : x.toBits.toNat / 2 ^ 52 % 2 ^ 11 ≠ 2047 := hexponent
  have hlt := x.toBits.toNat_lt
  unfold magnitudeIndex infinityIndex
  omega

theorem isFinite_of_magnitudeIndex_lt (h : magnitudeIndex x < infinityIndex) :
    x.isFinite = true := by
  refine isFinite_unpack ?_
  rw [toNat_unpackExponent]
  show x.toBits.toNat / 2 ^ 52 % 2 ^ 11 ≠ 2047
  unfold magnitudeIndex infinityIndex at h
  omega

theorem isInf_of_magnitudeIndex_eq (h : magnitudeIndex x = infinityIndex) : x.isInf = true := by
  unfold magnitudeIndex infinityIndex at h
  refine isInf_unpack ?_ ?_
  · rw [toNat_unpackExponent]
    show x.toBits.toNat / 2 ^ 52 % 2 ^ 11 = 2047
    omega
  · rw [toNat_unpackMantissa]
    show x.toBits.toNat % 2 ^ 52 = 0
    omega

theorem isNaN_and_isInf_of_isFinite (h : x.isFinite = true) :
    x.isNaN = false ∧ x.isInf = false := by
  have hfinite : x.toModel.unpack.isFinite = true := h
  show x.toModel.unpack.isNaN = false ∧ x.toModel.unpack.isInf = false
  cases hx : x.toModel.unpack with
  | notANumber =>
    rw [hx] at hfinite
    exact nomatch hfinite
  | infinity sign =>
    rw [hx] at hfinite
    exact nomatch hfinite
  | zero sign => exact ⟨rfl, rfl⟩
  | finite sign mantissa exponent => exact ⟨rfl, rfl⟩

end Finite

/-- Of the two zeros the positive one is not negative. -/
theorem eq_zero_of_beq_zero {x : Float} (h : isNegative x = false) (hzero : (x == 0) = true) :
    x = 0 := by
  obtain ⟨-, -, heq | ⟨heq, -⟩ | ⟨heq, -⟩⟩ := Float.beq_iff_ne_nan_and_eq.1 hzero
  · exact heq
  · exact heq
  · rw [heq] at h
    exact absurd h (by decide +kernel)

end BenchLedger.Decimal
