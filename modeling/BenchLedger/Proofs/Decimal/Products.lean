import BenchLedger.Proofs.Decimal.Values

/-!
# Products and the order

A product with a factor that is not negative grows with the other factor, also where it overflows
and where the first factor is infinite.  Comparisons with what is not a number are false.
-/

namespace BenchLedger.Decimal

open Float.Model (UnpackedFloat Format)
open Float.Model.UnpackedFloat (Sign)

variable {x y : Float}

theorem not_lt_zero_iff (h : x.isNaN = false) : ¬x < 0 ↔ 0 ≤ position x := by
  have hzero : position 0 = 0 := by decide
  have hnumbers : x.isNaN = false ∧ (0 : Float).isNaN = false := ⟨h, by decide⟩
  rw [lt_iff, and_iff_right hnumbers, hzero, Int.not_lt]

/-- Of the numbers that are not below zero only the negative zero has a sign. -/
theorem isNegative_iff_of_not_lt_zero (hnan : x.isNaN = false) (h : ¬x < 0) :
    isNegative x = true ↔ x = -0 := by
  constructor
  · intro hneg
    have hposition : position x = -(magnitudeIndex x : ℤ) := if_pos hneg
    have hnonneg := (not_lt_zero_iff hnan).1 h
    have hindex : magnitudeIndex x = 0 := by omega
    have hzero : ofIndex true 0 = -0 := by decide +kernel
    rw [← ofIndex_magnitudeIndex x, hneg, hindex, hzero]
  · rintro rfl
    decide +kernel

theorem mul_eq_pack (x y : Float) : x * y =
    .ofModel (.pack (UnpackedFloat.mul .binary64 x.toModel.unpack y.toModel.unpack)) :=
  rfl

theorem isNaN_pack : (Float.ofModel (.pack .notANumber)).isNaN = true := by
  decide

theorem isNaN_of_mul (h : (x * y).isNaN = false) : x.isNaN = false := by
  by_contra hnan
  have hx : x.toModel.unpack = .notANumber :=
    UnpackedFloat.isNaN_iff.1 (Bool.eq_true_of_not_eq_false hnan)
  have hmul (u : UnpackedFloat) : UnpackedFloat.mul .binary64 .notANumber u = .notANumber := by
    cases u <;> rfl
  rw [mul_eq_pack, hx, hmul, isNaN_pack] at h
  contradiction

section Infinity

variable (hx : position x = infinityIndex)

include hx

theorem isNaN_of_infinity : x.isNaN = false := by
  rw [isNaN_eq_false_iff, ← natAbs_position, hx]
  exact Nat.le_refl _

theorem eq_infinity : x = ofIndex false infinityIndex := by
  have hsign : isNegative x = false := by
    by_contra hneg
    rw [position, if_pos (by simpa using hneg)] at hx
    have hinfinity : (0 : ℤ) < infinityIndex := by decide
    omega
  have hindex : magnitudeIndex x = infinityIndex := by
    rw [← natAbs_position, hx, Int.natAbs_natCast]
  rw [← ofIndex_magnitudeIndex x, hsign, hindex]

theorem unpack_infinity : x.toModel.unpack = .infinity .positive := by
  rw [eq_infinity hx]
  rfl

-- The sign of the other factor decides.
theorem infinity_mul (hy : y.isNaN = false) :
    (position y = 0 → (x * y).isNaN = true) ∧
      (position y < 0 → position (x * y) = -infinityIndex) ∧
      (0 < position y → position (x * y) = infinityIndex) := by
  have hshows := shows_unpack hy
  have hinfinity : (0 : ℤ) < infinityIndex := by decide
  have hpositive : position (.ofModel (.pack (.infinity .positive))) = infinityIndex :=
    position_pack (u := .infinity .positive) rfl
  have hnegative : position (.ofModel (.pack (.infinity .negative))) = -infinityIndex :=
    position_pack (u := .infinity .negative) rfl
  rw [mul_eq_pack, unpack_infinity hx]
  cases hu : y.toModel.unpack with
  | notANumber =>
    rw [hu] at hshows
    exact hshows.elim
  | zero s =>
    rw [hu] at hshows
    have hy : position y = 0 := hshows
    exact ⟨fun _ => isNaN_pack, fun h => by omega, fun h => by omega⟩
  | infinity s =>
    rw [hu] at hshows
    cases s with
    | positive =>
      have hy : position y = infinityIndex := hshows
      exact ⟨fun h => by omega, fun h => by omega, fun _ => hpositive⟩
    | negative =>
      have hy : position y = -infinityIndex := hshows
      exact ⟨fun h => by omega, fun _ => hnegative, fun h => by omega⟩
  | finite s m e hm =>
    rw [hu] at hshows
    cases s with
    | positive =>
      have hy : 0 < position y := hshows.bounds.1
      exact ⟨fun h => by omega, fun h => by omega, fun _ => hpositive⟩
    | negative =>
      have hy : 0 < -position y := hshows.bounds.1
      exact ⟨fun h => by omega, fun _ => hnegative, fun h => by omega⟩

end Infinity

theorem isFinite_or_infinity (h : x.isNaN = false) (hpos : 0 ≤ position x) :
    x.isFinite = true ∨ position x = infinityIndex := by
  have hle := natAbs_position_le h
  rw [isFinite_iff, ← natAbs_position]
  omega

section Order

variable {c a b v : Float} (hc : 0 ≤ position c) (ha : a.isFinite = true)
  (hb : b.isFinite = true) (hab : position a ≤ position b)

include hc ha hb hab in
theorem position_mul_le_mul (hfinite : c.isFinite = true) :
    position (c * a) ≤ position (c * b) := by
  have hvalue := (value_le_value_iff (isNaN_of_isFinite ha) (isNaN_of_isFinite hb)).2 hab
  have hnonneg := (value_nonneg_iff (isNaN_of_isFinite hfinite)).2 hc
  rw [position_mul hfinite ha, position_mul hfinite hb]
  exact nearestPosition_mono (mul_le_mul_of_nonneg_left hvalue hnonneg)

theorem isNaN_mul_of_isFinite (hx : x.isFinite = true) (hy : y.isFinite = true) :
    (x * y).isNaN = false :=
  isNaN_of_position (position_mul hx hy)

include hc ha hb hab

theorem lt_mul_of_lt_mul (h : v < c * a) : v < c * b := by
  obtain ⟨⟨hv, hca⟩, hlt⟩ := lt_iff.1 h
  rcases isFinite_or_infinity (isNaN_of_mul hca) hc with hfinite | hinfinite
  · have hle := position_mul_le_mul hc ha hb hab hfinite
    exact lt_iff.2 ⟨⟨hv, isNaN_mul_of_isFinite hfinite hb⟩, hlt.trans_le hle⟩
  · -- no number is below minus infinity, so `a` is positive, and so is `b`
    have hlow := natAbs_position_le hv
    have hna := isNaN_of_isFinite ha
    have hnb := isNaN_of_isFinite hb
    obtain ⟨hzero, hneg, hpos⟩ := infinity_mul hinfinite hna
    rcases lt_trichotomy (position a) 0 with hsign | hsign | hsign
    · have hproduct := hneg hsign
      omega
    · rw [hzero hsign] at hca
      contradiction
    · have hproduct := (infinity_mul hinfinite hnb).2.2 (by omega)
      refine lt_iff.2 ⟨⟨hv, isNaN_of_infinity hproduct⟩, ?_⟩
      rwa [hproduct, ← hpos hsign]

theorem mul_lt_of_mul_lt (h : c * b < v) : c * a < v := by
  obtain ⟨⟨hcb, hv⟩, hlt⟩ := lt_iff.1 h
  rcases isFinite_or_infinity (isNaN_of_mul hcb) hc with hfinite | hinfinite
  · have hle := position_mul_le_mul hc ha hb hab hfinite
    exact lt_iff.2 ⟨⟨isNaN_mul_of_isFinite hfinite ha, hv⟩, hle.trans_lt hlt⟩
  · -- no number is above infinity, so `b` is negative, and so is `a`
    have hhigh := natAbs_position_le hv
    have hna := isNaN_of_isFinite ha
    have hnb := isNaN_of_isFinite hb
    obtain ⟨hzero, hneg, hpos⟩ := infinity_mul hinfinite hnb
    rcases lt_trichotomy (position b) 0 with hsign | hsign | hsign
    · have hproduct := (infinity_mul hinfinite hna).2.1 (by omega)
      refine lt_iff.2 ⟨⟨?_, hv⟩, ?_⟩
      · rw [isNaN_eq_false_iff, ← natAbs_position, hproduct, Int.natAbs_neg]
        exact Nat.le_refl _
      · rwa [hproduct, ← hneg hsign]
    · rw [hzero hsign] at hcb
      contradiction
    · have hproduct := hpos hsign
      omega

end Order

end BenchLedger.Decimal
