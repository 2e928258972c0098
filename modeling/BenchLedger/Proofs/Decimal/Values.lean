import BenchLedger.Proofs.Decimal.Arithmetic

/-!
# Finite numbers as rational numbers

Finite numbers are ordered as the rational numbers that they are, and an operation on them is at the
position nearest to the exact result, which is never one that is not a number.
-/

namespace BenchLedger.Decimal

open Float.Model (UnpackedFloat Format)
open Float.Model.UnpackedFloat (Sign)

variable {x y : Float}

theorem isFinite_iff : x.isFinite = true ↔ magnitudeIndex x < infinityIndex :=
  ⟨magnitudeIndex_lt_of_isFinite, isFinite_of_magnitudeIndex_lt⟩

theorem isNaN_of_isFinite (h : x.isFinite = true) : x.isNaN = false :=
  (isNaN_and_isInf_of_isFinite h).1

theorem natAbs_position_le (h : x.isNaN = false) : (position x).natAbs ≤ infinityIndex := by
  rw [natAbs_position]
  exact isNaN_eq_false_iff.1 h

theorem nearestPosition_value (h : x.isNaN = false) : nearestPosition (value x) = position x :=
  nearestPosition_valueAt (natAbs_position_le h)

theorem value_le_value_iff (hx : x.isNaN = false) (hy : y.isNaN = false) :
    value x ≤ value y ↔ position x ≤ position y :=
  valueAt_le_valueAt_iff (natAbs_position_le hx) (natAbs_position_le hy)

theorem value_lt_value_iff (hx : x.isNaN = false) (hy : y.isNaN = false) :
    value x < value y ↔ position x < position y := by
  rw [← not_le, ← not_le, value_le_value_iff hy hx]

theorem value_nonneg_iff (h : x.isNaN = false) : 0 ≤ value x ↔ 0 ≤ position x := by
  have hzero : valueAt 0 = 0 := zero_mul _
  rw [← hzero]
  exact valueAt_le_valueAt_iff (Nat.zero_le _) (natAbs_position_le h)

theorem value_pos_iff (h : x.isNaN = false) : 0 < value x ↔ 0 < position x := by
  have hzero : valueAt 0 = 0 := zero_mul _
  rw [← not_le, ← not_le, ← hzero]
  exact not_congr (valueAt_le_valueAt_iff (natAbs_position_le h) (Nat.zero_le _))

-- A number at the position of a rational number is one.
theorem isNaN_of_position {r : ℚ} (h : position x = nearestPosition r) : x.isNaN = false := by
  rw [isNaN_eq_false_iff, ← natAbs_position, h]
  exact natAbs_nearestPosition_le r

section Bounds

variable {r : ℚ} (hy : y.isNaN = false) (h : position x = nearestPosition r)

include hy h

theorem value_le_of_position (hr : r ≤ value y) : value x ≤ value y := by
  rw [value_le_value_iff (isNaN_of_position h) hy, h, ← nearestPosition_value hy]
  exact nearestPosition_mono hr

theorem le_value_of_position (hr : value y ≤ r) : value y ≤ value x := by
  rw [value_le_value_iff hy (isNaN_of_position h), h, ← nearestPosition_value hy]
  exact nearestPosition_mono hr

theorem neg_le_value_of_position (hr : -value y ≤ r) : -value y ≤ value x := by
  have hle := natAbs_position_le (isNaN_of_position h)
  have hneg : (-position y).natAbs ≤ infinityIndex := by
    rw [Int.natAbs_neg]
    exact natAbs_position_le hy
  have hmono := nearestPosition_mono hr
  rw [nearestPosition_neg, nearestPosition_value hy, ← h] at hmono
  rw [value, ← valueAt_neg]
  exact (valueAt_le_valueAt_iff hneg hle).2 hmono

end Bounds

theorem value_zero : value 0 = 0 := by
  have hposition : position 0 = 0 := by decide
  rw [value, hposition]
  exact zero_mul _

theorem isFinite_of_position {r : ℚ} {bound : Float} (hbound : bound.isFinite = true)
    (h : position x = nearestPosition r) (hr : |r| ≤ value bound) : x.isFinite = true := by
  have hpos := nearestPosition_value (isNaN_of_isFinite hbound)
  have hlow := nearestPosition_mono (abs_le.1 hr).1
  have hhigh := nearestPosition_mono (abs_le.1 hr).2
  rw [nearestPosition_neg] at hlow
  rw [hpos] at hlow hhigh
  have hlast := isFinite_iff.1 hbound
  rw [← natAbs_position] at hlast
  rw [isFinite_iff, ← natAbs_position, h]
  omega

section Operations

variable (hx : x.isFinite = true) (hy : y.isFinite = true)

include hx hy

theorem position_add : position (x + y) = nearestPosition (value x + value y) := by
  have hux := shows_unpack (isNaN_of_isFinite hx)
  have huy := shows_unpack (isNaN_of_isFinite hy)
  unfold value
  rw [hux.valueAt_eq hx, huy.valueAt_eq hy]
  exact position_pack (packs_add hux huy hx hy)

theorem position_sub : position (x - y) = nearestPosition (value x - value y) := by
  have hux := shows_unpack (isNaN_of_isFinite hx)
  have huy := shows_unpack (isNaN_of_isFinite hy)
  unfold value
  rw [hux.valueAt_eq hx, huy.valueAt_eq hy]
  exact position_pack (packs_sub hux huy hx hy)

-- Subtracting the other way turns the sign.
theorem value_sub_comm : value (x - y) = -value (y - x) := by
  rw [value, value, position_sub hx hy, position_sub hy hx, ← valueAt_neg, ← nearestPosition_neg,
    neg_sub]

theorem isFinite_sub (hxpos : 0 ≤ position x) (hypos : 0 ≤ position y) :
    (x - y).isFinite = true := by
  have hxnonneg := (value_nonneg_iff (isNaN_of_isFinite hx)).2 hxpos
  have hynonneg := (value_nonneg_iff (isNaN_of_isFinite hy)).2 hypos
  have hdiff := position_sub hx hy
  rcases le_total (value x) (value y) with hle | hle
  · refine isFinite_of_position hy hdiff ?_
    rw [abs_le]
    constructor <;> linarith
  · refine isFinite_of_position hx hdiff ?_
    rw [abs_le]
    constructor <;> linarith

theorem position_mul : position (x * y) = nearestPosition (value x * value y) := by
  have hux := shows_unpack (isNaN_of_isFinite hx)
  have huy := shows_unpack (isNaN_of_isFinite hy)
  unfold value
  rw [hux.valueAt_eq hx, huy.valueAt_eq hy]
  exact position_pack (packs_mul hux huy hx hy)

theorem position_div (hne : position y ≠ 0) :
    position (x / y) = nearestPosition (value x / value y) := by
  have hux := shows_unpack (isNaN_of_isFinite hx)
  have huy := shows_unpack (isNaN_of_isFinite hy)
  unfold value
  rw [hux.valueAt_eq hx, huy.valueAt_eq hy]
  exact position_pack (packs_div hux huy hx hy hne)

end Operations

end BenchLedger.Decimal
