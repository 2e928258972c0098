import BenchLedger.Proofs.Decimal.Values

/-!
# One, two and the greatest finite number

Adding one to a finite number, or taking the number from one, gives a finite number: one is lost
beside the greatest of them.
-/

namespace BenchLedger.Decimal

variable {x : Float}

theorem value_of_magnitude {k m : ℕ} {e : ℤ} (hposition : position x = k)
    (hmagnitude : Magnitude.ofIndex k = ⟨m, e⟩) : value x = m * 2 ^ e := by
  rw [value, hposition, valueAt_natCast, hmagnitude, Magnitude.value]

theorem value_one : value 1 = 1 := by
  have hvalue : value 1 = (2 ^ 52 : ℕ) * 2 ^ (-52 : ℤ) :=
    value_of_magnitude (k := 1023 * 2 ^ 52) (by decide) (by decide)
  rw [hvalue]
  norm_num

theorem isFinite_one : (1 : Float).isFinite = true := by
  decide

theorem value_two : value 2 = 2 := by
  have hvalue : value 2 = (2 ^ 52 : ℕ) * 2 ^ (-51 : ℤ) :=
    value_of_magnitude (k := 1024 * 2 ^ 52) (by decide) (by decide)
  rw [hvalue]
  norm_num

def greatest : Float :=
  ofIndex false (infinityIndex - 1)

theorem position_greatest : position greatest = (infinityIndex - 1 : ℕ) := by
  decide

theorem isFinite_greatest : greatest.isFinite = true := by
  decide

theorem value_le_greatest (hx : x.isFinite = true) : value x ≤ value greatest := by
  have hindex := isFinite_iff.1 hx
  rw [← natAbs_position] at hindex
  rw [value_le_value_iff (isNaN_of_isFinite hx) (by decide), position_greatest]
  omega

theorem exists_half_greatest :
    ∃ half : Float, half.isFinite = true ∧ value greatest = value half + value half := by
  have hgreatest : value greatest = (2 ^ 53 - 1 : ℕ) * 2 ^ (970 + 1 : ℤ) :=
    value_of_magnitude position_greatest (by decide)
  have hhalf : value (ofIndex false (infinityIndex - 1 - 2 ^ 52)) =
      (2 ^ 53 - 1 : ℕ) * 2 ^ (970 : ℤ) :=
    value_of_magnitude (k := infinityIndex - 1 - 2 ^ 52) (by decide) (by decide)
  refine ⟨ofIndex false (infinityIndex - 1 - 2 ^ 52), by decide, ?_⟩
  rw [hgreatest, hhalf, zpow_add_one₀ two_ne_zero]
  ring

-- One more than the greatest finite number is rounded to that number.
theorem nearestPosition_add_one_lt (hx : x.isFinite = true) :
    nearestPosition (value x + 1) < infinityIndex := by
  have hgreatest : value greatest = ((2 ^ 53 - 1) * 2 ^ 971 : ℕ) := by
    rw [value_of_magnitude (m := 2 ^ 53 - 1) (e := 971) position_greatest (by decide),
      Nat.cast_mul, Nat.cast_pow, ← zpow_natCast]
    rfl
  have hround : nearestPosition (((2 ^ 53 - 1) * 2 ^ 971 + 1 : ℕ) : ℚ) =
      (infinityIndex - 1 : ℕ) := by
    have hindex : nearestIndex ((2 ^ 53 - 1) * 2 ^ 971 + 1) 1 = infinityIndex - 1 := by
      decide +kernel
    rw [nearestPosition_of_nonneg (Nat.cast_nonneg _), ← hindex]
    rfl
  have hle : value x + 1 ≤ ((2 ^ 53 - 1) * 2 ^ 971 + 1 : ℕ) := by
    rw [Nat.cast_succ, ← hgreatest]
    linarith [value_le_greatest hx]
  have hmono := nearestPosition_mono hle
  rw [hround] at hmono
  have hinfinity : 0 < infinityIndex := by decide
  omega

section One

variable (hx : x.isFinite = true) (hpos : 0 ≤ position x)

include hx hpos

theorem isFinite_of_add_one {y : Float} (h : position y = nearestPosition (value x + 1)) :
    y.isFinite = true := by
  have hlt := nearestPosition_add_one_lt hx
  have hnonneg := (value_nonneg_iff (isNaN_of_isFinite hx)).2 hpos
  have hmono := nearestPosition_mono (show (0 : ℚ) ≤ value x + 1 by linarith)
  rw [nearestPosition_zero] at hmono
  rw [isFinite_iff, ← natAbs_position, h]
  omega

theorem isFinite_one_add : (1 + x).isFinite = true := by
  have hsum := position_add (x := 1) (by decide) hx
  rw [value_one, add_comm] at hsum
  exact isFinite_of_add_one hx hpos hsum

theorem isFinite_one_sub : (1 - x).isFinite = true := by
  have hsub := position_sub (x := 1) (by decide) hx
  have hnonneg := (value_nonneg_iff (isNaN_of_isFinite hx)).2 hpos
  rw [value_one] at hsub
  rcases le_total (value x) 1 with hsmall | hgreat
  · refine isFinite_of_position isFinite_one hsub ?_
    rw [value_one, abs_le]
    constructor <;> linarith
  · refine isFinite_of_position hx hsub ?_
    rw [abs_le]
    constructor <;> linarith

end One

end BenchLedger.Decimal
