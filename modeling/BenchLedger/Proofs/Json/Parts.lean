import BenchLedger.Json.Number
import BenchLedger.Proofs.Decimal.Closest
import BenchLedger.Proofs.Decimal.Differences
import BenchLedger.Proofs.Decimal.Extremes
import BenchLedger.Proofs.Decimal.Layouts
import BenchLedger.Proofs.Decimal.Whole

/-!
# The value of a numeral in a JSON text

A numeral of few digits and a small power of ten is read as the number nearest to it: its digits and
the power are numbers themselves, so that only the last step rounds.  Other numerals need not be,
but a whole number of 64 bits is always read as a finite number.
-/

namespace BenchLedger

namespace Decimal

variable {x y : Float}

/-- A position other than that of the two zeros belongs to one number. -/
theorem eq_of_position_eq (h : position x = position y) (hne : position x ≠ 0) : x = y := by
  have hsign : ∀ z : Float, position z ≠ 0 → (isNegative z = true ↔ position z < 0) := by
    intro z hz
    rw [← Int.natAbs_ne_zero, natAbs_position] at hz
    unfold position
    cases isNegative z with
    | true => simp only [if_true, true_iff]; omega
    | false => simp only [Bool.false_eq_true, if_false, false_iff]; omega
  have hneg : isNegative x = isNegative y :=
    Bool.eq_iff_iff.2 ((hsign x hne).trans (h ▸ (hsign y (h ▸ hne)).symm))
  have hindex : magnitudeIndex x = magnitudeIndex y := by
    rw [← natAbs_position, h, natAbs_position]
  rw [← ofIndex_magnitudeIndex x, hneg, hindex, ofIndex_magnitudeIndex]

theorem value_eq_zero_iff (h : x.isNaN = false) : value x = 0 ↔ position x = 0 := by
  have hzero : (0 : Float).isNaN = false := by decide
  have hposition : position 0 = 0 := by decide
  have hle := value_le_value_iff h hzero
  have hge := value_le_value_iff hzero h
  rw [value_zero, hposition] at hle hge
  rw [le_antisymm_iff, hle, hge]
  omega

/-- The decimal with its sign. -/
def signedDecimal (negative : Bool) (digits : ℕ) (exponent : ℤ) : ℚ :=
  if negative then -(digits * 10 ^ exponent) else digits * 10 ^ exponent

theorem position_nearest (negative : Bool) (digits : ℕ) (exponent : ℤ) :
    position (nearest negative digits exponent) =
      nearestPosition (signedDecimal negative digits exponent) := by
  have hle := nearestDecimalIndex_le digits exponent
  have hround : nearestPosition (digits * 10 ^ exponent) = nearestDecimalIndex digits exponent := by
    rw [nearestDecimalIndex_eq_roundIndex, nearestPosition_of_nonneg (by positivity)]
  rw [position, nearest, isNegative_ofIndex negative hle, magnitudeIndex_ofIndex negative hle,
    signedDecimal]
  cases negative with
  | false => exact hround.symm
  | true => rw [if_pos rfl, if_pos rfl, nearestPosition_neg, hround]

theorem nearest_zero (negative : Bool) (exponent : ℤ) :
    nearest negative 0 exponent = nearest negative 0 0 := by
  rw [nearest, nearest, nearestDecimalIndex, nearestDecimalIndex, if_pos rfl, if_pos rfl]

theorem le_value_greatest {r : ℚ} (h : r ≤ 2 ^ (100 : ℤ)) : r ≤ value greatest := by
  have hvalue : value greatest = (2 ^ 53 - 1 : ℕ) * 2 ^ (971 : ℤ) :=
    value_of_magnitude position_greatest (by decide)
  have hone : (1 : ℚ) ≤ (2 ^ 53 - 1 : ℕ) := by norm_num
  calc r ≤ 2 ^ (100 : ℤ) := h
    _ ≤ 2 ^ (971 : ℤ) := zpow_le_zpow_right₀ one_le_two (by norm_num)
    _ ≤ (2 ^ 53 - 1 : ℕ) * 2 ^ (971 : ℤ) := le_mul_of_one_le_left (zpow_pos two_pos _).le hone
    _ = value greatest := hvalue.symm

section Exact

variable {digits : ℕ} {exponent : ℤ}

/-- A decimal that is a number of itself is read as that number. -/
theorem value_nearest (negative : Bool) (h : Representable (digits * 10 ^ exponent))
    (hle : (digits * 10 ^ exponent : ℚ) ≤ 2 ^ (100 : ℤ)) :
    value (nearest negative digits exponent) = signedDecimal negative digits exponent := by
  have hexact := h.valueAt_nearestPosition isFinite_greatest (le_value_greatest hle)
  rw [value, position_nearest, signedDecimal]
  cases negative with
  | false => exact hexact
  | true => rw [if_pos rfl, nearestPosition_neg, valueAt_neg, hexact]

theorem isFinite_nearest (negative : Bool)
    (hle : (digits * 10 ^ exponent : ℚ) ≤ 2 ^ (100 : ℤ)) :
    (nearest negative digits exponent).isFinite = true := by
  refine isFinite_of_position isFinite_greatest (position_nearest negative digits exponent) ?_
  have hnonneg : (0 : ℚ) ≤ digits * 10 ^ exponent := by positivity
  have habs : |signedDecimal negative digits exponent| = digits * 10 ^ exponent := by
    cases negative with
    | false => exact abs_of_nonneg hnonneg
    | true => exact (abs_neg _).trans (abs_of_nonneg hnonneg)
  rw [habs]
  exact le_value_greatest hle

theorem signedDecimal_eq_mul (negative : Bool) (digits : ℕ) (exponent : ℤ) :
    signedDecimal negative digits exponent = signedDecimal negative digits 0 * 10 ^ exponent := by
  unfold signedDecimal
  split <;> simp

/-- Whole numbers below `2 ^ 53` are numbers themselves. -/
theorem value_nearest_whole (negative : Bool) (h : digits < 2 ^ 53) :
    (nearest negative digits 0).isFinite = true ∧
      value (nearest negative digits 0) = signedDecimal negative digits 0 := by
  have hle : (digits * 10 ^ (0 : ℤ) : ℚ) ≤ 2 ^ (100 : ℤ) := by
    calc (digits * 10 ^ (0 : ℤ) : ℚ) = digits := by rw [zpow_zero, mul_one]
      _ ≤ 2 ^ (53 : ℤ) := by exact_mod_cast h.le
      _ ≤ 2 ^ (100 : ℤ) := zpow_le_zpow_right₀ one_le_two (by norm_num)
  have hrep : Representable (digits * 10 ^ (0 : ℤ)) :=
    ⟨digits, 0, h, by norm_num, by rw [zpow_zero, zpow_zero]⟩
  exact ⟨isFinite_nearest negative hle, value_nearest negative hrep hle⟩

theorem nearest_beq_zero_iff (negative : Bool) (h : digits < 2 ^ 53) :
    (nearest negative digits 0 == 0) = true ↔ digits = 0 := by
  constructor
  · intro hzero
    have hvalue : signedDecimal negative digits 0 = 0 := by
      rw [← (value_nearest_whole negative h).2, value, (beq_iff.1 hzero).2]
      exact value_zero
    unfold signedDecimal at hvalue
    split at hvalue <;> simpa using hvalue
  · rintro rfl
    cases negative <;> decide +kernel

/-- What is at the position of a decimal that is no zero is what the decimal is read as. -/
theorem eq_nearest_of_position {negative : Bool} {x : Float} (hdigits : digits ≠ 0)
    (hexponent : -22 ≤ exponent)
    (h : position x = nearestPosition (signedDecimal negative digits exponent)) :
    x = nearest negative digits exponent := by
  have hone : (1 : ℚ) ≤ digits := Nat.one_le_cast.2 (Nat.pos_of_ne_zero hdigits)
  have hpos : 0 < nearestPosition (digits * 10 ^ exponent) := by
    refine nearestPosition_pos ?_
    calc (2 : ℚ) ^ (-1074 : ℤ) ≤ 2 ^ (-100 : ℤ) := zpow_le_zpow_right₀ one_le_two (by norm_num)
      _ ≤ 10 ^ (-22 : ℤ) := by norm_num
      _ ≤ 10 ^ exponent := zpow_le_zpow_right₀ (by norm_num) hexponent
      _ ≤ digits * 10 ^ exponent := le_mul_of_one_le_left (by positivity) hone
  refine eq_of_position_eq (h.trans (position_nearest negative digits exponent).symm) ?_
  rw [h, signedDecimal]
  cases negative with
  | false => exact hpos.ne'
  | true =>
    rw [if_pos rfl, nearestPosition_neg]
    omega

end Exact

end Decimal

namespace Json

open Decimal

theorem le_foldl_digits (cs : List Char) (n : ℕ) :
    n ≤ cs.foldl (fun n c => 10 * n + (c.toNat - 48)) n := by
  induction cs generalizing n with
  | nil => exact le_rfl
  | cons c cs ih => exact le_trans (show n ≤ 10 * n + _ by omega) (ih _)

theorem takeUp_of_lt {cs : List Char} {significand : ℕ}
    (h : cs.foldl (fun n c => 10 * n + (c.toNat - 48)) significand < 2 ^ 64) :
    takeUp significand cs = (cs.foldl (fun n c => 10 * n + (c.toNat - 48)) significand, []) := by
  induction cs generalizing significand with
  | nil => rfl
  | cons c cs ih =>
    have hnext := le_foldl_digits cs (10 * significand + (c.toNat - 48))
    rw [List.foldl_cons] at h
    rw [List.foldl_cons, takeUp]
    exact (if_pos (lt_of_le_of_lt hnext h)).trans (ih h)

/-- All digits of a numeral are taken up that make up a number of 64 bits. -/
theorem Parts.ofNumeral_of_lt {n : Numeral} (h : digitsValue (n.whole ++ n.fraction) < 2 ^ 64) :
    ofNumeral n = ⟨digitsValue (n.whole ++ n.fraction), n.power - n.fraction.length⟩ := by
  have hfold : ∀ cs : List Char,
      cs.foldl (fun n c => 10 * n + (c.toNat - 48)) (digitsValue n.whole) =
        digitsValue (n.whole ++ cs) := fun cs => List.foldl_append.symm
  have hwhole : digitsValue n.whole < 2 ^ 64 := by
    refine lt_of_le_of_lt ?_ h
    rw [digitsValue_append]
    exact le_add_right (Nat.le_mul_of_pos_right _ (Nat.pow_pos (by norm_num)))
  have hupper : takeUp 0 n.whole = (digitsValue n.whole, []) := takeUp_of_lt hwhole
  have hfraction : takeUp (digitsValue n.whole) n.fraction =
      (digitsValue (n.whole ++ n.fraction), []) := by
    rw [takeUp_of_lt (by rwa [hfold]), hfold]
  simp [ofNumeral, hupper, hfraction]

theorem value_powerOfTen {places : ℕ} (h : places ≤ 22) :
    (powerOfTen places).isFinite = true ∧ value (powerOfTen places) = 10 ^ places := by
  have hpow : ((1 : ℕ) * 10 ^ (places : ℤ) : ℚ) = 10 ^ places := by
    rw [Nat.cast_one, one_mul, zpow_natCast]
  have hle : ((1 : ℕ) * 10 ^ (places : ℤ) : ℚ) ≤ 2 ^ (100 : ℤ) := by
    calc ((1 : ℕ) * 10 ^ (places : ℤ) : ℚ) ≤ 10 ^ 22 := by
          rw [hpow]
          exact pow_le_pow_right₀ (by norm_num) h
      _ ≤ 2 ^ (100 : ℤ) := by norm_num
  -- the odd part of a power of ten is a power of five
  have hrep : Representable ((1 : ℕ) * 10 ^ (places : ℤ)) := by
    refine ⟨5 ^ places, places, ?_, by omega, ?_⟩
    · calc 5 ^ places ≤ 5 ^ 22 := Nat.pow_le_pow_right (by norm_num) h
        _ < 2 ^ 53 := by norm_num
    · rw [hpow, zpow_natCast, Nat.cast_pow, ← mul_pow]
      norm_num
  refine ⟨isFinite_nearest false hle, ?_⟩
  rw [powerOfTen, value_nearest false hrep hle]
  exact hpow

/-- Parts of few digits and a small power of ten have the value nearest to them. -/
theorem Parts.value_eq_nearest {p : Parts} (hsignificand : p.significand < 2 ^ 53)
    (hexponent : p.exponent.natAbs ≤ 22) (negative : Bool) :
    p.value negative = nearest negative p.significand p.exponent := by
  obtain ⟨s, e⟩ := p
  dsimp only at hsignificand hexponent
  obtain ⟨hx, hvalue⟩ := value_nearest_whole negative hsignificand
  obtain ⟨hten, hpow⟩ := value_powerOfTen hexponent
  unfold value
  dsimp only
  split
  case isTrue hzero => rw [(nearest_beq_zero_iff negative hsignificand).1 hzero, nearest_zero _ e]
  case isFalse hzero =>
    have hs : s ≠ 0 := (nearest_beq_zero_iff negative hsignificand).not.1 hzero
    -- the exact result is what the decimal is, and no zero
    refine eq_nearest_of_position hs (by omega) ?_
    split
    case isTrue he =>
      have hplaces : (10 : ℚ) ^ e.natAbs = 10 ^ e := by
        rw [← zpow_natCast, Int.natAbs_of_nonneg he]
      rw [position_mul hten hx, hpow, hvalue, hplaces, mul_comm, ← signedDecimal_eq_mul]
    case isFalse he =>
      have hsteps : e.natAbs / 308 = 0 := by omega
      have hplaces : (10 : ℚ) ^ e = (10 ^ e.natAbs)⁻¹ := by
        rw [← zpow_natCast, ← zpow_neg, show -(e.natAbs : ℤ) = e by omega]
      have hne : position (powerOfTen e.natAbs) ≠ 0 := by
        rw [Ne, ← value_eq_zero_iff (isNaN_of_isFinite hten), hpow]
        positivity
      rw [hsteps, lowered, position_div hx hten hne, hpow, hvalue,
        signedDecimal_eq_mul negative s e, hplaces, div_eq_mul_inv]

/-- A numeral of few digits and a small power of ten is read as the number nearest to it. -/
theorem Parts.value_ofNumeral {n : Numeral} (hdigits : digitsValue (n.whole ++ n.fraction) < 2 ^ 53)
    (hpower : (n.power - n.fraction.length).natAbs ≤ 22) (negative : Bool) :
    (ofNumeral n).value negative = n.value negative := by
  rw [ofNumeral_of_lt (hdigits.trans (by norm_num)), value_eq_nearest hdigits hpower]
  rfl

/-- A whole number of 64 bits is read as a finite number. -/
theorem Parts.isFinite_value_digitsOf (negative : Bool) {n : ℕ} (h : n < 2 ^ 64) :
    ((ofNumeral ⟨digitsOf n, [], 0⟩).value negative).isFinite = true := by
  have hdigits : digitsValue (digitsOf n ++ []) = n := by
    rw [List.append_nil, digitsValue_digitsOf]
  have hx : (nearest negative n 0).isFinite = true := by
    have hvalue : nearest negative n 0 = Numeral.value ⟨digitsOf n, [], 0⟩ negative := by
      rw [Numeral.value, hdigits]
      rfl
    rw [hvalue]
    exact Decimal.isFinite_value_digitsOf negative h
  obtain ⟨hten, hpow⟩ := value_powerOfTen (Nat.zero_le 22)
  rw [ofNumeral_of_lt (by rwa [hdigits]), hdigits]
  show (if (nearest negative n 0 == 0) = true then nearest negative n 0
    else powerOfTen 0 * nearest negative n 0).isFinite = true
  split
  case isTrue => exact hx
  case isFalse =>
    -- to multiply by one changes nothing
    have hposition := position_mul hten hx
    rw [hpow, pow_zero, one_mul, nearestPosition_value (isNaN_of_isFinite hx)] at hposition
    rw [isFinite_iff, ← natAbs_position, hposition, natAbs_position]
    exact isFinite_iff.1 hx

end Json

end BenchLedger
