import BenchLedger.Proofs.Decimal.Numerals

/-!
# Reading whole numbers

Fractions below a bound are rounded to finite magnitudes, so whole numbers of 64 bits are read as
finite numbers.
-/

namespace BenchLedger.Decimal

theorem roundDiv_le {num den bound : ℕ} (hden : 0 < den) (h : num < bound * den) :
    roundDiv num den ≤ bound := by
  have hnear := (roundDiv_near num hden).1
  by_contra hlt
  have hmul : (bound + 1) * den ≤ roundDiv num den * den := Nat.mul_le_mul_right den (by omega)
  rw [Nat.add_mul] at hmul
  omega

-- The mantissa has 53 binary digits, or is the power of two that follows them.
theorem roundDiv_keptExponent_le {num den : ℕ} (hnum : 0 < num) (hden : 0 < den) :
    roundDiv (num * Nat.pow 2 (-keptExponent num den).toNat)
      (den * Nat.pow 2 (keptExponent num den).toNat) ≤ 2 ^ 53 := by
  have hlt := (keptAt_keptExponent hnum hden).lt
  generalize keptExponent num den = q at hlt ⊢
  have hden' : 0 < den * Nat.pow 2 q.toNat := Nat.mul_pos hden (Nat.pow_pos two_pos)
  refine roundDiv_le hden' ?_
  have hd : (0 : ℚ) < den := Nat.cast_pos.2 hden
  have hlow : (0 : ℚ) < (Nat.pow 2 (-q).toNat : ℕ) := Nat.cast_pos.2 (Nat.pow_pos two_pos)
  rw [div_lt_iff₀ hd, zpow_add₀ two_ne_zero] at hlt
  have hpow := pow_toNat_eq (two_ne_zero : (2 : ℕ) ≠ 0) q
  rw [← Nat.cast_lt (α := ℚ)]
  calc ((num * Nat.pow 2 (-q).toNat : ℕ) : ℚ) = num * (Nat.pow 2 (-q).toNat : ℕ) := Nat.cast_mul _ _
    _ < 2 ^ q * 2 ^ (53 : ℤ) * den * (Nat.pow 2 (-q).toNat : ℕ) := by gcongr
    _ = 2 ^ 53 * (den * (2 ^ q * (Nat.pow 2 (-q).toNat : ℕ))) := by
      rw [show (2 : ℚ) ^ (53 : ℤ) = 2 ^ 53 by norm_cast]
      ring
    _ = ((2 ^ 53 * (den * Nat.pow 2 q.toNat) : ℕ) : ℚ) := by
      rw [Nat.cast_mul, Nat.cast_mul, hpow]
      norm_cast

/-- Fractions below `2 ^ 1023` are rounded to finite magnitudes. -/
theorem nearestIndex_lt {num den : ℕ} (hden : 0 < den) (h : (num / den : ℚ) < 2 ^ (1023 : ℤ)) :
    nearestIndex num den < infinityIndex := by
  unfold nearestIndex
  split
  · decide
  rename_i hzero
  have hnum := Nat.pos_of_ne_zero hzero
  have hkept := keptAt_keptExponent hnum hden
  have hmantissa := roundDiv_keptExponent_le hnum hden
  dsimp only
  generalize roundDiv _ _ = mantissa at hmantissa ⊢
  generalize keptExponent num den = q at hkept ⊢
  have hq : q ≤ 970 := by
    by_contra hlt
    have hpow := (hkept.ge (by omega)).trans_lt h
    have hexponent := (zpow_lt_zpow_iff_right₀ (one_lt_two : (1 : ℚ) < 2)).1 hpow
    omega
  have hleast := hkept.least
  refine (min_le_left _ _).trans_lt ?_
  show (q + 1074).toNat * 2 ^ 52 + mantissa < 0x7FF0000000000000
  omega

-- Whole numbers of 64 bits have twenty digits at most.
theorem nearestDecimalIndex_lt {n : ℕ} (h : n < 2 ^ 64) :
    nearestDecimalIndex n 0 < infinityIndex := by
  have hcount : digitCount n < 400 := by
    by_contra hle
    by_cases hn : n = 0
    · rw [hn, digitCount] at hle
      omega
    · have hpow : 10 ^ 21 ≤ 10 ^ digitCount n := Nat.pow_le_pow_right (by norm_num) (by omega)
      have hdigits := pow_digitCount_le (Nat.pos_of_ne_zero hn)
      omega
  unfold nearestDecimalIndex
  dsimp only
  split_ifs
  · decide
  · decide
  · omega
  · refine nearestIndex_lt (Nat.pow_pos (by norm_num)) ?_
    calc ((n * Nat.pow 10 (0 : ℤ).toNat : ℕ) / (Nat.pow 10 (-0 : ℤ).toNat : ℕ) : ℚ) = n := by simp
      _ < ((2 ^ 64 : ℕ) : ℚ) := Nat.cast_lt.2 h
      _ ≤ 2 ^ (1023 : ℤ) := by
        rw [Nat.cast_pow, ← zpow_natCast]
        exact zpow_le_zpow_right₀ one_le_two (by norm_num)

theorem isFinite_value_digitsOf (negative : Bool) {n : ℕ} (h : n < 2 ^ 64) :
    (Numeral.value ⟨digitsOf n, [], 0⟩ negative).isFinite = true := by
  have hvalue : Numeral.value ⟨digitsOf n, [], 0⟩ negative =
      ofIndex negative (nearestDecimalIndex n 0) := by
    rw [Numeral.value, nearest, List.append_nil, digitsValue_digitsOf]
    rfl
  have hlt := nearestDecimalIndex_lt h
  rw [hvalue]
  refine isFinite_of_magnitudeIndex_lt ?_
  rwa [magnitudeIndex_ofIndex negative hlt.le]

end BenchLedger.Decimal
