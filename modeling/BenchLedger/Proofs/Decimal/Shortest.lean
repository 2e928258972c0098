import BenchLedger.Proofs.Decimal.Nearest

/-!
# The fewest digits read back

The search for the fewest digits of a magnitude ends at a decimal inside its interval: where the
powers of ten are finer than the interval, the multiple nearest to the middle lies inside.  Hence
the digits are those of a decimal that rounds to the magnitude.
-/

namespace BenchLedger.Decimal

theorem lt_pow_digitCount (n : ℕ) : n < 10 ^ digitCount n := by
  induction n using digitCount.induct with
  | case1 => simp [digitCount]
  | case2 n ih =>
    rw [digitCount, pow_succ]
    omega

theorem pow_digitCount_le {n : ℕ} (hn : 0 < n) : 10 ^ digitCount n ≤ 10 * n := by
  induction n using digitCount.induct with
  | case1 => contradiction
  | case2 n ih =>
    rw [digitCount, pow_succ]
    by_cases hten : (n + 1) / 10 = 0
    · rw [hten, digitCount]
      omega
    · have hle := ih (Nat.pos_of_ne_zero hten)
      omega

theorem roundDiv_near (num : ℕ) {den : ℕ} (hden : 0 < den) :
    2 * (roundDiv num den * den) ≤ 2 * num + den ∧
      2 * num ≤ 2 * (roundDiv num den * den) + den := by
  have hsplit := Nat.div_add_mod num den
  have hmod := Nat.mod_lt num hden
  rw [mul_comm] at hsplit
  unfold roundDiv
  dsimp only
  split
  · omega
  · rw [Nat.add_mul]
    omega

/-- Twenty-three powers of ten below its ceiling, a power of ten is finer than the binary places of
a number with 53 of them. -/
theorem pow_ten_le {e s : ℤ} (hleast : -1074 ≤ e) (hmost : e ≤ 971)
    (hs : s ≤ decimalCeiling (e + 52) - 23) : (10 : ℚ) ^ s ≤ 2 ^ (e - 2) := by
  unfold decimalCeiling at hs
  obtain ⟨n, rfl | rfl⟩ := s.eq_nat_or_neg
  · -- three powers of ten are less than ten powers of two
    rw [← pow_le_pow_iff_left₀ (by positivity) (by positivity) (three_ne_zero)]
    calc ((10 : ℚ) ^ (n : ℤ)) ^ 3 = 1000 ^ n := by
          rw [zpow_natCast, ← pow_mul, mul_comm, pow_mul]
          norm_num
      _ ≤ 1024 ^ n := by gcongr; norm_num
      _ = 2 ^ (10 * n : ℤ) := by
        rw [zpow_mul]
        norm_num
      _ ≤ 2 ^ ((e - 2) * 3) := zpow_le_zpow_right₀ one_le_two (by omega)
      _ = (2 ^ (e - 2)) ^ 3 := by
        rw [zpow_mul]
        norm_cast
  · -- twenty-eight powers of ten are more than ninety-three powers of two
    rw [← pow_le_pow_iff_left₀ (by positivity) (by positivity) (show 28 ≠ 0 by norm_num)]
    calc ((10 : ℚ) ^ (-n : ℤ)) ^ 28 = ((10 ^ 28 : ℚ) ^ n)⁻¹ := by
          rw [zpow_neg, zpow_natCast, inv_pow, ← pow_mul, ← pow_mul, mul_comm]
      _ ≤ ((2 ^ 93 : ℚ) ^ n)⁻¹ := by
        gcongr
        norm_num
      _ = 2 ^ (-(93 * n) : ℤ) := by
        rw [zpow_neg, zpow_mul]
        norm_num
      _ ≤ 2 ^ ((e - 2) * 28) := zpow_le_zpow_right₀ one_le_two (by omega)
      _ = (2 ^ (e - 2)) ^ 28 := by
        rw [zpow_mul]
        norm_cast

-- Sizes beyond that power of ten are decided without a quotient; no finite magnitude comes near it.
theorem pow_two_lt_pow_ten : (2 : ℚ) ^ (1300 : ℤ) < 10 ^ (400 : ℤ) := by
  calc (2 : ℚ) ^ (1300 : ℤ) = 8192 ^ 100 := by
        rw [show (1300 : ℤ) = 13 * (100 : ℕ) by norm_num, zpow_mul, zpow_natCast]
        norm_num
    _ < 10000 ^ 100 := by norm_num
    _ = 10 ^ (400 : ℤ) := by
        rw [show (400 : ℤ) = 4 * (100 : ℕ) by norm_num, zpow_mul, zpow_natCast]
        norm_num

namespace Interval

variable {i : Interval} {s : ℤ}

/-- The numerators and denominators of the powers, as the computations arrange them: what is
compared is multiplied by the denominators. -/
def denominators (i : Interval) (s : ℤ) : ℚ :=
  (Nat.pow 10 (-s).toNat : ℕ) * (Nat.pow 2 (-i.exponent).toNat : ℕ)

theorem denominators_pos (i : Interval) (s : ℤ) : 0 < i.denominators s :=
  mul_pos (Nat.cast_pos.2 (Nat.pow_pos (by norm_num))) (Nat.cast_pos.2 (Nat.pow_pos two_pos))

theorem step_eq (i : Interval) (s : ℤ) :
    ((Nat.pow 10 s.toNat * Nat.pow 2 (-i.exponent).toNat : ℕ) : ℚ) =
      10 ^ s * i.denominators s := by
  rw [denominators, Nat.cast_mul, pow_toNat_eq (show (10 : ℕ) ≠ 0 by norm_num), mul_assoc]
  norm_num

theorem unit_eq (i : Interval) (s : ℤ) :
    ((Nat.pow 10 (-s).toNat * Nat.pow 2 i.exponent.toNat : ℕ) : ℚ) =
      2 ^ i.exponent * i.denominators s := by
  rw [denominators, Nat.cast_mul, pow_toNat_eq (two_ne_zero : (2 : ℕ) ≠ 0), mul_left_comm]
  norm_num

theorem le_point_iff (i : Interval) (s : ℤ) (a n : ℕ) :
    a * (Nat.pow 10 (-s).toNat * Nat.pow 2 i.exponent.toNat) ≤
        n * (Nat.pow 10 s.toNat * Nat.pow 2 (-i.exponent).toNat) ↔
      (a * 2 ^ i.exponent : ℚ) ≤ n * 10 ^ s := by
  rw [← Nat.cast_le (α := ℚ), Nat.cast_mul, Nat.cast_mul n, step_eq, unit_eq, ← mul_assoc,
    ← mul_assoc, mul_le_mul_iff_left₀ (i.denominators_pos s)]

theorem point_le_iff (i : Interval) (s : ℤ) (a n : ℕ) :
    n * (Nat.pow 10 s.toNat * Nat.pow 2 (-i.exponent).toNat) ≤
        a * (Nat.pow 10 (-s).toNat * Nat.pow 2 i.exponent.toNat) ↔
      (n * 10 ^ s : ℚ) ≤ a * 2 ^ i.exponent := by
  rw [← Nat.cast_le (α := ℚ), Nat.cast_mul, Nat.cast_mul a, step_eq, unit_eq, ← mul_assoc,
    ← mul_assoc, mul_le_mul_iff_left₀ (i.denominators_pos s)]

theorem contains_iff {n : ℕ} : i.contains n s = true ↔ i.Covers (n * 10 ^ s) := by
  unfold contains Covers
  dsimp only
  split
  · rw [Bool.and_eq_true, decide_eq_true_eq, decide_eq_true_eq, le_point_iff, point_le_iff]
  · rw [Bool.and_eq_true, decide_eq_true_eq, decide_eq_true_eq, ← not_le, ← not_le, le_point_iff,
      point_le_iff, not_le, not_le]

theorem covers_of_multiple? {n : ℕ} (h : i.multiple? s = some n) :
    n ≠ 0 ∧ i.Covers (n * 10 ^ s) := by
  unfold multiple? at h
  dsimp only at h
  generalize roundDiv _ _ = nearer at h
  generalize (if nearer = _ then _ else _ : ℕ) = other at h
  split at h
  case isTrue hnearer =>
    obtain rfl := Option.some.inj h
    rw [Bool.and_eq_true, decide_eq_true_eq, contains_iff] at hnearer
    exact hnearer
  case isFalse =>
    split at h
    case isTrue hother =>
      obtain rfl := Option.some.inj h
      rw [Bool.and_eq_true, decide_eq_true_eq, contains_iff] at hother
      exact hother
    case isFalse => exact nomatch h

/-- The multiple of `10 ^ s` that is nearest to the middle. -/
def nearest (i : Interval) (s : ℤ) : ℕ :=
  roundDiv (i.middle * (Nat.pow 10 (-s).toNat * Nat.pow 2 i.exponent.toNat))
    (Nat.pow 10 s.toNat * Nat.pow 2 (-i.exponent).toNat)

-- It is half a power of ten away at most.
theorem nearest_bounds (i : Interval) (s : ℤ) :
    (2 * i.nearest s * 10 ^ s : ℚ) ≤ 2 * i.middle * 2 ^ i.exponent + 10 ^ s ∧
      (2 * i.middle * 2 ^ i.exponent : ℚ) ≤ 2 * i.nearest s * 10 ^ s + 10 ^ s := by
  have hstep : 0 < Nat.pow 10 s.toNat * Nat.pow 2 (-i.exponent).toNat :=
    Nat.mul_pos (Nat.pow_pos (by norm_num)) (Nat.pow_pos two_pos)
  obtain ⟨hbelow, habove⟩ := roundDiv_near
    (i.middle * (Nat.pow 10 (-s).toNat * Nat.pow 2 i.exponent.toNat)) hstep
  unfold nearest
  generalize roundDiv _ _ = nearer at hbelow habove ⊢
  constructor
  · refine le_of_mul_le_mul_right ?_ (i.denominators_pos s)
    rw [add_mul, mul_assoc, mul_assoc (2 * (i.middle : ℚ)), ← step_eq, ← unit_eq]
    exact_mod_cast by linarith [hbelow]
  · refine le_of_mul_le_mul_right ?_ (i.denominators_pos s)
    rw [add_mul, mul_assoc, mul_assoc (2 * (nearer : ℚ)), ← step_eq, ← unit_eq]
    exact_mod_cast by linarith [habove]

/-- Where the powers of ten are as fine as the interval, a multiple lies inside. -/
theorem multiple?_ne_none (hlow : i.low < i.middle) (hhigh : i.middle < i.high)
    (hfine : (10 : ℚ) ^ s ≤ 2 ^ i.exponent) : i.multiple? s ≠ none := by
  have hunit : (0 : ℚ) < 2 ^ i.exponent := zpow_pos two_pos _
  obtain ⟨hbelow, habove⟩ := i.nearest_bounds s
  have hlow : (i.low * 2 ^ i.exponent : ℚ) < i.nearest s * 10 ^ s := by
    have hle : (i.low + 1 : ℚ) * 2 ^ i.exponent ≤ i.middle * 2 ^ i.exponent := by
      gcongr
      exact_mod_cast hlow
    linarith
  have hhigh : (i.nearest s * 10 ^ s : ℚ) < i.high * 2 ^ i.exponent := by
    have hle : (i.middle + 1 : ℚ) * 2 ^ i.exponent ≤ i.high * 2 ^ i.exponent := by
      gcongr
      exact_mod_cast hhigh
    linarith
  have hne : i.nearest s ≠ 0 := by
    intro hzero
    have hnonneg : (0 : ℚ) ≤ i.low * 2 ^ i.exponent := by positivity
    rw [hzero, Nat.cast_zero, zero_mul] at hlow
    exact absurd hlow (not_lt.2 hnonneg)
  have hcovers : i.contains (i.nearest s) s = true := by
    rw [contains_iff]
    unfold Covers
    split
    · exact ⟨hlow.le, hhigh.le⟩
    · exact ⟨hlow, hhigh⟩
  unfold nearest at hne hcovers
  unfold multiple?
  dsimp only
  rw [if_pos (by rw [hcovers, Bool.and_true, decide_eq_true_eq]; exact hne)]
  exact Option.some_ne_none _

/-- The search ends at the first power of ten with a multiple inside, if it gets that far. -/
theorem covers_search {fuel : ℕ} (h : ∃ j < fuel, i.multiple? (s - (j : ℕ)) ≠ none) :
    (i.search fuel s).digits ≠ 0 ∧
      i.Covers ((i.search fuel s).digits * 10 ^ (i.search fuel s).exponent) := by
  induction fuel generalizing s with
  | zero =>
    obtain ⟨j, hj, -⟩ := h
    exact absurd hj (Nat.not_lt_zero j)
  | succ fuel ih =>
    rw [search]
    cases hmultiple : i.multiple? s with
    | some n => exact covers_of_multiple? hmultiple
    | none =>
      obtain ⟨j, hj, hfound⟩ := h
      cases j with
      | zero => exact absurd (by simpa using hmultiple) hfound
      | succ j =>
        refine ih ⟨j, Nat.lt_of_succ_lt_succ hj, ?_⟩
        rw [show s - 1 - (j : ℕ) = s - ((j + 1 : ℕ) : ℤ) by push_cast; ring]
        exact hfound

end Interval

namespace Magnitude.Canonical

variable {v : Magnitude} {k n : ℕ} {s : ℤ}

theorem exponent_le (hv : v.Canonical k) (hk : k < infinityIndex) : v.exponent ≤ 971 := by
  have hindex := hv.index
  have hnormal := hv.normal
  unfold infinityIndex at hk
  norm_num at hindex hnormal
  omega

theorem le_low_lt_middle (hpos : 0 < v.mantissa) :
    2 ≤ (Interval.ofMagnitude v).low ∧
      (Interval.ofMagnitude v).low < (Interval.ofMagnitude v).middle := by
  simp only [Interval.ofMagnitude]
  split <;> omega

/-- The fewest digits of a magnitude lie in its interval. -/
theorem covers_shortestMagnitude (hv : v.Canonical k) (hk : k < infinityIndex)
    (hpos : 0 < v.mantissa) : (shortestMagnitude v).digits ≠ 0 ∧
      (Interval.ofMagnitude v).Covers
        ((shortestMagnitude v).digits * 10 ^ (shortestMagnitude v).exponent) := by
  have hlog : v.mantissa.log2 ≤ 52 := by
    have hlt := (Nat.log2_lt hpos.ne').2 hv.mantissa_lt
    omega
  unfold shortestMagnitude
  rw [if_neg hpos.ne']
  refine Interval.covers_search ⟨23, by norm_num, Interval.multiple?_ne_none ?_ ?_ ?_⟩
  · exact (le_low_lt_middle hpos).2
  · simp only [Interval.ofMagnitude]
    omega
  · refine pow_ten_le hv.least (hv.exponent_le hk) ?_
    unfold decimalCeiling
    omega

-- No size that the interval takes in is decided without a quotient.
theorem size_of_covers (hv : v.Canonical k) (hk : k < infinityIndex) (hpos : 0 < v.mantissa)
    (hn : n ≠ 0) (h : (Interval.ofMagnitude v).Covers (n * 10 ^ s)) :
    -400 < (digitCount n + s : ℤ) ∧ (digitCount n + s : ℤ) < 401 := by
  have hleast := hv.least
  have hmost := hv.exponent_le hk
  have hmantissa := hv.mantissa_lt
  obtain ⟨hlow, hhigh⟩ : (Interval.ofMagnitude v).low * 2 ^ (v.exponent - 2) ≤ (n * 10 ^ s : ℚ) ∧
      (n * 10 ^ s : ℚ) ≤ (Interval.ofMagnitude v).high * 2 ^ (v.exponent - 2) := by
    unfold Interval.Covers at h
    split at h
    · exact h
    · exact ⟨h.1.le, h.2.le⟩
  have hsize : (10 : ℚ) ^ (digitCount n + s : ℤ) = 10 ^ digitCount n * 10 ^ s := by
    rw [zpow_add₀ (by norm_num), zpow_natCast]
  constructor
  · rw [← zpow_lt_zpow_iff_right₀ (by norm_num : (1 : ℚ) < 10)]
    have hdigits : (n : ℚ) < 10 ^ digitCount n := by exact_mod_cast lt_pow_digitCount n
    calc (10 : ℚ) ^ (-400 : ℤ) < 2 ^ (-1300 : ℤ) := by
          rw [zpow_neg, zpow_neg]
          exact inv_strictAnti₀ (by positivity) pow_two_lt_pow_ten
      _ ≤ 2 ^ (1 + -1076 : ℤ) := zpow_le_zpow_right₀ one_le_two (by norm_num)
      _ = 2 * 2 ^ (-1076 : ℤ) := by rw [zpow_add₀ two_ne_zero, zpow_one]
      _ ≤ (Interval.ofMagnitude v).low * 2 ^ (v.exponent - 2) := by
        gcongr
        · exact_mod_cast (le_low_lt_middle hpos).1
        · exact one_le_two
        · omega
      _ ≤ n * 10 ^ s := hlow
      _ < 10 ^ (digitCount n + s : ℤ) := by
        rw [hsize]
        gcongr
  · rw [← zpow_lt_zpow_iff_right₀ (by norm_num : (1 : ℚ) < 10)]
    have hdigits : (10 ^ digitCount n : ℚ) ≤ 10 * n := by
      exact_mod_cast pow_digitCount_le (Nat.pos_of_ne_zero hn)
    calc (10 : ℚ) ^ (digitCount n + s : ℤ) ≤ 10 * n * 10 ^ s := by
          rw [hsize]
          gcongr
      _ = 10 * (n * 10 ^ s) := mul_assoc _ _ _
      _ ≤ 10 * (2 ^ (56 : ℤ) * 2 ^ (969 : ℤ)) := by
        refine mul_le_mul_of_nonneg_left (hhigh.trans ?_) (by norm_num)
        gcongr
        · simp only [Interval.ofMagnitude]
          exact_mod_cast (by omega : 4 * v.mantissa + 2 ≤ 2 ^ 56)
        · exact one_le_two
        · omega
      _ ≤ 10 * 2 ^ (1300 : ℤ) := by
        rw [← zpow_add₀ two_ne_zero]
        exact mul_le_mul_of_nonneg_left (zpow_le_zpow_right₀ one_le_two (by norm_num))
          (by norm_num)
      _ < 10 * 10 ^ (400 : ℤ) := mul_lt_mul_of_pos_left pow_two_lt_pow_ten (by norm_num)
      _ = 10 ^ (401 : ℤ) := by
        rw [← zpow_one_add₀ (by norm_num)]
        norm_num

/-- Digits that lie in the interval of a magnitude read as the magnitude. -/
theorem nearestDecimalIndex_eq (hv : v.Canonical k) (hk : k < infinityIndex) (hpos : 0 < v.mantissa)
    (hn : n ≠ 0) (h : (Interval.ofMagnitude v).Covers (n * 10 ^ s)) :
    nearestDecimalIndex n s = k := by
  obtain ⟨hlow, hhigh⟩ := hv.size_of_covers hk hpos hn h
  unfold nearestDecimalIndex
  dsimp only
  rw [if_neg hn, if_neg (by omega), if_neg (by omega)]
  refine hv.nearestIndex_eq hk hpos ?_ ?_ ?_
  · exact Nat.mul_pos (Nat.pos_of_ne_zero hn) (Nat.pow_pos (by norm_num))
  · exact Nat.pow_pos (by norm_num)
  · have hsplit := pow_toNat_div (show (10 : ℕ) ≠ 0 by norm_num) s
    rw [Nat.cast_mul, mul_div_assoc, hsplit]
    exact_mod_cast h

end Magnitude.Canonical

/-- Any digits that write the same decimal as the fewest digits of a finite magnitude read as the
magnitude. -/
theorem nearestDecimalIndex_of_shortest {k n : ℕ} {s : ℤ} (hk : k < infinityIndex)
    (h : (n * 10 ^ s : ℚ) = (shortestMagnitude (.ofIndex k)).digits *
      10 ^ (shortestMagnitude (.ofIndex k)).exponent) : nearestDecimalIndex n s = k := by
  have hv := Magnitude.canonical_ofIndex k
  by_cases hzero : (Magnitude.ofIndex k).mantissa = 0
  · have hk : k = 0 := by
      have hindex := hv.index
      have hnormal := hv.normal
      have hleast := hv.least
      rw [hzero] at hindex hnormal
      norm_num at hindex hnormal
      omega
    have hn : n = 0 := by
      rw [shortestMagnitude, if_pos hzero, Nat.cast_zero, zero_mul, mul_eq_zero] at h
      exact Nat.cast_eq_zero.1 (h.resolve_right (zpow_ne_zero _ (by norm_num)))
    rw [hn, hk, nearestDecimalIndex, if_pos rfl]
  · have hpos := Nat.pos_of_ne_zero hzero
    obtain ⟨hdigits, hcovers⟩ := hv.covers_shortestMagnitude hk hpos
    refine hv.nearestDecimalIndex_eq hk hpos ?_ (h ▸ hcovers)
    rintro rfl
    rw [Nat.cast_zero, zero_mul, eq_comm, mul_eq_zero, Nat.cast_eq_zero] at h
    exact h.elim hdigits (zpow_ne_zero _ (by norm_num))

end BenchLedger.Decimal
