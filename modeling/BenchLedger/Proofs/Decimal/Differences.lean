import BenchLedger.Proofs.Decimal.Values

/-!
# Exact differences

A number with few enough binary places is computed exactly.  So is the difference of two numbers
that are close to each other, and two numbers that are not equal differ by at least one unit in the
last place of the less of them.
-/

namespace BenchLedger.Decimal

/-- A number that is not negative, with as many binary places as a mantissa has. -/
def Representable (r : ℚ) : Prop :=
  ∃ (n : ℕ) (e : ℤ), n < 2 ^ 53 ∧ -1074 ≤ e ∧ r = n * 2 ^ e

theorem representable_pow {e : ℤ} (he : -1074 ≤ e) : Representable (2 ^ e) :=
  ⟨1, e, by norm_num, he, by rw [Nat.cast_one, one_mul]⟩

-- The number may have more places at its end than the mantissa that stands for it.
theorem Representable.exists_canonical {r : ℚ} (h : Representable r) :
    ∃ v k, Magnitude.Canonical v k ∧ v.value = r := by
  obtain ⟨n, e, hn, he, rfl⟩ := h
  have hunit : (0 : ℚ) < 2 ^ e := zpow_pos two_pos e
  have hnonneg : (0 : ℚ) ≤ n * 2 ^ e := mul_nonneg (Nat.cast_nonneg n) hunit.le
  obtain ⟨q, m, hround⟩ := exists_roundsAt hnonneg
  have hplace : q ≤ e := by
    by_contra hlt
    have hfew : (n : ℚ) * 2 ^ e < 2 ^ (e + 53) := by
      rw [add_comm, zpow_add₀ two_ne_zero]
      gcongr
      exact_mod_cast hn
    have hpow := (hround.kept.ge (by omega)).trans_lt hfew
    have hexponent := (zpow_lt_zpow_iff_right₀ (one_lt_two : (1 : ℚ) < 2)).1 hpow
    omega
  obtain ⟨k, hk⟩ : ∃ k : ℕ, e = q + k := ⟨(e - q).toNat, by omega⟩
  have hplaces : (n : ℚ) * 2 ^ e / 2 ^ q = (n * 2 ^ k : ℕ) := by
    have hne : (2 : ℚ) ^ q ≠ 0 := zpow_ne_zero q two_ne_zero
    rw [div_eq_iff hne, hk, zpow_add₀ two_ne_zero, zpow_natCast]
    push_cast
    ring
  have hself := roundsTo_self (n * 2 ^ k)
  have hrounds := hround.rounds
  rw [hplaces] at hrounds
  have hm : m = n * 2 ^ k := le_antisymm (hrounds.mono hself le_rfl) (hself.mono hrounds le_rfl)
  have hvalue : (n : ℚ) * 2 ^ e = m * 2 ^ q := by
    rw [hm, ← hplaces, div_mul_cancel₀ _ (zpow_ne_zero q two_ne_zero)]
  have hq : (0 : ℚ) < 2 ^ q := zpow_pos two_pos q
  have hkept := hround.kept
  rw [hvalue] at hkept
  refine ⟨⟨m, q⟩, _, ⟨?_, hkept.least, fun hleast => ?_, rfl⟩, hvalue.symm⟩
  · have hlt := hkept.lt
    rw [add_comm, zpow_add₀ two_ne_zero, mul_lt_mul_iff_left₀ hq] at hlt
    exact_mod_cast hlt
  · have hge := hkept.ge hleast
    rw [add_comm, zpow_add₀ two_ne_zero, mul_le_mul_iff_left₀ hq] at hge
    exact_mod_cast hge

-- What can be represented and is not too great is the value of its position.
theorem Representable.valueAt_nearestPosition {r : ℚ} (h : Representable r) {bound : Float}
    (hbound : bound.isFinite = true) (hle : r ≤ value bound) :
    valueAt (nearestPosition r) = r := by
  obtain ⟨v, k, hcanonical, rfl⟩ := h.exists_canonical
  have hround := nearestPosition_of_nonneg v.value_nonneg
  rw [hcanonical.roundsAt.roundIndex_eq v.value_nonneg, placeIndex, hcanonical.index] at hround
  have hmono := nearestPosition_mono hle
  rw [nearestPosition_value (isNaN_of_isFinite hbound), hround] at hmono
  have hlast := isFinite_iff.1 hbound
  rw [← natAbs_position] at hlast
  have hk : min k infinityIndex = k := min_eq_left (by omega)
  rw [hround, hk, valueAt_natCast, (Magnitude.canonical_ofIndex k).unique hcanonical]

section Neighbours

theorem Magnitude.value_succ (k : ℕ) :
    (ofIndex (k + 1)).value = (ofIndex k).value + 2 ^ (ofIndex k).exponent := by
  have hcanonical := canonical_ofIndex k
  generalize ofIndex k = v at hcanonical
  obtain ⟨m, e⟩ := v
  obtain ⟨hlt, hleast, hnormal, hindex⟩ := hcanonical
  dsimp only at hlt hleast hnormal hindex
  show _ = (m : ℚ) * 2 ^ e + 2 ^ e
  by_cases hfull : m + 1 = 2 ^ 53
  · -- the next mantissa has one place more, and starts again
    have hnext : Canonical ⟨2 ^ 52, e + 1⟩ (k + 1) := by
      refine ⟨by norm_num, by show -1074 ≤ e + 1; omega, fun _ => le_rfl, ?_⟩
      have htoNat : (e + 1 + 1074).toNat = (e + 1074).toNat + 1 := by omega
      show (e + 1 + 1074).toNat * Nat.pow 2 52 + 2 ^ 52 = k + 1
      rw [htoNat, Nat.add_mul, ← hindex, Nat.add_assoc, Nat.add_assoc, hfull]
      rfl
    rw [(canonical_ofIndex (k + 1)).unique hnext]
    show ((2 ^ 52 : ℕ) : ℚ) * 2 ^ (e + 1) = _
    have hm : (m : ℚ) + 1 = 2 ^ 53 := by exact_mod_cast hfull
    rw [← add_one_mul (m : ℚ), hm, zpow_add_one₀ two_ne_zero]
    push_cast
    ring
  · have hnext : Canonical ⟨m + 1, e⟩ (k + 1) := by
      refine ⟨by show m + 1 < 2 ^ 53; omega, hleast, fun h => (hnormal h).trans (Nat.le_succ m), ?_⟩
      show (e + 1074).toNat * Nat.pow 2 52 + (m + 1) = k + 1
      rw [← hindex, Nat.add_assoc]
    rw [(canonical_ofIndex (k + 1)).unique hnext]
    show ((m + 1 : ℕ) : ℚ) * 2 ^ e = _
    push_cast
    ring

variable {x y : Float}

-- The least number above another one is at most 53 places longer than their difference.
theorem exists_unit_of_lt (hx : 0 ≤ position x) (hy : y.isFinite = true)
    (hlt : position x < position y) :
    ∃ e : ℤ, -1074 ≤ e ∧ 2 ^ e ≤ value y - value x ∧ value y ≤ 2 ^ 53 * 2 ^ e := by
  obtain ⟨k, hk⟩ : ∃ k : ℕ, position y = (k + 1 : ℕ) := ⟨(position y).toNat - 1, by omega⟩
  have hlast := natAbs_position_le (isNaN_of_isFinite hy)
  have hcanonical := Magnitude.canonical_ofIndex k
  have hvalue : value y =
      (Magnitude.ofIndex k).value + 2 ^ (Magnitude.ofIndex k).exponent := by
    rw [value, hk, valueAt_natCast, Magnitude.value_succ]
  have hbelow : value x ≤ (Magnitude.ofIndex k).value := by
    rw [← valueAt_natCast]
    exact (valueAt_le_valueAt_iff (by omega) (by omega)).2 (by omega)
  refine ⟨(Magnitude.ofIndex k).exponent, hcanonical.least, ?_, ?_⟩
  · rw [hvalue]
    linarith
  · have hm : ((Magnitude.ofIndex k).mantissa : ℚ) + 1 ≤ 2 ^ 53 := by
      exact_mod_cast hcanonical.mantissa_lt
    rw [hvalue, Magnitude.value, ← add_one_mul]
    gcongr

-- Two numbers of which one is at most twice the other.
theorem value_sub_of_le_double (hx : x.isFinite = true) (hy : y.isFinite = true)
    (hpos : 0 ≤ position y) (hle : position y ≤ position x) (hdouble : value x ≤ 2 * value y) :
    value (x - y) = value x - value y := by
  have hxy := (value_le_value_iff (isNaN_of_isFinite hy) (isNaN_of_isFinite hx)).2 hle
  obtain ⟨j, hj⟩ : ∃ j : ℕ, position y = j := ⟨(position y).toNat, by omega⟩
  obtain ⟨k, hk⟩ : ∃ k : ℕ, position x = k := ⟨(position x).toNat, by omega⟩
  have hcy := Magnitude.canonical_ofIndex j
  have hcx := Magnitude.canonical_ofIndex k
  have hvy : value y = (Magnitude.ofIndex j).value := by rw [value, hj, valueAt_natCast]
  have hvx : value x = (Magnitude.ofIndex k).value := by rw [value, hk, valueAt_natCast]
  have hplace := hcy.roundsAt.place_le hcx.roundsAt (by rwa [← hvx, ← hvy])
  generalize Magnitude.ofIndex j = v at hcy hvy hplace
  generalize Magnitude.ofIndex k = w at hcx hvx hplace
  obtain ⟨m, e⟩ := v
  obtain ⟨m', e'⟩ := w
  dsimp only at hplace
  obtain ⟨i, rfl⟩ : ∃ i : ℕ, e' = e + i := ⟨(e' - e).toNat, by omega⟩
  have hunit : (0 : ℚ) < 2 ^ e := zpow_pos two_pos e
  have hvy : value y = m * 2 ^ e := hvy
  have hvx : value x = (m' * 2 ^ i : ℕ) * 2 ^ e := by
    rw [hvx, Magnitude.value, zpow_add₀ two_ne_zero, zpow_natCast]
    push_cast
    ring
  generalize m' * 2 ^ i = n at hvx
  rw [hvx, hvy] at hxy hdouble
  have hmn : m ≤ n := by
    have hcast := le_of_mul_le_mul_right hxy hunit
    exact_mod_cast hcast
  have hnm : n ≤ 2 * m := by
    rw [← mul_assoc] at hdouble
    have hcast := le_of_mul_le_mul_right hdouble hunit
    exact_mod_cast hcast
  have hexact : Representable (value x - value y) := by
    have hrest : n - m ≤ m := by omega
    refine ⟨n - m, e, hrest.trans_lt hcy.mantissa_lt, hcy.least, ?_⟩
    rw [hvx, hvy, Nat.cast_sub hmn]
    ring
  have hbound : value x - value y ≤ value x := by
    have hnonneg := (value_nonneg_iff (isNaN_of_isFinite hy)).2 hpos
    linarith
  rw [value, position_sub hx hy]
  exact hexact.valueAt_nearestPosition hx hbound

end Neighbours

-- The least positive number.
theorem valueAt_one : valueAt 1 = 2 ^ (-1074 : ℤ) := by
  show ((1 : ℕ) : ℚ) * 2 ^ (-1074 : ℤ) = _
  rw [Nat.cast_one, one_mul]

theorem nearestPosition_pos {r : ℚ} (h : 2 ^ (-1074 : ℤ) ≤ r) : 0 < nearestPosition r := by
  have hmono := nearestPosition_mono h
  rwa [← valueAt_one, nearestPosition_valueAt (by decide)] at hmono

end BenchLedger.Decimal
