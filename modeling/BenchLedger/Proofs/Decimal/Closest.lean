import BenchLedger.Proofs.Decimal.Differences
import BenchLedger.Proofs.Decimal.Numerals

/-!
# Rounding to the closest number

Rounding takes a number that is not negative to the closest one of binary64, of two that are equally
close to the even one.  Infinity stands at `2 ^ 1024`, where the next number would be if there were
one, so what is rounded to it is what lies beyond half of the last step.
-/

namespace BenchLedger.Decimal

section Grid

variable {v : Magnitude} {k : ℕ} {q : ℤ}

-- A magnitude lies on the grid of any places down to its own.
theorem Magnitude.exists_multiple (hq : q ≤ v.exponent) : ∃ a : ℕ, v.value = a * 2 ^ q := by
  obtain ⟨i, hi⟩ : ∃ i : ℕ, v.exponent = q + i := ⟨(v.exponent - q).toNat, by omega⟩
  refine ⟨v.mantissa * 2 ^ i, ?_⟩
  rw [value, hi, zpow_add₀ two_ne_zero, zpow_natCast]
  push_cast
  ring

-- Two numbers on one grid are a whole unit apart.
theorem add_unit_le {a b : ℕ} (h : (a : ℚ) * 2 ^ q < b * 2 ^ q) :
    (a : ℚ) * 2 ^ q + 2 ^ q ≤ b * 2 ^ q := by
  have hunit : (0 : ℚ) < 2 ^ q := zpow_pos two_pos q
  have hlt : (a : ℚ) < b := lt_of_mul_lt_mul_right h hunit.le
  have hle : (a : ℚ) + 1 ≤ b := by exact_mod_cast hlt
  calc (a : ℚ) * 2 ^ q + 2 ^ q = (a + 1) * 2 ^ q := by ring
    _ ≤ b * 2 ^ q := by gcongr

end Grid

namespace RoundsAt

variable {r : ℚ} {q : ℤ} {n j : ℕ}

-- A mantissa that is rounded up to `2 ^ 53` carries into the exponent.
theorem value_ofIndex (h : RoundsAt r q n) :
    (Magnitude.ofIndex ((q + 1074).toNat * Nat.pow 2 52 + n)).value = n * 2 ^ q := by
  have hleast := h.kept.least
  rcases h.mantissa_le.lt_or_eq with hlt | rfl
  · have hcanonical : Magnitude.Canonical ⟨n, q⟩ ((q + 1074).toNat * Nat.pow 2 52 + n) :=
      ⟨hlt, hleast, h.le_mantissa, rfl⟩
    rw [(Magnitude.canonical_ofIndex _).unique hcanonical]
    rfl
  · have hcanonical :
        Magnitude.Canonical ⟨2 ^ 52, q + 1⟩ ((q + 1074).toNat * Nat.pow 2 52 + 2 ^ 53) := by
      refine ⟨by norm_num, by show -1074 ≤ q + 1; omega, fun _ => le_rfl, ?_⟩
      have htoNat : (q + 1 + 1074).toNat = (q + 1074).toNat + 1 := by omega
      show (q + 1 + 1074).toNat * Nat.pow 2 52 + 2 ^ 52 = _
      rw [htoNat, Nat.add_mul, Nat.add_assoc]
      rfl
    rw [(Magnitude.canonical_ofIndex _).unique hcanonical]
    show ((2 ^ 52 : ℕ) : ℚ) * 2 ^ (q + 1) = ((2 ^ 53 : ℕ) : ℚ) * 2 ^ q
    rw [zpow_add_one₀ two_ne_zero]
    push_cast
    ring

theorem abs_sub_le (h : RoundsAt r q n) : |n * 2 ^ q - r| ≤ 2 ^ q / 2 := by
  have hunit : (0 : ℚ) < 2 ^ q := zpow_pos two_pos q
  obtain ⟨hlow, hhigh⟩ := h.rounds.near
  rw [le_div_iff₀ hunit] at hlow
  rw [div_le_iff₀ hunit] at hhigh
  rw [abs_le]
  constructor <;> linarith

-- Half way between two neighbours the even one is taken.
theorem even_of_half (h : RoundsAt r q n) (hhalf : |n * 2 ^ q - r| = 2 ^ q / 2) : n % 2 = 0 := by
  have hunit : (0 : ℚ) < 2 ^ q := zpow_pos two_pos q
  by_contra hodd
  have hrounds := h.rounds
  rw [RoundsTo, if_neg hodd, lt_div_iff₀ hunit, div_lt_iff₀ hunit] at hrounds
  have hstrict : |n * 2 ^ q - r| < 2 ^ q / 2 := by
    rw [abs_lt]
    constructor <;> linarith
  exact absurd hhalf hstrict.ne

theorem add_unit_le_of_lt (h : RoundsAt r q n) (hr : n * 2 ^ q ≤ r)
    (hj : r < (Magnitude.ofIndex j).value) :
    n * 2 ^ q + 2 ^ q ≤ (Magnitude.ofIndex j).value := by
  have hplace := h.place_le (Magnitude.canonical_ofIndex j).roundsAt hj.le
  obtain ⟨a, ha⟩ := Magnitude.exists_multiple hplace
  rw [ha] at hj ⊢
  exact add_unit_le (hr.trans_lt hj)

theorem add_unit_le_of_gt (h : RoundsAt r q n) (hr : r < n * 2 ^ q)
    (hj : (Magnitude.ofIndex j).value < r) :
    (Magnitude.ofIndex j).value + 2 ^ q ≤ n * 2 ^ q := by
  have hcanonical := Magnitude.canonical_ofIndex j
  rcases le_or_gt q (Magnitude.ofIndex j).exponent with hplace | hplace
  · obtain ⟨a, ha⟩ := Magnitude.exists_multiple hplace
    rw [ha] at hj ⊢
    exact add_unit_le (hj.trans hr)
  · -- a number of lesser places lies below the first one that has the places of `r`
    have hfirst : ((2 ^ 52 : ℕ) : ℚ) * 2 ^ q = 2 ^ (q + 52) := by
      rw [zpow_add₀ two_ne_zero, mul_comm]
      norm_num
    have hkept := h.kept.ge (hcanonical.least.trans_lt hplace)
    have hbelow : (Magnitude.ofIndex j).value < ((2 ^ 52 : ℕ) : ℚ) * 2 ^ q := by
      rw [hfirst]
      refine hcanonical.roundsAt.kept.lt.trans_le (zpow_le_zpow_right₀ one_le_two ?_)
      omega
    rw [← hfirst] at hkept
    linarith [add_unit_le (hkept.trans_lt hr)]

end RoundsAt

section Distances

variable {a b r u : ℚ}

theorem closer_of_between (h : b ≤ a ∧ a ≤ r ∨ r ≤ a ∧ a ≤ b) :
    |a - r| ≤ |b - r| ∧ (|b - r| = |a - r| → b = a) := by
  rcases h with ⟨hba, har⟩ | ⟨hra, hab⟩
  · rw [abs_of_nonpos (by linarith), abs_of_nonpos (by linarith)]
    exact ⟨by linarith, fun h => by linarith⟩
  · rw [abs_of_nonneg (by linarith), abs_of_nonneg (by linarith)]
    exact ⟨by linarith, fun h => by linarith⟩

theorem closer_of_apart (ha : |a - r| ≤ u / 2) (hab : u ≤ |b - a|) :
    |a - r| ≤ |b - r| ∧ (|b - r| = |a - r| → |a - r| = u / 2) := by
  have htriangle := abs_sub_le b r a
  rw [abs_sub_comm r a] at htriangle
  exact ⟨by linarith, fun h => le_antisymm ha (by linarith)⟩

-- The negative of a number is as close as the number itself only where one of the two is zero.
theorem closer_of_mirrored (hr : 0 ≤ r) (hb : 0 ≤ b) (h : |a - r| ≤ |b - r|) :
    |a - r| ≤ |-b - r| ∧ (|-b - r| = |a - r| → |b - r| = |a - r| ∧ (r = 0 ∨ b = 0)) := by
  have hfar : |-b - r| = b + r := by
    rw [abs_of_nonpos (by linarith)]
    ring
  have hnear : |b - r| ≤ b + r := by
    rw [abs_le]
    constructor <;> linarith
  rw [hfar]
  refine ⟨h.trans hnear, fun heq => ?_⟩
  have hsame : |b - r| = b + r := le_antisymm hnear (heq.trans_le h)
  refine ⟨hsame.trans heq, ?_⟩
  rcases abs_choice (b - r) with hchoice | hchoice
  · exact .inl (by linarith)
  · exact .inr (by linarith)

end Distances

theorem value_ofIndex_le {j k : ℕ} (hjk : j ≤ k) (hk : k ≤ infinityIndex) :
    (Magnitude.ofIndex j).value ≤ (Magnitude.ofIndex k).value := by
  rw [← valueAt_natCast, ← valueAt_natCast]
  exact (valueAt_le_valueAt_iff (by omega) (by omega)).2 (by omega)

theorem value_ofIndex_infinityIndex :
    (Magnitude.ofIndex infinityIndex).value = 2 ^ (972 + 52 : ℤ) := by
  have hinfinity : Magnitude.ofIndex infinityIndex = ⟨2 ^ 52, 972⟩ := by decide
  rw [hinfinity, zpow_add₀ two_ne_zero, mul_comm]
  show ((2 ^ 52 : ℕ) : ℚ) * 2 ^ (972 : ℤ) = _
  norm_num

-- What would be rounded beyond infinity lies beyond it.
theorem RoundsAt.infinity_le {r : ℚ} {q : ℤ} {n : ℕ} (h : RoundsAt r q n)
    (hbeyond : infinityIndex < (q + 1074).toNat * Nat.pow 2 52 + n) :
    (Magnitude.ofIndex infinityIndex).value ≤ r := by
  have hpow : Nat.pow 2 52 = 4503599627370496 := by norm_num
  have hinfinity : infinityIndex = 2047 * 4503599627370496 := by decide
  have hmantissa : n ≤ 9007199254740992 := h.mantissa_le
  rw [hpow, hinfinity] at hbeyond
  have hplace : 972 ≤ q := by omega
  rw [value_ofIndex_infinityIndex]
  exact (zpow_le_zpow_right₀ one_le_two (by omega)).trans (h.kept.ge (by omega))

-- No number lies between `r` and what it is rounded to.
theorem le_value_roundIndex {r : ℚ} (hr : 0 ≤ r) {j : ℕ} (hj : j ≤ infinityIndex)
    (hjr : (Magnitude.ofIndex j).value ≤ r) :
    (Magnitude.ofIndex j).value ≤ (Magnitude.ofIndex (roundIndex r)).value := by
  have hmono := roundIndex_mono (Magnitude.value_nonneg _) hjr
  rw [Magnitude.roundIndex_ofIndex hj] at hmono
  exact value_ofIndex_le hmono (roundIndex_le hr)

theorem value_roundIndex_le {r : ℚ} (hr : 0 ≤ r) {j : ℕ} (hj : j ≤ infinityIndex)
    (hrj : r ≤ (Magnitude.ofIndex j).value) :
    (Magnitude.ofIndex (roundIndex r)).value ≤ (Magnitude.ofIndex j).value := by
  have hmono := roundIndex_mono hr hrj
  rw [Magnitude.roundIndex_ofIndex hj] at hmono
  exact value_ofIndex_le hmono hj

/-- No number is closer than the one that is rounded to, and one as close is the same unless that
one is even. -/
theorem roundIndex_closest {r : ℚ} (hr : 0 ≤ r) {j : ℕ} (hj : j ≤ infinityIndex) :
    |(Magnitude.ofIndex (roundIndex r)).value - r| ≤ |(Magnitude.ofIndex j).value - r| ∧
      (|(Magnitude.ofIndex j).value - r| = |(Magnitude.ofIndex (roundIndex r)).value - r| →
        (Magnitude.ofIndex j).value = (Magnitude.ofIndex (roundIndex r)).value ∨
          roundIndex r % 2 = 0) := by
  have hbelow := le_value_roundIndex hr hj
  have habove := value_roundIndex_le hr hj
  obtain ⟨q, n, h⟩ := exists_roundsAt hr
  have hround := h.roundIndex_eq hr
  rcases le_or_gt ((q + 1074).toNat * Nat.pow 2 52 + n) infinityIndex with hin | hbeyond
  · have hvalue : (Magnitude.ofIndex (roundIndex r)).value = n * 2 ^ q := by
      rw [hround, placeIndex, min_eq_left hin, h.value_ofIndex]
    have heven : n % 2 = 0 → roundIndex r % 2 = 0 := by
      have hpow : Nat.pow 2 52 = 2 * 2251799813685248 := by norm_num
      rw [hround, placeIndex, min_eq_left hin, hpow]
      omega
    rw [hvalue] at hbelow habove ⊢
    have hplaces : ((Magnitude.ofIndex j).value ≤ n * 2 ^ q ∧ n * 2 ^ q ≤ r ∨
        r ≤ n * 2 ^ q ∧ n * 2 ^ q ≤ (Magnitude.ofIndex j).value) ∨
        2 ^ q ≤ |(Magnitude.ofIndex j).value - n * 2 ^ q| := by
      rcases le_or_gt (n * 2 ^ q : ℚ) r with hle | hlt
      · rcases le_or_gt (Magnitude.ofIndex j).value r with hjr | hrj
        · exact .inl (.inl ⟨hbelow hjr, hle⟩)
        · exact .inr (le_abs.2 (.inl (by linarith [h.add_unit_le_of_lt hle hrj])))
      · rcases le_or_gt r (Magnitude.ofIndex j).value with hrj | hjr
        · exact .inl (.inr ⟨hlt.le, habove hrj⟩)
        · exact .inr (le_abs.2 (.inr (by linarith [h.add_unit_le_of_gt hlt hjr])))
    rcases hplaces with hbetween | hapart
    · obtain ⟨hle, heq⟩ := closer_of_between hbetween
      exact ⟨hle, fun h => .inl (heq h)⟩
    · obtain ⟨hle, hhalf⟩ := closer_of_apart h.abs_sub_le hapart
      exact ⟨hle, fun heq => .inr (heven (h.even_of_half (hhalf heq)))⟩
  · have hinfinity := h.infinity_le hbeyond
    have hindex : roundIndex r = infinityIndex := by
      rw [hround, placeIndex, min_eq_right hbeyond.le]
    rw [hindex]
    have hcloser := closer_of_between (.inl ⟨value_ofIndex_le hj le_rfl, hinfinity⟩)
    exact ⟨hcloser.1, fun h => .inl (hcloser.2 h)⟩

/-- `x` is the number closest to `r`, of two that are as close the even one.  The value of infinity
is `2 ^ 1024`. -/
structure IsClosest (x : Float) (r : ℚ) : Prop where
  notNaN : x.isNaN = false
  closest : ∀ y : Float, y.isNaN = false → |value x - r| ≤ |value y - r|
  even_of_tie : ∀ y : Float, y.isNaN = false → |value y - r| = |value x - r| →
    value y = value x ∨ magnitudeIndex x % 2 = 0

theorem isClosest_of_position {x : Float} {r : ℚ} (hr : 0 ≤ r) (h : position x = roundIndex r) :
    IsClosest x r := by
  have hx : x.isNaN = false := isNaN_of_position (h.trans (nearestPosition_of_nonneg hr).symm)
  have hvalue : value x = (Magnitude.ofIndex (roundIndex r)).value := by
    rw [value, h, valueAt_natCast]
  have hindex : magnitudeIndex x = roundIndex r := by
    rw [← natAbs_position, h, Int.natAbs_natCast]
  have hclosest (y : Float) (hy : y.isNaN = false) : |value x - r| ≤ |value y - r| ∧
      (|value y - r| = |value x - r| → value y = value x ∨ magnitudeIndex x % 2 = 0) := by
    obtain ⟨hle, htie⟩ := roundIndex_closest hr (natAbs_position_le hy)
    rw [← hvalue] at hle htie
    rw [hindex]
    have hnonneg := (Magnitude.ofIndex (position y).natAbs).value_nonneg
    rcases lt_or_ge (position y) 0 with hneg | hpos
    · have hy : value y = -(Magnitude.ofIndex (position y).natAbs).value := if_pos hneg
      obtain ⟨hmirrored, hzero⟩ := closer_of_mirrored hr hnonneg hle
      rw [hy]
      refine ⟨hmirrored, fun heq => ?_⟩
      obtain ⟨hsame, rfl | hb⟩ := hzero heq
      · exact .inr rfl
      · refine (htie hsame).imp_left fun hbx => ?_
        rw [← hbx, hb, neg_zero]
    · have hy : value y = (Magnitude.ofIndex (position y).natAbs).value := if_neg (not_lt.2 hpos)
      rw [hy]
      exact ⟨hle, htie⟩
  exact ⟨hx, fun y hy => (hclosest y hy).1, fun y hy => (hclosest y hy).2⟩

section Decimals

theorem nearestIndex_eq_roundIndex (num : ℕ) {den : ℕ} (hden : 0 < den) :
    nearestIndex num den = roundIndex (num / den) := by
  rcases Nat.eq_zero_or_pos num with rfl | hnum
  · rw [Nat.cast_zero, zero_div, roundIndex_zero, nearestIndex, if_pos rfl]
  · have hnonneg : (0 : ℚ) ≤ num / den := by positivity
    obtain ⟨q, n, h⟩ := exists_roundsAt hnonneg
    rw [h.roundIndex_eq hnonneg]
    exact nearestIndex_of_roundsTo hnum hden h.kept h.rounds

-- What is at most half of the least positive number is rounded to zero.
theorem roundIndex_eq_zero {r : ℚ} (hr : 0 ≤ r) (hsmall : r ≤ 2 ^ (-1075 : ℤ)) :
    roundIndex r = 0 := by
  have hhalf : (2 : ℚ) ^ (-1075 : ℤ) = 2 ^ (-1074 : ℤ) / 2 := by
    rw [show (-1075 : ℤ) = -1074 - 1 by norm_num, zpow_sub_one₀ two_ne_zero, div_eq_mul_inv]
  have hunit : (0 : ℚ) < 2 ^ (-1074 : ℤ) := zpow_pos two_pos _
  have h : RoundsAt r (-1074) 0 := by
    refine ⟨⟨le_rfl, ?_, fun h => absurd h (lt_irrefl _)⟩, ?_⟩
    · exact hsmall.trans_lt (zpow_lt_zpow_right₀ one_lt_two (by norm_num))
    · rw [RoundsTo, if_pos rfl, Nat.cast_zero]
      refine ⟨?_, ?_⟩
      · linarith [div_nonneg hr hunit.le]
      · rw [div_le_iff₀ hunit]
        linarith
  rw [h.roundIndex_eq hr]
  rfl

theorem roundIndex_eq_infinityIndex {r : ℚ} (hgreat : 2 ^ (1024 : ℤ) ≤ r) :
    roundIndex r = infinityIndex := by
  have hr : (0 : ℚ) ≤ r := (zpow_pos two_pos _).le.trans hgreat
  have hmono := roundIndex_mono (Magnitude.value_nonneg (.ofIndex infinityIndex))
    (value_ofIndex_infinityIndex.trans_le hgreat)
  rw [Magnitude.roundIndex_ofIndex le_rfl] at hmono
  exact le_antisymm (roundIndex_le hr) hmono

/-- The sizes that are decided without a quotient are rounded to zero and infinity all the same. -/
theorem nearestDecimalIndex_eq_roundIndex (digits : ℕ) (exponent : ℤ) :
    nearestDecimalIndex digits exponent = roundIndex (digits * 10 ^ exponent) := by
  have hten : (0 : ℚ) < 10 ^ exponent := zpow_pos (by norm_num) _
  have hnonneg : (0 : ℚ) ≤ digits * 10 ^ exponent := by positivity
  have hsize : (10 : ℚ) ^ (digitCount digits + exponent : ℤ) =
      10 ^ digitCount digits * 10 ^ exponent := by
    rw [zpow_add₀ (by norm_num), zpow_natCast]
  unfold nearestDecimalIndex
  dsimp only
  split_ifs with hzero hsmall hgreat
  · rw [hzero, Nat.cast_zero, zero_mul, roundIndex_zero]
  · have hdigits : (digits : ℚ) < 10 ^ digitCount digits := by
      exact_mod_cast lt_pow_digitCount digits
    refine (roundIndex_eq_zero hnonneg ?_).symm
    calc (digits : ℚ) * 10 ^ exponent ≤ 10 ^ (digitCount digits + exponent : ℤ) := by
          rw [hsize]
          gcongr
      _ ≤ 10 ^ (-400 : ℤ) := zpow_le_zpow_right₀ (by norm_num) hsmall.le
      _ ≤ 2 ^ (-1300 : ℤ) := by
        rw [zpow_neg, zpow_neg]
        exact inv_anti₀ (by positivity) pow_two_lt_pow_ten.le
      _ ≤ 2 ^ (-1075 : ℤ) := zpow_le_zpow_right₀ one_le_two (by norm_num)
  · have hdigits : (10 ^ digitCount digits : ℚ) ≤ 10 * digits := by
      exact_mod_cast pow_digitCount_le (Nat.pos_of_ne_zero hzero)
    refine (roundIndex_eq_infinityIndex ?_).symm
    calc (2 : ℚ) ^ (1024 : ℤ) ≤ 2 ^ (1300 : ℤ) := zpow_le_zpow_right₀ one_le_two (by norm_num)
      _ ≤ 10 ^ (400 : ℤ) := pow_two_lt_pow_ten.le
      _ ≤ 10 ^ (digitCount digits + exponent - 1 : ℤ) :=
        zpow_le_zpow_right₀ (by norm_num) (by omega)
      _ = 10 ^ digitCount digits * 10 ^ exponent / 10 := by
        rw [zpow_sub_one₀ (by norm_num), hsize, div_eq_mul_inv]
      _ ≤ digits * 10 ^ exponent := by
        rw [div_le_iff₀ (by norm_num)]
        nlinarith
  · have hden : 0 < Nat.pow 10 (-exponent).toNat := Nat.pow_pos (by norm_num)
    rw [nearestIndex_eq_roundIndex _ hden, Nat.cast_mul, mul_div_assoc,
      pow_toNat_div (by norm_num)]
    rfl

/-- What a decimal is read as is the number closest to it. -/
theorem isClosest_nearest (digits : ℕ) (exponent : ℤ) :
    IsClosest (nearest false digits exponent) (digits * 10 ^ exponent) := by
  have hle := nearestDecimalIndex_le digits exponent
  have hposition : position (nearest false digits exponent) =
      nearestDecimalIndex digits exponent := by
    rw [position, nearest, isNegative_ofIndex false hle, magnitudeIndex_ofIndex false hle]
    rfl
  rw [nearestDecimalIndex_eq_roundIndex] at hposition
  exact isClosest_of_position (by positivity) hposition

end Decimals

end BenchLedger.Decimal
