import BenchLedger.Decimal.Shortest
import Mathlib.Algebra.Order.Field.Power
import Mathlib.Data.Rat.Cast.Order
import Mathlib.Tactic.FieldSimp
import Mathlib.Tactic.Linarith
import Mathlib.Tactic.NormNum
import Mathlib.Tactic.Positivity
import Mathlib.Tactic.Ring

/-!
# Rounding to binary64

The fractions that round to a magnitude are those of its interval.  Sizes and intervals are
compared as rational numbers, since the computations on pairs of natural numbers split each power
into a numerator and a denominator.
-/

namespace BenchLedger.Decimal

-- A power with any exponent, as the computations split it.
theorem pow_toNat_div {b : ℕ} (hb : b ≠ 0) (z : ℤ) :
    (Nat.pow b z.toNat : ℚ) / (Nat.pow b (-z).toNat : ℚ) = (b : ℚ) ^ z := by
  have hb : (b : ℚ) ≠ 0 := Nat.cast_ne_zero.2 hb
  obtain ⟨n, rfl | rfl⟩ := z.eq_nat_or_neg
  · simp
  · simp

theorem pow_toNat_eq {b : ℕ} (hb : b ≠ 0) (z : ℤ) :
    (Nat.pow b z.toNat : ℚ) = (b : ℚ) ^ z * (Nat.pow b (-z).toNat : ℚ) := by
  have hlow : (Nat.pow b (-z).toNat : ℚ) ≠ 0 :=
    Nat.cast_ne_zero.2 (Nat.pow_pos (Nat.pos_of_ne_zero hb)).ne'
  rw [← pow_toNat_div hb, div_mul_cancel₀ _ hlow]

/-- `s` rounds to `n`: it is nearer to `n` than to any other number, or half way between `n` and
another one and `n` is even. -/
def RoundsTo (n : ℕ) (s : ℚ) : Prop :=
  if n % 2 = 0 then (n - 1 / 2 ≤ s ∧ s ≤ n + 1 / 2) else (n - 1 / 2 < s ∧ s < n + 1 / 2)

-- The same in whole numbers.
theorem RoundsTo.bounds {num den n : ℕ} (hden : 0 < den) (h : RoundsTo n (num / den)) :
    2 * n * den ≤ 2 * num + den ∧ 2 * num ≤ 2 * n * den + den ∧
      (n % 2 ≠ 0 → 2 * n * den ≠ 2 * num + den ∧ 2 * num ≠ 2 * n * den + den) := by
  have hd : (0 : ℚ) < den := Nat.cast_pos.2 hden
  unfold RoundsTo at h
  split at h
  case isTrue heven =>
    rw [le_div_iff₀ hd, div_le_iff₀ hd] at h
    refine ⟨?_, ?_, fun hodd => absurd heven hodd⟩
    · have hlow : ((2 * n * den : ℕ) : ℚ) ≤ ((2 * num + den : ℕ) : ℚ) := by
        push_cast
        linarith [h.1]
      exact_mod_cast hlow
    · have hhigh : ((2 * num : ℕ) : ℚ) ≤ ((2 * n * den + den : ℕ) : ℚ) := by
        push_cast
        linarith [h.2]
      exact_mod_cast hhigh
  case isFalse hodd =>
    rw [lt_div_iff₀ hd, div_lt_iff₀ hd] at h
    have hlow : ((2 * n * den : ℕ) : ℚ) < ((2 * num + den : ℕ) : ℚ) := by
      push_cast
      linarith [h.1]
    have hhigh : ((2 * num : ℕ) : ℚ) < ((2 * n * den + den : ℕ) : ℚ) := by
      push_cast
      linarith [h.2]
    have hlow : 2 * n * den < 2 * num + den := by exact_mod_cast hlow
    have hhigh : 2 * num < 2 * n * den + den := by exact_mod_cast hhigh
    exact ⟨hlow.le, hhigh.le, fun _ => ⟨hlow.ne, hhigh.ne⟩⟩

theorem roundDiv_eq {num den n : ℕ} (hden : 0 < den) (h : RoundsTo n (num / den)) :
    roundDiv num den = n := by
  obtain ⟨hlow, hhigh, htie⟩ := h.bounds hden
  have hsplit := Nat.div_add_mod num den
  have hmod := Nat.mod_lt num hden
  unfold roundDiv
  generalize num / den = q at hsplit ⊢
  generalize num % den = r at hsplit hmod ⊢
  subst hsplit
  -- the quotient is `n`, or the number below it
  have hle : q ≤ n := by
    by_contra hlt
    have hmul : (n + 1) * den ≤ q * den := Nat.mul_le_mul_right den (by omega)
    nlinarith
  have hge : n ≤ q + 1 := by
    by_contra hlt
    have hmul : (q + 2) * den ≤ n * den := Nat.mul_le_mul_right den (by omega)
    nlinarith
  have hexpand : 2 * (den * q + r) = 2 * q * den + 2 * r := by ring
  have hexpand' : 2 * (q + 1) * den = 2 * q * den + 2 * den := by ring
  obtain rfl | rfl : n = q ∨ n = q + 1 := by omega
  · rw [hexpand] at hhigh htie
    rw [if_pos (by omega)]
  · rw [hexpand, hexpand'] at hlow htie
    rw [if_neg (by omega)]

/-- What `keptExponent` says of a fraction: with that many binary places it has 53 digits at most,
and 53 exactly unless it lies below the least normal magnitude. -/
structure KeptAt (q : ℤ) (t : ℚ) : Prop where
  least : -1074 ≤ q
  lt : t < 2 ^ (q + 53)
  ge : -1074 < q → 2 ^ (q + 52) ≤ t

theorem KeptAt.unique {q q' : ℤ} {t : ℚ} (h : KeptAt q t) (h' : KeptAt q' t) : q = q' := by
  have hle : ∀ {q q' : ℤ}, KeptAt q t → KeptAt q' t → q' ≤ q := by
    intro q q' h h'
    by_contra hlt
    have hpow : (2 : ℚ) ^ (q' + 52) < 2 ^ (q + 53) :=
      (h'.ge (by have := h.least; omega)).trans_lt h.lt
    have hexponent := (zpow_lt_zpow_iff_right₀ (one_lt_two : (1 : ℚ) < 2)).1 hpow
    omega
  exact le_antisymm (hle h' h) (hle h h')

theorem log2_bounds {n : ℕ} (hn : 0 < n) :
    (2 : ℚ) ^ (n.log2 : ℤ) ≤ n ∧ (n : ℚ) < 2 ^ (n.log2 + 1 : ℤ) := by
  constructor
  · exact_mod_cast Nat.log2_self_le hn.ne'
  · exact_mod_cast Nat.lt_log2_self (n := n)

-- Whether the estimate of the exponent leaves a digit too few.
theorem short_iff {num den : ℕ} (hden : 0 < den) (q : ℤ) :
    num * Nat.pow 2 (-q).toNat < Nat.pow 2 52 * (den * Nat.pow 2 q.toNat) ↔
      (num / den : ℚ) < 2 ^ (q + 52) := by
  have hd : (0 : ℚ) < den := Nat.cast_pos.2 hden
  have hlow : (0 : ℚ) < (Nat.pow 2 (-q).toNat : ℕ) := Nat.cast_pos.2 (Nat.pow_pos two_pos)
  have hpow : (2 : ℚ) ^ (q + 52) =
      Nat.pow 2 52 * ((Nat.pow 2 q.toNat : ℕ) / (Nat.pow 2 (-q).toNat : ℕ) : ℚ) := by
    have hsplit := pow_toNat_div (two_ne_zero : (2 : ℕ) ≠ 0) q
    rw [zpow_add₀ two_ne_zero, mul_comm]
    push_cast at hsplit ⊢
    rw [hsplit]
    norm_num
  rw [hpow, div_lt_iff₀ hd, mul_div_assoc', div_mul_eq_mul_div, lt_div_iff₀ hlow]
  rw [← Nat.cast_lt (α := ℚ)]
  push_cast
  rw [mul_assoc, mul_comm (den : ℚ)]

theorem keptAt_keptExponent {num den : ℕ} (hnum : 0 < num) (hden : 0 < den) :
    KeptAt (keptExponent num den) (num / den) := by
  have hd : (0 : ℚ) < den := Nat.cast_pos.2 hden
  have htwo : (1 : ℚ) ≤ 2 := one_le_two
  obtain ⟨hnumlow, hnumhigh⟩ := log2_bounds hnum
  obtain ⟨hdenlow, hdenhigh⟩ := log2_bounds hden
  obtain ⟨estimate, hestimate⟩ :
      ∃ estimate : ℤ, estimate = (num.log2 : ℤ) - den.log2 - 52 := ⟨_, rfl⟩
  -- the quotient of the leading powers of two is right up to a factor of two
  have hupper : (num / den : ℚ) < 2 ^ (estimate + 53) := by
    rw [div_lt_iff₀ hd]
    calc (num : ℚ) < 2 ^ (num.log2 + 1 : ℤ) := hnumhigh
      _ = 2 ^ (estimate + 53) * 2 ^ (den.log2 : ℤ) := by
        rw [← zpow_add₀ two_ne_zero]
        congr 1
        omega
      _ ≤ 2 ^ (estimate + 53) * den := by gcongr
  have hlower : (2 : ℚ) ^ (estimate + 51) ≤ num / den := by
    rw [le_div_iff₀ hd]
    calc (2 : ℚ) ^ (estimate + 51) * den ≤ 2 ^ (estimate + 51) * 2 ^ (den.log2 + 1 : ℤ) := by
          gcongr
      _ = 2 ^ (num.log2 : ℤ) := by
        rw [← zpow_add₀ two_ne_zero]
        congr 1
        omega
      _ ≤ num := hnumlow
  unfold keptExponent
  simp only [← hestimate, short_iff hden]
  split
  case isTrue hshort =>
    refine ⟨by omega, hshort.trans_le ?_, fun hgt => ?_⟩
    · exact zpow_le_zpow_right₀ htwo (by omega)
    · rw [show max (estimate - 1) (-1074) + 52 = estimate + 51 by omega]
      exact hlower
  case isFalse hlong =>
    refine ⟨by omega, hupper.trans_le ?_, fun hgt => ?_⟩
    · exact zpow_le_zpow_right₀ htwo (by omega)
    · rw [show max estimate (-1074) + 52 = estimate + 52 by omega]
      exact not_lt.1 hlong

theorem nearestIndex_of_roundsTo {num den m : ℕ} {q : ℤ} (hnum : 0 < num) (hden : 0 < den)
    (hq : KeptAt q (num / den)) (h : RoundsTo m (num / den / 2 ^ q)) :
    nearestIndex num den = min ((q + 1074).toNat * Nat.pow 2 52 + m) infinityIndex := by
  have hkept : keptExponent num den = q := (keptAt_keptExponent hnum hden).unique hq
  have hscaled : ((num * Nat.pow 2 (-q).toNat : ℕ) / (den * Nat.pow 2 q.toNat : ℕ) : ℚ) =
      num / den / 2 ^ q := by
    have hsplit := pow_toNat_div (two_ne_zero : (2 : ℕ) ≠ 0) q
    push_cast at hsplit ⊢
    rw [← hsplit]
    have hlow : ((2 : ℚ).pow (-q).toNat) ≠ 0 := pow_ne_zero _ two_ne_zero
    field_simp
  have hden' : 0 < den * Nat.pow 2 q.toNat := Nat.mul_pos hden (Nat.pow_pos two_pos)
  unfold nearestIndex
  rw [if_neg hnum.ne', hkept]
  dsimp only
  rw [roundDiv_eq hden' (hscaled ▸ h)]

/-- What the magnitudes with a number are like. -/
structure Magnitude.Canonical (v : Magnitude) (k : ℕ) : Prop where
  mantissa_lt : v.mantissa < 2 ^ 53
  least : -1074 ≤ v.exponent
  normal : -1074 < v.exponent → 2 ^ 52 ≤ v.mantissa
  index : (v.exponent + 1074).toNat * Nat.pow 2 52 + v.mantissa = k

theorem Magnitude.canonical_ofIndex (k : ℕ) : (ofIndex k).Canonical k := by
  have hpow : Nat.pow 2 52 = 4503599627370496 := by norm_num
  unfold ofIndex
  split
  case isTrue hsubnormal =>
    rw [hpow] at hsubnormal
    exact ⟨by norm_num; omega, le_rfl, fun h => absurd h (lt_irrefl _), by simp⟩
  case isFalse hnormal =>
    rw [hpow] at hnormal
    rw [hpow]
    refine ⟨?_, ?_, fun _ => ?_, ?_⟩
    · norm_num
      omega
    · norm_num
      omega
    · norm_num
    · norm_num
      omega

/-- The interval takes in that fraction. -/
def Interval.Covers (i : Interval) (t : ℚ) : Prop :=
  if i.closed then (i.low * 2 ^ i.exponent ≤ t ∧ t ≤ i.high * 2 ^ i.exponent)
  else (i.low * 2 ^ i.exponent < t ∧ t < i.high * 2 ^ i.exponent)

-- In units of the last binary place.
theorem Interval.Covers.bounds {i : Interval} {t : ℚ} (h : i.Covers t) :
    i.low / 4 ≤ t / 2 ^ (i.exponent + 2) ∧ t / 2 ^ (i.exponent + 2) ≤ i.high / 4 ∧
      (i.closed = false →
        i.low / 4 < t / 2 ^ (i.exponent + 2) ∧ t / 2 ^ (i.exponent + 2) < i.high / 4) := by
  have hunit : (0 : ℚ) < 2 ^ i.exponent := zpow_pos two_pos _
  have hplace : (2 : ℚ) ^ (i.exponent + 2) = 2 ^ i.exponent * 4 := by
    rw [zpow_add₀ two_ne_zero]
    norm_num
  unfold Covers at h
  rw [hplace, ← div_div]
  split at h
  case isTrue hclosed =>
    rw [← le_div_iff₀ hunit, ← div_le_iff₀ hunit] at h
    refine ⟨by gcongr; exact h.1, by gcongr; exact h.2, fun hopen => ?_⟩
    rw [hclosed] at hopen
    contradiction
  case isFalse =>
    rw [← lt_div_iff₀ hunit, ← div_lt_iff₀ hunit] at h
    have hlow : (i.low : ℚ) / 4 < t / 2 ^ i.exponent / 4 := by gcongr; exact h.1
    have hhigh : t / 2 ^ i.exponent / 4 < (i.high : ℚ) / 4 := by gcongr; exact h.2
    exact ⟨hlow.le, hhigh.le, fun _ => ⟨hlow, hhigh⟩⟩

namespace Magnitude.Canonical

variable {v : Magnitude} {k num den : ℕ}

theorem min_eq (hv : v.Canonical k) (hk : k < infinityIndex) :
    min ((v.exponent + 1074).toNat * Nat.pow 2 52 + v.mantissa) infinityIndex = k := by
  rw [hv.index]
  exact min_eq_left hk.le

-- The fraction has its leading digit where the magnitude has it.
theorem nearestIndex_of_bounds (hv : v.Canonical k) (hk : k < infinityIndex) (hnum : 0 < num)
    (hden : 0 < den) (hround : RoundsTo v.mantissa (num / den / 2 ^ v.exponent))
    (hlow : -1074 < v.exponent → 2 ^ 52 ≤ (num / den / 2 ^ v.exponent : ℚ)) :
    nearestIndex num den = k := by
  have hunit : (0 : ℚ) < 2 ^ v.exponent := zpow_pos two_pos _
  have hmantissa : (v.mantissa : ℚ) + 1 ≤ 2 ^ 53 := by exact_mod_cast hv.mantissa_lt
  have hupper : (num / den / 2 ^ v.exponent : ℚ) ≤ v.mantissa + 1 / 2 := by
    unfold RoundsTo at hround
    split at hround
    · exact hround.2
    · exact hround.2.le
  have hkept : KeptAt v.exponent (num / den) := by
    refine ⟨hv.least, ?_, fun hnormal => ?_⟩
    · rw [zpow_add₀ two_ne_zero, ← div_lt_iff₀' hunit]
      calc (num / den / 2 ^ v.exponent : ℚ) ≤ v.mantissa + 1 / 2 := hupper
        _ < 2 ^ (53 : ℤ) := by
          norm_num at hmantissa ⊢
          linarith
    · rw [zpow_add₀ two_ne_zero, ← le_div_iff₀' hunit]
      exact_mod_cast hlow hnormal
  rw [nearestIndex_of_roundsTo hnum hden hkept hround, hv.min_eq hk]

-- Below a power of two the fraction has one place more, and its mantissa rounds up.
theorem nearestIndex_of_below (hv : v.Canonical k) (hk : k < infinityIndex) (hnum : 0 < num)
    (hden : 0 < den) (hmantissa : v.mantissa = 2 ^ 52) (hnormal : -1074 < v.exponent)
    (hlow : (2 ^ 52 - 1 / 4 : ℚ) ≤ num / den / 2 ^ v.exponent)
    (hlt : (num / den / 2 ^ v.exponent : ℚ) < 2 ^ 52) : nearestIndex num den = k := by
  have hunit : (0 : ℚ) < 2 ^ v.exponent := zpow_pos two_pos _
  have hhalf : (2 : ℚ) ^ v.exponent = 2 ^ (v.exponent - 1) * 2 := by
    rw [← zpow_add_one₀ two_ne_zero]
    congr 1
    omega
  have hkept : KeptAt (v.exponent - 1) (num / den) := by
    refine ⟨by omega, ?_, fun _ => ?_⟩
    · rw [show v.exponent - 1 + 53 = v.exponent + 52 by omega, zpow_add₀ two_ne_zero,
        ← div_lt_iff₀' hunit]
      exact_mod_cast hlt
    · rw [show v.exponent - 1 + 52 = v.exponent + 51 by omega, zpow_add₀ two_ne_zero,
        ← le_div_iff₀' hunit]
      refine le_trans ?_ hlow
      norm_num
  have hround : RoundsTo (2 ^ 53) (num / den / 2 ^ (v.exponent - 1)) := by
    have hdouble : (num / den / 2 ^ (v.exponent - 1) : ℚ) = num / den / 2 ^ v.exponent * 2 := by
      rw [hhalf]
      field_simp
    unfold RoundsTo
    rw [if_pos (by norm_num), hdouble]
    push_cast
    constructor <;> linarith
  have hcarry : (v.exponent - 1 + 1074).toNat * Nat.pow 2 52 + 2 ^ 53 =
      (v.exponent + 1074).toNat * Nat.pow 2 52 + v.mantissa := by
    have hplaces : (v.exponent + 1074).toNat = (v.exponent - 1 + 1074).toNat + 1 := by omega
    rw [hplaces, hmantissa, Nat.add_mul, Nat.add_assoc]
    norm_num
  rw [nearestIndex_of_roundsTo hnum hden hkept hround, hcarry, hv.min_eq hk]

/-- A fraction that the interval of a magnitude takes in rounds to the magnitude. -/
theorem nearestIndex_eq (hv : v.Canonical k) (hk : k < infinityIndex) (hpos : 0 < v.mantissa)
    (hnum : 0 < num) (hden : 0 < den) (h : (Interval.ofMagnitude v).Covers (num / den)) :
    nearestIndex num den = k := by
  obtain ⟨hlow, hhigh, hopen⟩ := h.bounds
  have hexponent : (Interval.ofMagnitude v).exponent + 2 = v.exponent := by
    simp [Interval.ofMagnitude]
  rw [hexponent] at hlow hhigh hopen
  have hhighEq : ((Interval.ofMagnitude v).high : ℚ) / 4 = v.mantissa + 1 / 2 := by
    simp only [Interval.ofMagnitude]
    push_cast
    ring
  rw [hhighEq] at hhigh hopen
  by_cases hpower : v.mantissa = Nat.pow 2 52 ∧ v.exponent ≠ -1074
  · -- the lower neighbour is only half as far away as the upper one
    obtain ⟨hmantissa, hne⟩ := hpower
    have hnormal : -1074 < v.exponent := lt_of_le_of_ne hv.least (Ne.symm hne)
    have hlowEq : ((Interval.ofMagnitude v).low : ℚ) / 4 = 2 ^ 52 - 1 / 4 := by
      have hplaces : (Interval.ofMagnitude v).low = 4 * v.mantissa - 1 := if_pos ⟨hmantissa, hne⟩
      rw [hplaces, hmantissa]
      norm_num
    rw [hlowEq] at hlow
    by_cases hlt : (num / den / 2 ^ v.exponent : ℚ) < 2 ^ 52
    · exact hv.nearestIndex_of_below hk hnum hden hmantissa hnormal hlow hlt
    · refine hv.nearestIndex_of_bounds hk hnum hden ?_ fun _ => not_lt.1 hlt
      unfold RoundsTo
      rw [hmantissa] at hhigh ⊢
      rw [if_pos (by norm_num)]
      push_cast at hhigh ⊢
      norm_num at hlt hhigh ⊢
      constructor <;> linarith
  · have hlowEq : ((Interval.ofMagnitude v).low : ℚ) / 4 = v.mantissa - 1 / 2 := by
      simp only [Interval.ofMagnitude, if_neg hpower]
      rw [Nat.cast_sub (by omega)]
      push_cast
      ring
    rw [hlowEq] at hlow hopen
    refine hv.nearestIndex_of_bounds hk hnum hden ?_ fun hnormal => ?_
    · unfold RoundsTo
      split
      · exact ⟨hlow, hhigh⟩
      case isFalse hodd => exact hopen (by simpa [Interval.ofMagnitude] using hodd)
    · -- the mantissa is more than a power of two, so half a place less is one still
      have hmantissa : 2 ^ 52 + 1 ≤ v.mantissa := by
        have hle := hv.normal hnormal
        have hne : v.mantissa ≠ Nat.pow 2 52 := fun heq => hpower ⟨heq, by omega⟩
        norm_num at hle hne ⊢
        omega
      have hcast : (2 : ℚ) ^ 52 + 1 ≤ v.mantissa := by exact_mod_cast hmantissa
      linarith

end Magnitude.Canonical

end BenchLedger.Decimal
