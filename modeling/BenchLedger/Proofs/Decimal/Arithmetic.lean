import BenchLedger.Proofs.Decimal.Accuracy

/-!
# The arithmetic of binary64

A sum, a difference, a product and a quotient of finite numbers is at the position nearest to the
exact result.
-/

namespace BenchLedger.Decimal

open Float.Model (UnpackedFloat Format)
open Float.Model.UnpackedFloat (Sign Accuracy ExtendedMantissa)

-- A position has only one mantissa and exponent.
theorem Magnitude.Canonical.unique {v w : Magnitude} {k : ℕ} (hv : v.Canonical k)
    (hw : w.Canonical k) : v = w := by
  obtain ⟨m, e⟩ := v
  obtain ⟨m', e'⟩ := w
  have hcompare := compare_canonical hv hw
  rw [compare_eq_iff_eq.2 (rfl : (k : ℤ) = k), Ordering.then_eq_eq, compare_eq_iff_eq,
    compare_eq_iff_eq] at hcompare
  obtain ⟨rfl, rfl⟩ := hcompare
  rfl

section Signed

variable (s t : Sign)

def signed (s : Sign) (r : ℚ) : ℚ :=
  match s with
  | .negative => -r
  | .positive => r

theorem cast_apply (n : ℤ) : ((s.apply n : ℤ) : ℚ) = signed s n := by
  cases s with
  | negative => exact Int.cast_neg n
  | positive => rfl

theorem signed_mul (r r' : ℚ) : signed s r * r' = signed s (r * r') := by
  cases s with
  | negative => exact neg_mul r r'
  | positive => rfl

theorem signed_mul_signed (r r' : ℚ) : signed s r * signed t r' = signed (s * t) (r * r') := by
  cases s with
  | negative =>
    cases t with
    | negative => exact neg_mul_neg r r'
    | positive => exact neg_mul r r'
  | positive =>
    cases t with
    | negative => exact mul_neg r r'
    | positive => rfl

theorem signed_div_signed (r r' : ℚ) : signed s r / signed t r' = signed (s / t) (r / r') := by
  cases s with
  | negative =>
    cases t with
    | negative => exact neg_div_neg_eq r r'
    | positive => exact neg_div r' r
  | positive =>
    cases t with
    | negative => exact div_neg r
    | positive => rfl

theorem nearestPosition_signed {r : ℚ} (hr : 0 ≤ r) :
    nearestPosition (signed s r) = s.apply (roundIndex r) := by
  cases s with
  | negative =>
    show nearestPosition (-r) = _
    rw [nearestPosition_neg, nearestPosition_of_nonneg hr]
    rfl
  | positive => exact nearestPosition_of_nonneg hr

theorem valueAt_apply (k : ℕ) : valueAt (s.apply k) = signed s (Magnitude.ofIndex k).value := by
  unfold valueAt
  cases s with
  | negative =>
    show (if -(k : ℤ) < 0 then -(Magnitude.ofIndex (-(k : ℤ)).natAbs).value
      else (Magnitude.ofIndex (-(k : ℤ)).natAbs).value) = -(Magnitude.ofIndex k).value
    rw [Int.natAbs_neg, Int.natAbs_natCast]
    split
    case isTrue => rfl
    case isFalse hzero =>
      obtain rfl : k = 0 := by omega
      have hzero : (Magnitude.ofIndex 0).value = 0 := zero_mul _
      rw [hzero, neg_zero]
  | positive => exact if_neg (Int.not_lt.2 (Int.natCast_nonneg k))

end Signed

/-- The rational number that was unpacked. -/
def exactValue : UnpackedFloat → ℚ
  | .finite s m e _ => signed s (m * 2 ^ e)
  | .zero _ => 0
  | .infinity _ => 0
  | .notANumber => 0

theorem Shows.valueAt_eq {u : UnpackedFloat} {p : ℤ} (h : Shows u p) (hu : u.isFinite = true) :
    valueAt p = exactValue u := by
  cases u with
  | notANumber => contradiction
  | infinity s => contradiction
  | zero s =>
    obtain rfl : p = 0 := h
    exact zero_mul _
  | finite s m e hm =>
    obtain ⟨k, -, hcanonical, rfl⟩ := h
    rw [valueAt_apply, (Magnitude.canonical_ofIndex k).unique hcanonical]
    rfl

section Round

theorem log2_shiftLeft {m : ℕ} (hm : m ≠ 0) (k : ℕ) : (m <<< k).log2 = m.log2 + k := by
  induction k with
  | zero => rfl
  | succ k ih =>
    have hne : m <<< k ≠ 0 := by
      rw [Nat.shiftLeft_eq]
      exact Nat.mul_ne_zero hm (Nat.two_pow_pos k).ne'
    rw [Nat.shiftLeft_succ, Nat.log2_two_mul hne, ih, Nat.add_assoc]

-- More places do not change a number.
theorem shiftLeft_mul_zpow (m k : ℕ) (e : ℤ) :
    ((m <<< k : ℕ) : ℚ) * 2 ^ (e - k) = m * 2 ^ e := by
  rw [Nat.shiftLeft_eq, zpow_sub₀ two_ne_zero, zpow_natCast]
  push_cast
  field_simp

theorem locates_exact (n : ℕ) : Locates (.ofMantissaAndAccuracy n .exact) n := by
  show (n : ℚ) = n + 0
  rw [add_zero]

variable {m : ℕ} {zeroSign : Sign}

theorem packs_round (s : Sign) (hm : 0 < m) (e : ℤ) :
    Packs (UnpackedFloat.round .binary64 s m e) (s.apply (roundIndex (m * 2 ^ e))) := by
  have hround : UnpackedFloat.round .binary64 s m e =
      UnpackedFloat.roundWithAccuracy .binary64 s (m <<< (e - targetPlace m e).toNat)
        (e - (e - targetPlace m e).toNat) .exact := rfl
  rw [hround]
  obtain ⟨k, hk⟩ : ∃ k, (e - targetPlace m e).toNat = k := ⟨_, rfl⟩
  rw [hk]
  have hunit : (2 : ℚ) ^ (e - (k : ℤ)) ≠ 0 := zpow_ne_zero _ two_ne_zero
  have hexact : (m * 2 ^ e : ℚ) / 2 ^ (e - (k : ℤ)) = (m <<< k : ℕ) := by
    rw [div_eq_iff hunit, shiftLeft_mul_zpow]
  have htarget : targetPlace (m <<< k) (e - k) = targetPlace m e := by
    unfold targetPlace
    rw [log2_shiftLeft hm.ne']
    congr 1
    push_cast
    omega
  refine packs_roundWithAccuracy (mul_nonneg (Nat.cast_nonneg m) (zpow_pos two_pos e).le) ?_ ?_
  · rw [hexact]
    exact locates_exact _
  · rw [htarget]
    omega

theorem nearestPosition_zero : nearestPosition 0 = 0 := rfl

theorem packs_normalize (n : ℤ) (e : ℤ) :
    Packs (UnpackedFloat.normalize .binary64 n e zeroSign) (nearestPosition (n * 2 ^ e)) := by
  have hunit : (0 : ℚ) < 2 ^ e := zpow_pos two_pos e
  unfold UnpackedFloat.normalize
  rcases lt_trichotomy n 0 with hneg | rfl | hpos
  · rw [compare_lt_iff_lt.2 hneg]
    have hcast : (n : ℚ) * 2 ^ e = signed .negative ((-n).toNat * 2 ^ e) := by
      have habs : (((-n).toNat : ℤ) : ℚ) = -n := by
        rw [Int.toNat_of_nonneg (by omega)]
        exact Int.cast_neg n
      show (n : ℚ) * 2 ^ e = -(((-n).toNat : ℚ) * 2 ^ e)
      rw [← Int.cast_natCast, habs]
      ring
    rw [hcast, nearestPosition_signed _ (mul_nonneg (Nat.cast_nonneg _) hunit.le)]
    exact packs_round .negative (by omega) e
  · rw [Int.cast_zero, zero_mul]
    rfl
  · rw [compare_gt_iff_gt.2 hpos]
    have hcast : (n : ℚ) * 2 ^ e = signed .positive (n.toNat * 2 ^ e) := by
      have habs : ((n.toNat : ℤ) : ℚ) = n := by rw [Int.toNat_of_nonneg hpos.le]
      show (n : ℚ) * 2 ^ e = (n.toNat : ℚ) * 2 ^ e
      rw [← Int.cast_natCast, habs]
    rw [hcast, nearestPosition_signed _ (mul_nonneg (Nat.cast_nonneg _) hunit.le)]
    exact packs_round .positive (by omega) e

end Round

section Operations

variable {u v : UnpackedFloat} {p q : ℤ}

theorem nearestPosition_exactValue (hu : Shows u p) (hfinite : u.isFinite = true) :
    nearestPosition (exactValue u) = p := by
  rw [← hu.valueAt_eq hfinite]
  exact nearestPosition_valueAt hu.natAbs_le

-- A number in units of a place that is not above its last one.
theorem aligned (s : Sign) (m : ℕ) {e least : ℤ} (hle : least ≤ e) :
    ((s.apply (m <<< (e - least).toNat : ℕ) : ℤ) : ℚ) * 2 ^ least = signed s (m * 2 ^ e) := by
  obtain ⟨k, rfl⟩ : ∃ k : ℕ, least = e - k := ⟨(e - least).toNat, by omega⟩
  have hk : (e - (e - k)).toNat = k := by omega
  rw [hk, cast_apply, signed_mul, Int.cast_natCast, shiftLeft_mul_zpow]

theorem packs_add (hu : Shows u p) (hv : Shows v q) (hfu : u.isFinite = true)
    (hfv : v.isFinite = true) :
    Packs (UnpackedFloat.add .binary64 u v) (nearestPosition (exactValue u + exactValue v)) := by
  cases u with
  | notANumber => contradiction
  | infinity s => contradiction
  | zero s =>
    show Packs _ (nearestPosition (0 + exactValue v))
    rw [zero_add, nearestPosition_exactValue hv hfv]
    cases v with
    | notANumber => contradiction
    | infinity t => contradiction
    | zero t => cases s <;> cases t <;> exact hv.packs
    | finite t m e hm => exact hv.packs
  | finite s m e hm =>
    cases v with
    | notANumber => contradiction
    | infinity t => contradiction
    | zero t =>
      show Packs _ (nearestPosition (exactValue (.finite s m e hm) + 0))
      rw [add_zero, nearestPosition_exactValue hu hfu]
      exact hu.packs
    | finite t m' e' hm' =>
      show Packs _ (nearestPosition (signed s (m * 2 ^ e) + signed t (m' * 2 ^ e')))
      rw [← aligned s m (min_le_left e e'), ← aligned t m' (min_le_right e e'), ← add_mul,
        ← Int.cast_add]
      exact packs_normalize _ _

-- The sign changes, and nothing else.
theorem Shows.neg (h : Shows u p) : Shows u.neg (-p) := by
  cases u with
  | notANumber => exact h.elim
  | infinity s =>
    obtain rfl : p = s.apply infinityIndex := h
    cases s with
    | negative => exact neg_neg (infinityIndex : ℤ)
    | positive => rfl
  | zero s =>
    obtain rfl : p = 0 := h
    rfl
  | finite s m e hm =>
    obtain ⟨k, hk, hcanonical, rfl⟩ := h
    refine ⟨k, hk, hcanonical, ?_⟩
    cases s with
    | negative => exact neg_neg (k : ℤ)
    | positive => rfl

theorem packs_sub (hu : Shows u p) (hv : Shows v q) (hfu : u.isFinite = true)
    (hfv : v.isFinite = true) :
    Packs (UnpackedFloat.sub .binary64 u v) (nearestPosition (exactValue u - exactValue v)) := by
  cases u with
  | notANumber => contradiction
  | infinity s => contradiction
  | zero s =>
    show Packs _ (nearestPosition (0 - exactValue v))
    rw [zero_sub, nearestPosition_neg, nearestPosition_exactValue hv hfv]
    cases v with
    | notANumber => contradiction
    | infinity t => contradiction
    | zero t => cases s <;> cases t <;> exact hv.neg.packs
    | finite t m e hm => exact hv.neg.packs
  | finite s m e hm =>
    cases v with
    | notANumber => contradiction
    | infinity t => contradiction
    | zero t =>
      show Packs _ (nearestPosition (exactValue (.finite s m e hm) - 0))
      rw [sub_zero, nearestPosition_exactValue hu hfu]
      exact hu.packs
    | finite t m' e' hm' =>
      show Packs _ (nearestPosition (signed s (m * 2 ^ e) - signed t (m' * 2 ^ e')))
      rw [← aligned s m (min_le_left e e'), ← aligned t m' (min_le_right e e'), ← sub_mul,
        ← Int.cast_sub]
      exact packs_normalize _ _

-- The product of two mantissas fills its places unless both numbers are below the normal ones.
theorem place_mul {m m' : ℕ} {e e' : ℤ} {k k' : ℕ} (h : Magnitude.Canonical ⟨m, e⟩ k)
    (h' : Magnitude.Canonical ⟨m', e'⟩ k') (hm : 0 < m) (hm' : 0 < m') :
    e + e' ≤ targetPlace (m * m') (e + e') := by
  have hleast : -1074 ≤ e := h.least
  have hleast' : -1074 ≤ e' := h'.least
  unfold targetPlace
  by_cases hsmall : e + e' ≤ -1074
  · exact le_max_of_le_right hsmall
  · have hfull : 2 ^ 52 ≤ m * m' := by
      by_cases hnormal : -1074 < e
      · exact le_mul_of_le_of_one_le (h.normal hnormal) hm'
      · have hnormal' : -1074 < e' := by omega
        exact le_mul_of_one_le_of_le hm (h'.normal hnormal')
    have hlog : 52 ≤ (m * m').log2 := (Nat.le_log2 (Nat.mul_pos hm hm').ne').2 hfull
    omega

theorem packs_mul (hu : Shows u p) (hv : Shows v q) (hfu : u.isFinite = true)
    (hfv : v.isFinite = true) :
    Packs (UnpackedFloat.mul .binary64 u v) (nearestPosition (exactValue u * exactValue v)) := by
  cases u with
  | notANumber => contradiction
  | infinity s => contradiction
  | zero s =>
    show Packs _ (nearestPosition (0 * exactValue v))
    rw [zero_mul]
    cases v with
    | notANumber => contradiction
    | infinity t => contradiction
    | zero t => rfl
    | finite t m e hm => rfl
  | finite s m e hm =>
    cases v with
    | notANumber => contradiction
    | infinity t => contradiction
    | zero t =>
      show Packs _ (nearestPosition (exactValue (.finite s m e hm) * 0))
      rw [mul_zero]
      rfl
    | finite t m' e' hm' =>
      have hexact : ((m * m' : ℕ) : ℚ) * 2 ^ (e + e') = m * 2 ^ e * (m' * 2 ^ e') := by
        rw [zpow_add₀ two_ne_zero]
        push_cast
        ring
      have hunit : (0 : ℚ) < 2 ^ (e + e') := zpow_pos two_pos _
      have hnonneg : (0 : ℚ) ≤ ((m * m' : ℕ) : ℚ) * 2 ^ (e + e') := by positivity
      show Packs _ (nearestPosition (signed s (m * 2 ^ e) * signed t (m' * 2 ^ e')))
      rw [signed_mul_signed, ← hexact, nearestPosition_signed _ hnonneg]
      refine packs_roundWithAccuracy hnonneg ?_ ?_
      · rw [mul_div_cancel_right₀ _ hunit.ne']
        exact locates_exact _
      · obtain ⟨k, -, hcanonical, -⟩ := hu
        obtain ⟨k', -, hcanonical', -⟩ := hv
        exact place_mul hcanonical hcanonical' hm hm'

-- The remainder of a division tells where the quotient lies.
theorem locates_div (a : ℕ) {b : ℕ} (hb : 0 < b) :
    Locates (.ofMantissaAndAccuracy (a / b) (UnpackedFloat.accuracyOfFraction (a % b) b))
      (a / b) := by
  have hcast : (0 : ℚ) < b := Nat.cast_pos.2 hb
  have hsplit : (a : ℚ) / b = (a / b : ℕ) + ((a % b : ℕ) : ℚ) / b := by
    rw [div_eq_iff hcast.ne', add_mul, div_mul_cancel₀ _ hcast.ne']
    exact_mod_cast (Nat.div_add_mod' a b).symm
  have hlt : a % b < b := Nat.mod_lt a hb
  rw [hsplit]
  generalize a / b = quotient
  generalize a % b = rest at hlt
  have hbelow : (rest : ℚ) / b < 1 := by
    rw [div_lt_one hcast]
    exact_mod_cast hlt
  unfold UnpackedFloat.accuracyOfFraction
  split
  case isTrue hzero =>
    rw [hzero, Nat.cast_zero, zero_div, add_zero]
    exact locates_exact quotient
  case isFalse hrest =>
    have hpos : (0 : ℚ) < rest / b := div_pos (Nat.cast_pos.2 (Nat.pos_of_ne_zero hrest)) hcast
    rcases lt_trichotomy (2 * rest) b with hless | hhalf | hmore
    · have hless' : (rest : ℚ) / b < 1 / 2 := by
        rw [div_lt_iff₀ hcast]
        have hcast' : (2 * rest : ℚ) < b := by exact_mod_cast hless
        linarith
      rw [compare_lt_iff_lt.2 hless]
      show (quotient : ℚ) + 0 < _ ∧ _ < (quotient : ℚ) + 0 + 1 / 2
      constructor <;> linarith
    · have hhalf' : (rest : ℚ) / b = 1 / 2 := by
        rw [div_eq_iff hcast.ne']
        have hcast' : (2 * rest : ℚ) = b := by exact_mod_cast hhalf
        linarith
      rw [compare_eq_iff_eq.2 hhalf, hhalf']
      rfl
    · have hmore' : 1 / 2 < (rest : ℚ) / b := by
        rw [lt_div_iff₀ hcast]
        have hcast' : (b : ℚ) < 2 * rest := by exact_mod_cast hmore
        linarith
      rw [compare_gt_iff_gt.2 hmore]
      show (quotient : ℚ) + 1 / 2 < _ ∧ _ < (quotient : ℚ) + 1 / 2 + 1 / 2
      constructor <;> linarith

-- A quotient is computed with all its places, or with those below the normal numbers.
theorem place_div {m m' : ℕ} {e e' least : ℤ} (hm : 0 < m) (hm' : 0 < m')
    (hleast : least = min (e - e') (max (m.log2 + 1 + e - (m'.log2 + 1 + e') - 53) (-1074))) :
    least ≤ targetPlace ((m <<< (e - e' - least).toNat) / m') least := by
  unfold targetPlace
  by_cases hsmall : least ≤ -1074
  · exact le_max_of_le_right hsmall
  · obtain ⟨k, hk⟩ : ∃ k, (e - e' - least).toNat = k := ⟨_, rfl⟩
    have hplaces : 52 + (m'.log2 + 1) ≤ m.log2 + k := by omega
    have hfull : 2 ^ 52 ≤ m <<< k / m' := by
      rw [Nat.le_div_iff_mul_le hm', Nat.shiftLeft_eq]
      calc 2 ^ 52 * m' ≤ 2 ^ 52 * 2 ^ (m'.log2 + 1) :=
            Nat.mul_le_mul_left _ (Nat.lt_log2_self (n := m')).le
        _ = 2 ^ (52 + (m'.log2 + 1)) := (pow_add 2 _ _).symm
        _ ≤ 2 ^ (m.log2 + k) := Nat.pow_le_pow_right two_pos hplaces
        _ = 2 ^ m.log2 * 2 ^ k := pow_add 2 _ _
        _ ≤ m * 2 ^ k := Nat.mul_le_mul_right _ (Nat.log2_self_le hm.ne')
    have hpos : m <<< k / m' ≠ 0 := (lt_of_lt_of_le (Nat.two_pow_pos 52) hfull).ne'
    have hlog : 52 ≤ (m <<< k / m').log2 := (Nat.le_log2 hpos).2 hfull
    rw [hk]
    omega

theorem packs_div (hu : Shows u p) (hv : Shows v q) (hfu : u.isFinite = true)
    (hfv : v.isFinite = true) (hne : q ≠ 0) :
    Packs (UnpackedFloat.div .binary64 u v) (nearestPosition (exactValue u / exactValue v)) := by
  cases v with
  | notANumber => contradiction
  | infinity t => contradiction
  | zero t => exact absurd hv hne
  | finite t m' e' hm' =>
    cases u with
    | notANumber => contradiction
    | infinity s => contradiction
    | zero s =>
      show Packs _ (nearestPosition (0 / exactValue (.finite t m' e' hm')))
      rw [zero_div]
      rfl
    | finite s m e hm =>
      show Packs _ (nearestPosition (signed s (m * 2 ^ e) / signed t (m' * 2 ^ e')))
      obtain ⟨least, hleast⟩ : ∃ least, least =
          min (e - e') (max (m.log2 + 1 + e - (m'.log2 + 1 + e') - 53) (-1074)) := ⟨_, rfl⟩
      have hdiv : UnpackedFloat.div .binary64 (.finite s m e hm) (.finite t m' e' hm') =
          UnpackedFloat.roundWithAccuracy .binary64 (s / t)
            (m <<< (e - e' - least).toNat / m') least
            (UnpackedFloat.accuracyOfFraction (m <<< (e - e' - least).toNat % m') m') := by
        rw [hleast]
        rfl
      have hnonneg : (0 : ℚ) ≤ m * 2 ^ e / (m' * 2 ^ e') := by positivity
      have hexact : (m * 2 ^ e / (m' * 2 ^ e') : ℚ) / 2 ^ least =
          (m <<< (e - e' - least).toNat : ℕ) / m' := by
        have hpow : (2 : ℚ) ^ e = 2 ^ (e - e' - least).toNat * 2 ^ e' * 2 ^ least := by
          rw [← zpow_natCast, ← zpow_add₀ two_ne_zero, ← zpow_add₀ two_ne_zero]
          congr 1
          omega
        rw [hpow, Nat.shiftLeft_eq]
        push_cast
        field_simp
      rw [hdiv, signed_div_signed, nearestPosition_signed _ hnonneg]
      refine packs_roundWithAccuracy hnonneg ?_ (place_div hm hm' hleast)
      rw [hexact]
      exact locates_div _ hm'

end Operations

end BenchLedger.Decimal
