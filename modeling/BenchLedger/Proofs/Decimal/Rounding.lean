import BenchLedger.Proofs.Decimal.Nearest
import Mathlib.Data.Rat.Floor

/-!
# Rounding is monotone

The positions of binary64 are the numbers of its magnitudes, counted downwards from zero below it.
Each position up to infinity stands for a rational number, and each rational number is rounded to a
position.  Rounding is monotone and keeps what has a position, so that the positions lie in the
order of the rational numbers they stand for.
-/

namespace BenchLedger.Decimal

section RoundsTo

variable {n m : ℕ} {s t : ℚ}

theorem RoundsTo.near (h : RoundsTo n s) : (n : ℚ) - 1 / 2 ≤ s ∧ s ≤ n + 1 / 2 := by
  unfold RoundsTo at h
  split at h
  · exact h
  · exact ⟨h.1.le, h.2.le⟩

theorem roundsTo_of_lt (hlow : (n : ℚ) - 1 / 2 < s) (hhigh : s < n + 1 / 2) : RoundsTo n s := by
  unfold RoundsTo
  split
  · exact ⟨hlow.le, hhigh.le⟩
  · exact ⟨hlow, hhigh⟩

theorem roundsTo_self (n : ℕ) : RoundsTo n n :=
  roundsTo_of_lt (by linarith) (by linarith)

theorem RoundsTo.mono (hs : RoundsTo n s) (ht : RoundsTo m t) (hst : s ≤ t) : n ≤ m := by
  by_contra hlt
  have hsucc : m + 1 ≤ n := by omega
  have hcast : (m : ℚ) + 1 ≤ n := by exact_mod_cast hsucc
  have hlow := hs.near.1
  have hhigh := ht.near.2
  -- both are half way between two neighbours, of which only one is even
  have hnext : n = m + 1 := by
    have hle : (n : ℚ) ≤ m + 1 := by linarith
    have hle : n ≤ m + 1 := by exact_mod_cast hle
    omega
  subst hnext
  push_cast at hlow
  unfold RoundsTo at hs ht
  split at hs
  case isTrue heven =>
    rw [if_neg (by omega)] at ht
    linarith [ht.2]
  case isFalse =>
    have hlow := hs.1
    push_cast at hlow
    linarith

theorem exists_roundsTo (hs : 0 ≤ s) : ∃ n, RoundsTo n s := by
  have hlow : ((⌊s⌋₊ : ℕ) : ℚ) ≤ s := Nat.floor_le hs
  have hhigh : s < ((⌊s⌋₊ : ℕ) : ℚ) + 1 := Nat.lt_floor_add_one s
  generalize ⌊s⌋₊ = n at hlow hhigh
  rcases lt_trichotomy s (n + 1 / 2) with hless | hhalf | hmore
  · exact ⟨n, roundsTo_of_lt (by linarith) hless⟩
  · by_cases heven : n % 2 = 0
    · refine ⟨n, ?_⟩
      rw [RoundsTo, if_pos heven]
      exact ⟨by linarith, hhalf.le⟩
    · refine ⟨n + 1, ?_⟩
      rw [RoundsTo, if_pos (by omega)]
      push_cast
      exact ⟨by linarith, by linarith⟩
  · refine ⟨n + 1, roundsTo_of_lt ?_ ?_⟩
    · push_cast
      linarith
    · push_cast
      linarith

end RoundsTo

/-- With the binary places down to `2 ^ q`, which are those that are kept, `r` is rounded to `n`. -/
structure RoundsAt (r : ℚ) (q : ℤ) (n : ℕ) : Prop where
  kept : KeptAt q r
  rounds : RoundsTo n (r / 2 ^ q)

/-- Number of the magnitude with `n` of the places `2 ^ q`, or of infinity. -/
def placeIndex (q : ℤ) (n : ℕ) : ℕ :=
  min ((q + 1074).toNat * Nat.pow 2 52 + n) infinityIndex

/-- Number of the magnitude nearest to a rational number that is not negative. -/
def roundIndex (r : ℚ) : ℕ :=
  nearestIndex r.num.toNat r.den

namespace RoundsAt

variable {r r' : ℚ} {q q' : ℤ} {n n' : ℕ}

theorem mantissa_le (h : RoundsAt r q n) : n ≤ 2 ^ 53 := by
  have hunit : (0 : ℚ) < 2 ^ q := zpow_pos two_pos _
  have hlt : r / 2 ^ q < 2 ^ (53 : ℤ) := by
    rw [div_lt_iff₀' hunit, ← zpow_add₀ two_ne_zero]
    exact h.kept.lt
  have htop : RoundsTo (2 ^ 53) (2 ^ (53 : ℤ)) := by
    have hself := roundsTo_self (2 ^ 53)
    push_cast at hself
    exact_mod_cast hself
  exact h.rounds.mono htop hlt.le

theorem le_mantissa (h : RoundsAt r q n) (hq : -1074 < q) : 2 ^ 52 ≤ n := by
  have hunit : (0 : ℚ) < 2 ^ q := zpow_pos two_pos _
  have hle : 2 ^ (52 : ℤ) ≤ r / 2 ^ q := by
    rw [le_div_iff₀' hunit, ← zpow_add₀ two_ne_zero]
    exact h.kept.ge hq
  have hbottom : RoundsTo (2 ^ 52) (2 ^ (52 : ℤ)) := by
    have hself := roundsTo_self (2 ^ 52)
    push_cast at hself
    exact_mod_cast hself
  exact hbottom.mono h.rounds hle

theorem roundIndex_eq (h : RoundsAt r q n) (hr : 0 ≤ r) : roundIndex r = placeIndex q n := by
  rcases hr.eq_or_lt with rfl | hpos
  · -- zero has no leading digit, so only the least places are left
    have hq : q = -1074 := by
      by_contra hne
      have hge := h.kept.ge (lt_of_le_of_ne h.kept.least (Ne.symm hne))
      have hpow : (0 : ℚ) < 2 ^ (q + 52) := zpow_pos two_pos _
      linarith
    have hn : n = 0 := by
      have hlow := h.rounds.near.1
      rw [zero_div] at hlow
      have hlt : (n : ℚ) < 1 := by linarith
      have hlt : n < 1 := by exact_mod_cast hlt
      omega
    rw [hq, hn]
    rfl
  · have hnum : 0 < r.num := Rat.num_pos.2 hpos
    have hr : ((r.num.toNat : ℕ) : ℚ) / (r.den : ℚ) = r := by
      have hcast : ((r.num.toNat : ℕ) : ℚ) = (r.num : ℚ) := by
        exact_mod_cast Int.toNat_of_nonneg hnum.le
      rw [hcast, Rat.num_div_den]
    rw [← hr] at h
    exact nearestIndex_of_roundsTo (by omega) r.den_pos h.kept h.rounds

theorem place_le (h : RoundsAt r q n) (h' : RoundsAt r' q' n') (hle : r ≤ r') : q ≤ q' := by
  by_contra hlt
  have hleast := h'.kept.least
  have hpow : (2 : ℚ) ^ (q + 52) < 2 ^ (q' + 53) :=
    ((h.kept.ge (by omega)).trans hle).trans_lt h'.kept.lt
  have hexponent := (zpow_lt_zpow_iff_right₀ (one_lt_two : (1 : ℚ) < 2)).1 hpow
  omega

theorem placeIndex_mono (h : RoundsAt r q n) (h' : RoundsAt r' q' n') (hle : r ≤ r') :
    placeIndex q n ≤ placeIndex q' n' := by
  have hleast := h.kept.least
  refine min_le_min_right _ ?_
  show (q + 1074).toNat * 2 ^ 52 + n ≤ (q' + 1074).toNat * 2 ^ 52 + n'
  rcases (h.place_le h' hle).eq_or_lt with rfl | hlt
  · have hn : n ≤ n' := h.rounds.mono h'.rounds (by gcongr)
    omega
  · -- a mantissa that is rounded up to `2 ^ 53` is one of the next places
    have hn := h.mantissa_le
    have hn' := h'.le_mantissa (by omega)
    omega

end RoundsAt

theorem exists_roundsAt {r : ℚ} (hr : 0 ≤ r) : ∃ q n, RoundsAt r q n := by
  obtain ⟨q, hq⟩ : ∃ q, KeptAt q r := by
    rcases hr.eq_or_lt with rfl | hpos
    · exact ⟨-1074, le_rfl, zpow_pos two_pos _, fun h => absurd h (lt_irrefl _)⟩
    · have hnum : 0 < r.num := Rat.num_pos.2 hpos
      have hnonzero : 0 < r.num.toNat := by omega
      have hkept := keptAt_keptExponent hnonzero r.den_pos
      have hcast : ((r.num.toNat : ℕ) : ℚ) = (r.num : ℚ) := by
        exact_mod_cast Int.toNat_of_nonneg hnum.le
      rw [hcast, Rat.num_div_den] at hkept
      exact ⟨_, hkept⟩
  obtain ⟨n, hn⟩ := exists_roundsTo (div_nonneg hr (zpow_pos (two_pos : (0 : ℚ) < 2) q).le)
  exact ⟨q, n, hq, hn⟩

theorem roundIndex_mono {r r' : ℚ} (hr : 0 ≤ r) (hle : r ≤ r') : roundIndex r ≤ roundIndex r' := by
  obtain ⟨q, n, h⟩ := exists_roundsAt hr
  obtain ⟨q', n', h'⟩ := exists_roundsAt (hr.trans hle)
  rw [h.roundIndex_eq hr, h'.roundIndex_eq (hr.trans hle)]
  exact h.placeIndex_mono h' hle

theorem roundIndex_le {r : ℚ} (hr : 0 ≤ r) : roundIndex r ≤ infinityIndex := by
  obtain ⟨q, n, h⟩ := exists_roundsAt hr
  rw [h.roundIndex_eq hr]
  exact min_le_right _ _

theorem roundIndex_zero : roundIndex 0 = 0 := rfl

namespace Magnitude

def value (v : Magnitude) : ℚ :=
  v.mantissa * 2 ^ v.exponent

theorem value_nonneg (v : Magnitude) : 0 ≤ v.value :=
  mul_nonneg (Nat.cast_nonneg _) (zpow_pos two_pos _).le

theorem Canonical.roundsAt {v : Magnitude} {k : ℕ} (h : v.Canonical k) :
    RoundsAt v.value v.exponent v.mantissa := by
  have hunit : (0 : ℚ) < 2 ^ v.exponent := zpow_pos two_pos _
  refine ⟨⟨h.least, ?_, fun hq => ?_⟩, ?_⟩
  · rw [value, add_comm, zpow_add₀ two_ne_zero]
    gcongr
    exact_mod_cast h.mantissa_lt
  · rw [value, add_comm, zpow_add₀ two_ne_zero]
    gcongr
    exact_mod_cast h.normal hq
  · rw [value, mul_div_cancel_right₀ _ hunit.ne']
    exact roundsTo_self _

theorem roundIndex_ofIndex {k : ℕ} (hk : k ≤ infinityIndex) : roundIndex (ofIndex k).value = k := by
  have h := canonical_ofIndex k
  rw [h.roundsAt.roundIndex_eq (value_nonneg _), placeIndex, h.index]
  exact min_eq_left hk

end Magnitude

/-- The rational number that a position stands for. -/
def valueAt (p : ℤ) : ℚ :=
  if p < 0 then -(Magnitude.ofIndex p.natAbs).value else (Magnitude.ofIndex p.natAbs).value

theorem valueAt_natCast (k : ℕ) : valueAt k = (Magnitude.ofIndex k).value :=
  if_neg (Int.not_lt.2 (Int.natCast_nonneg k))

theorem valueAt_neg (p : ℤ) : valueAt (-p) = -valueAt p := by
  have hzero : (Magnitude.ofIndex 0).value = 0 := zero_mul _
  unfold valueAt
  rw [Int.natAbs_neg]
  rcases lt_trichotomy p 0 with hneg | rfl | hpos
  · rw [if_neg (by omega), if_pos hneg, neg_neg]
  · rw [Int.neg_zero, if_neg (lt_irrefl _), Int.natAbs_zero, hzero, neg_zero]
  · rw [if_pos (by omega), if_neg (by omega)]

/-- The position nearest to a rational number. -/
def nearestPosition (r : ℚ) : ℤ :=
  if r < 0 then -(roundIndex (-r) : ℤ) else roundIndex r

theorem nearestPosition_of_nonneg {r : ℚ} (hr : 0 ≤ r) : nearestPosition r = roundIndex r :=
  if_neg (not_lt.2 hr)

theorem nearestPosition_neg (r : ℚ) : nearestPosition (-r) = -nearestPosition r := by
  unfold nearestPosition
  rcases lt_trichotomy r 0 with hneg | rfl | hpos
  · rw [if_neg (by linarith), if_pos hneg, neg_neg]
  · rw [neg_zero, if_neg (lt_irrefl _), roundIndex_zero]
    rfl
  · rw [if_pos (by linarith), if_neg (by linarith), neg_neg]

theorem nearestPosition_mono {r r' : ℚ} (hle : r ≤ r') :
    nearestPosition r ≤ nearestPosition r' := by
  unfold nearestPosition
  split
  case isTrue hr =>
    split
    · have hnonneg : 0 ≤ -r' := by linarith
      have hmono := roundIndex_mono hnonneg (neg_le_neg hle)
      omega
    · omega
  case isFalse hr =>
    have hmono := roundIndex_mono (not_lt.1 hr) hle
    rw [if_neg (by linarith)]
    omega

theorem natAbs_nearestPosition_le (r : ℚ) : (nearestPosition r).natAbs ≤ infinityIndex := by
  unfold nearestPosition
  split
  case isTrue hr =>
    rw [Int.natAbs_neg, Int.natAbs_natCast]
    exact roundIndex_le (by linarith)
  case isFalse hr =>
    rw [Int.natAbs_natCast]
    exact roundIndex_le (not_lt.1 hr)

theorem nearestPosition_valueAt {p : ℤ} (hp : p.natAbs ≤ infinityIndex) :
    nearestPosition (valueAt p) = p := by
  have hindex := Magnitude.roundIndex_ofIndex hp
  have hround := nearestPosition_of_nonneg (Magnitude.ofIndex p.natAbs).value_nonneg
  unfold valueAt
  split
  · rw [nearestPosition_neg, hround, hindex]
    omega
  · rw [hround, hindex]
    omega

theorem valueAt_le_valueAt_iff {p p' : ℤ} (hp : p.natAbs ≤ infinityIndex)
    (hp' : p'.natAbs ≤ infinityIndex) : valueAt p ≤ valueAt p' ↔ p ≤ p' := by
  constructor
  · intro hle
    have hmono := nearestPosition_mono hle
    rwa [nearestPosition_valueAt hp, nearestPosition_valueAt hp'] at hmono
  · intro hle
    by_contra hlt
    have hmono := nearestPosition_mono (not_le.1 hlt).le
    rw [nearestPosition_valueAt hp, nearestPosition_valueAt hp'] at hmono
    rw [le_antisymm hle hmono] at hlt
    exact hlt le_rfl

end BenchLedger.Decimal
