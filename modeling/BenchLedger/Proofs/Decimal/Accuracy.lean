import BenchLedger.Proofs.Decimal.Positions

/-!
# Rounding a mantissa with its accuracy

The operations of binary64 compute a mantissa with two more bits, which tell where the exact result
lies between that mantissa and the next one.  Dropping places keeps what the two bits tell, so that
the mantissa is rounded as the exact result is.
-/

namespace BenchLedger.Decimal

open Float.Model (UnpackedFloat)
open Float.Model.UnpackedFloat (Sign Accuracy ExtendedMantissa)

-- A mantissa with the place of its round bit.
def heldPart (em : ExtendedMantissa) : ℚ :=
  em.mantissa + if em.roundBit then 1 / 2 else 0

/-- The mantissa and its round bit are `s` rounded down, and the sticky bit tells whether anything
was lost. -/
def Locates (em : ExtendedMantissa) (s : ℚ) : Prop :=
  if em.stickyBit then heldPart em < s ∧ s < heldPart em + 1 / 2 else s = heldPart em

-- The digit that is dropped becomes the round bit.
theorem heldPart_shiftRightOne (em : ExtendedMantissa) :
    heldPart em.shiftRightOne = em.mantissa / 2 := by
  obtain ⟨m, roundBit, stickyBit⟩ := em
  unfold heldPart ExtendedMantissa.shiftRightOne
  dsimp only
  obtain ⟨half, rfl | rfl⟩ : ∃ half, m = 2 * half ∨ m = 2 * half + 1 := ⟨m / 2, by omega⟩
  · have hmantissa : 2 * half / 2 = half := by omega
    have hbit : (2 * half % 2 != 0) = false := by simp
    rw [hmantissa, hbit]
    push_cast
    simp
  · have hmantissa : (2 * half + 1) / 2 = half := by omega
    have hbit : ((2 * half + 1) % 2 != 0) = true := by simp
    rw [hmantissa, hbit]
    push_cast
    simp
    ring

namespace Locates

variable {em : ExtendedMantissa} {s : ℚ}

theorem bounds (h : Locates em s) : (em.mantissa : ℚ) ≤ s ∧ s < em.mantissa + 1 := by
  obtain ⟨m, roundBit, stickyBit⟩ := em
  unfold Locates heldPart at h
  cases roundBit <;> cases stickyBit <;> simp only [Bool.false_eq_true, if_true, if_false] at h
  · constructor <;> linarith
  · constructor <;> linarith [h.1, h.2]
  · constructor <;> linarith
  · constructor <;> linarith [h.1, h.2]

theorem shiftRightOne (h : Locates em s) : Locates em.shiftRightOne (s / 2) := by
  have hsticky : em.shiftRightOne.stickyBit = (em.roundBit || em.stickyBit) := rfl
  unfold Locates at h ⊢
  rw [heldPart_shiftRightOne, hsticky]
  obtain ⟨m, roundBit, stickyBit⟩ := em
  unfold heldPart at h
  -- a round bit is lost like a sticky one
  cases roundBit <;> cases stickyBit <;>
    simp only [Bool.false_eq_true, Bool.or_true, Bool.or_false, if_true, if_false] at h ⊢
  · linarith
  · constructor <;> linarith [h.1, h.2]
  · constructor <;> linarith
  · constructor <;> linarith [h.1, h.2]

theorem shiftRight (h : Locates em s) (n : ℕ) : Locates (em >>> n) (s / 2 ^ n) := by
  induction n with
  | zero =>
    rw [pow_zero, div_one]
    exact h
  | succ n ih =>
    rw [pow_succ, ← div_div]
    exact ih.shiftRightOne

theorem roundsTo (h : Locates em s) : RoundsTo em.roundedMantissa s := by
  obtain ⟨m, roundBit, stickyBit⟩ := em
  unfold Locates heldPart at h
  cases roundBit <;> cases stickyBit <;>
    simp only [Bool.false_eq_true, if_true, if_false] at h
  case false.false =>
    rw [h, add_zero]
    exact roundsTo_self m
  case false.true =>
    show RoundsTo m s
    exact roundsTo_of_lt (by linarith [h.1]) (by linarith [h.2])
  case true.false =>
    -- a half goes to the even neighbour
    show RoundsTo (m + m % 2) s
    unfold RoundsTo
    rcases Nat.mod_two_eq_zero_or_one m with heven | hodd
    · rw [heven, if_pos (by omega), h]
      push_cast
      constructor <;> linarith
    · rw [hodd, if_pos (by omega), h]
      push_cast
      constructor <;> linarith
  case true.true =>
    show RoundsTo (m + 1) s
    refine roundsTo_of_lt ?_ ?_
    · push_cast
      linarith [h.1]
    · push_cast
      linarith [h.2]

end Locates

/-- The exponent that `m` with that exponent is brought to. -/
def targetPlace (m : ℕ) (e : ℤ) : ℤ :=
  max (m.log2 + 1 + e - 53) (-1074)

theorem mantissa_ofMantissaAndAccuracy (m : ℕ) (acc : Accuracy) :
    (ExtendedMantissa.ofMantissaAndAccuracy m acc).mantissa = m := by
  cases acc with
  | exact => rfl
  | inexact o => cases o <;> rfl

section Round

variable {sign : Sign} {m : ℕ} {e : ℤ} {acc : Accuracy} {r : ℚ}

-- A mantissa with at least its digits says which places of the number are kept.
theorem keptAt_targetPlace (hloc : Locates (.ofMantissaAndAccuracy m acc) (r / 2 ^ e))
    (he : e ≤ targetPlace m e) : KeptAt (targetPlace m e) r := by
  have hunit : (0 : ℚ) < 2 ^ e := zpow_pos two_pos _
  have htwo : (1 : ℚ) ≤ 2 := one_le_two
  obtain ⟨hlow, hhigh⟩ := hloc.bounds
  rw [mantissa_ofMantissaAndAccuracy] at hlow hhigh
  rw [le_div_iff₀ hunit] at hlow
  rw [div_lt_iff₀ hunit] at hhigh
  unfold targetPlace at he ⊢
  refine ⟨by omega, ?_, fun hq => ?_⟩
  · have hdigits : (m : ℚ) + 1 ≤ 2 ^ (m.log2 + 1 : ℤ) := by
      exact_mod_cast Nat.succ_le_of_lt (Nat.lt_log2_self (n := m))
    calc r < (m + 1) * 2 ^ e := hhigh
      _ ≤ 2 ^ (m.log2 + 1 : ℤ) * 2 ^ e := by gcongr
      _ = 2 ^ (m.log2 + 1 + e : ℤ) := (zpow_add₀ two_ne_zero _ _).symm
      _ ≤ _ := zpow_le_zpow_right₀ htwo (by omega)
  · have hm : m ≠ 0 := by
      rintro rfl
      have hlog : Nat.log2 0 = 0 := by decide
      rw [hlog] at he hq
      omega
    have hdigits : (2 : ℚ) ^ (m.log2 : ℤ) ≤ m := (log2_bounds (Nat.pos_of_ne_zero hm)).1
    calc (2 : ℚ) ^ (max (m.log2 + 1 + e - 53 : ℤ) (-1074) + 52) = 2 ^ (m.log2 + e : ℤ) := by
          congr 1
          omega
      _ = 2 ^ (m.log2 : ℤ) * 2 ^ e := zpow_add₀ two_ne_zero _ _
      _ ≤ m * 2 ^ e := by gcongr
      _ ≤ r := hlow

-- A rounded mantissa is brought to its places without loss.
theorem shift_exact {n : ℕ} {q : ℤ} (hq : -1074 ≤ q) (hn : n ≤ 2 ^ 53)
    (hfull : -1074 < q → 2 ^ 52 ≤ n) :
    ∃ v : Magnitude, v.Canonical ((q + 1074).toNat * Nat.pow 2 52 + n) ∧
      (UnpackedFloat.shiftToTargetExponent .binary64 n q .exact).1.mantissa = v.mantissa ∧
      (UnpackedFloat.shiftToTargetExponent .binary64 n q .exact).2 = v.exponent := by
  have hshift : UnpackedFloat.shiftToTargetExponent .binary64 n q .exact =
      ((⟨n, false, false⟩ : ExtendedMantissa) >>> (targetPlace n q - q).toNat,
        q + (targetPlace n q - q).toNat) := rfl
  rw [hshift]
  rcases hn.lt_or_eq with hlt | rfl
  · have hlog : n.log2 < 53 := by
      by_cases hzero : n = 0
      · rw [hzero]
        decide
      · exact (Nat.log2_lt hzero).2 hlt
    have hlog' : -1074 < q → 52 ≤ n.log2 := fun hlarge => by
      have hle := hfull hlarge
      exact (Nat.le_log2 (by omega)).2 hle
    have hstay : (targetPlace n q - q).toNat = 0 := by
      unfold targetPlace
      omega
    rw [hstay]
    exact ⟨⟨n, q⟩, ⟨hlt, hq, hfull, rfl⟩, rfl, add_zero q⟩
  · -- a mantissa of 54 digits is even and gives up one of them
    have hstep : (targetPlace (2 ^ 53) q - q).toNat = 1 := by
      unfold targetPlace
      rw [Nat.log2_two_pow]
      omega
    have hnext : (q + 1 + 1074).toNat = (q + 1074).toNat + 1 := by omega
    rw [hstep]
    refine ⟨⟨2 ^ 52, q + 1⟩, ⟨?_, ?_, fun _ => le_rfl, ?_⟩, ?_, rfl⟩
    · norm_num
    · show -1074 ≤ q + 1
      omega
    · show (q + 1 + 1074).toNat * 2 ^ 52 + 2 ^ 52 = (q + 1074).toNat * 2 ^ 52 + 2 ^ 53
      have hdouble : 2 ^ 52 + 2 ^ 52 = 2 ^ 53 := by norm_num
      rw [hnext, Nat.add_mul, Nat.one_mul, Nat.add_assoc, hdouble]
    · show 2 ^ 53 / 2 = 2 ^ 52
      norm_num

theorem packs_of_canonical (sign : Sign) {k : ℕ} (h : Magnitude.Canonical ⟨m, e⟩ k) :
    Packs (if hm : m = 0 then .zero sign else .finite sign m e (Nat.pos_of_ne_zero hm))
      (sign.apply (min k infinityIndex : ℕ)) := by
  split
  case isTrue hm =>
    have hleast : e = -1074 := by
      by_contra hne
      have hfull : 2 ^ 52 ≤ m := h.normal (lt_of_le_of_ne h.least (Ne.symm hne))
      omega
    have hk : k = 0 := by
      rw [← h.index]
      dsimp only
      rw [hm, hleast]
      rfl
    rw [hk]
    cases sign <;> rfl
  case isFalse => exact ⟨k, h, rfl⟩

/-- Rounding a mantissa with its accuracy packs the number nearest to the exact result. -/
theorem packs_roundWithAccuracy (hr : 0 ≤ r)
    (hloc : Locates (.ofMantissaAndAccuracy m acc) (r / 2 ^ e)) (he : e ≤ targetPlace m e) :
    Packs (UnpackedFloat.roundWithAccuracy .binary64 sign m e acc) (sign.apply (roundIndex r)) := by
  have hkept := keptAt_targetPlace hloc he
  have hplace : e + ((targetPlace m e - e).toNat : ℤ) = targetPlace m e := by omega
  have hfirst : UnpackedFloat.shiftToTargetExponent .binary64 m e acc =
      (ExtendedMantissa.ofMantissaAndAccuracy m acc >>> (targetPlace m e - e).toNat,
        e + ((targetPlace m e - e).toNat : ℤ)) := rfl
  have hshift := hloc.shiftRight (targetPlace m e - e).toNat
  have hscaled : r / 2 ^ e / 2 ^ (targetPlace m e - e).toNat = r / 2 ^ targetPlace m e := by
    rw [div_div, ← zpow_natCast (2 : ℚ), ← zpow_add₀ two_ne_zero, hplace]
  rw [hscaled] at hshift
  rw [hplace] at hfirst
  generalize targetPlace m e = q at *
  generalize ExtendedMantissa.ofMantissaAndAccuracy m acc >>> (q - e).toNat = em at *
  have hround : RoundsAt r q em.roundedMantissa := ⟨hkept, hshift.roundsTo⟩
  obtain ⟨v, hcanonical, hmantissa, hexponent⟩ :=
    shift_exact hkept.least hround.mantissa_le hround.le_mantissa
  have hindex := hround.roundIndex_eq hr
  have hlast : Magnitude.Canonical
      ⟨(UnpackedFloat.shiftToTargetExponent .binary64 em.roundedMantissa q .exact).1.mantissa,
        (UnpackedFloat.shiftToTargetExponent .binary64 em.roundedMantissa q .exact).2⟩
      ((q + 1074).toNat * Nat.pow 2 52 + em.roundedMantissa) := by
    rw [hmantissa, hexponent]
    exact hcanonical
  rw [hindex]
  unfold UnpackedFloat.roundWithAccuracy
  rw [hfirst]
  exact packs_of_canonical sign hlast

end Round

end BenchLedger.Decimal
