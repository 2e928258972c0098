import BenchLedger.Proofs.Decimal.Bits
import BenchLedger.Proofs.Decimal.Rounding

/-!
# Numbers and their positions

The operations of binary64 unpack their operands and pack their result.  What is unpacked of a
number that is one has the position of the number, what is packed has the position of its mantissa
and exponent, and numbers compare as their positions do.
-/

namespace BenchLedger.Decimal

open Float.Model (UnpackedFloat Format)
open Float.Model.UnpackedFloat (Sign)

/-- The number of the magnitude, counted downwards below zero. -/
def position (x : Float) : ℤ :=
  if isNegative x then -(magnitudeIndex x : ℤ) else magnitudeIndex x

/-- The rational number that a finite number is. -/
def value (x : Float) : ℚ :=
  valueAt (position x)

/-- What is unpacked has that position. -/
def Shows : UnpackedFloat → ℤ → Prop
  | .notANumber, _ => False
  | .infinity s, p => p = s.apply infinityIndex
  | .zero _, p => p = 0
  | .finite s m e _, p =>
    ∃ k, k < infinityIndex ∧ Magnitude.Canonical ⟨m, e⟩ k ∧ p = s.apply k

theorem natAbs_position (x : Float) : (position x).natAbs = magnitudeIndex x := by
  unfold position
  split <;> simp

section Unpack

theorem toNat_unpackSign (b : BitVec Format.binary64.numBits) :
    (UnpackedFloat.unpackSign b).toNat = b.toNat / 2 ^ 63 % 2 := by
  rw [UnpackedFloat.unpackSign_def, BitVec.extractLsb'_toNat, Nat.shiftRight_eq_div_pow]
  rfl

-- The mantissa of a normal number has its leading digit added.
theorem toNat_append_one (v : BitVec 52) : (1#1 ++ v).toNat = 2 ^ 52 + v.toNat := by
  have hlead := Nat.two_pow_add_eq_or_of_lt v.isLt 1
  rw [Nat.mul_one] at hlead
  rw [BitVec.toNat_append, hlead]
  rfl

-- The bits as the operations unpack them.
abbrev bits (x : Float) : BitVec Format.binary64.numBits :=
  x.toBits.toBitVec

theorem sign_unpack (x : Float) :
    Sign.ofBitVec (UnpackedFloat.unpackSign (bits x)) =
      if isNegative x then .negative else .positive := by
  have hsign : (UnpackedFloat.unpackSign (bits x)).toNat =
      x.toBits.toNat / 2 ^ 63 % 2 := toNat_unpackSign x.toBits.toBitVec
  have hlt := x.toBits.toNat_lt
  unfold Sign.ofBitVec isNegative
  by_cases hneg : 0x8000000000000000 ≤ x.toBits.toNat
  · rw [if_neg, if_pos (decide_eq_true hneg)]
    intro hzero
    rw [hzero] at hsign
    have hzero : 0 = x.toBits.toNat / 2 ^ 63 % 2 := hsign
    omega
  · rw [if_pos, if_neg (by simpa using hneg)]
    apply BitVec.eq_of_toNat_eq
    rw [hsign]
    show x.toBits.toNat / 2 ^ 63 % 2 = 0
    omega

variable {x : Float}

-- The sign and the number of the magnitude, put together again.
theorem position_eq_apply (x : Float) :
    position x =
      (if isNegative x then Sign.negative else Sign.positive).apply (magnitudeIndex x) := by
  unfold position
  split <;> rfl

-- A magnitude by its last 52 bits and those before them.
theorem canonical_subnormal {k : ℕ} (h : k < 2 ^ 52) : Magnitude.Canonical ⟨k, -1074⟩ k := by
  have hcanonical := Magnitude.canonical_ofIndex k
  unfold Magnitude.ofIndex at hcanonical
  rwa [if_pos (show k < Nat.pow 2 52 from h)] at hcanonical

theorem canonical_normal {k : ℕ} (h : 2 ^ 52 ≤ k) :
    Magnitude.Canonical ⟨2 ^ 52 + k % 2 ^ 52, (k / 2 ^ 52 : ℕ) - 1075⟩ k := by
  have hcanonical := Magnitude.canonical_ofIndex k
  unfold Magnitude.ofIndex at hcanonical
  rwa [if_neg (show ¬k < Nat.pow 2 52 from not_lt.2 h)] at hcanonical

theorem toNat_exponent (x : Float) :
    (UnpackedFloat.unpackExponent (bits x)).toNat = magnitudeIndex x / 2 ^ 52 := by
  rw [toNat_unpackExponent]
  show x.toBits.toNat / 2 ^ 52 % 2 ^ 11 = x.toBits.toNat % 2 ^ 63 / 2 ^ 52
  omega

theorem toNat_mantissa (x : Float) :
    (UnpackedFloat.unpackMantissa (bits x)).toNat = magnitudeIndex x % 2 ^ 52 := by
  rw [toNat_unpackMantissa]
  show x.toBits.toNat % 2 ^ 52 = x.toBits.toNat % 2 ^ 63 % 2 ^ 52
  omega

theorem shows_unpack (h : x.isNaN = false) : Shows x.toModel.unpack (position x) := by
  have hnan : (UnpackedFloat.unpack .binary64 x.toBits.toBitVec).isNaN = false := h
  show Shows (UnpackedFloat.unpack .binary64 x.toBits.toBitVec) (position x)
  have hexponent := toNat_exponent x
  have hmantissa := toNat_mantissa x
  have hlt : magnitudeIndex x < 2 ^ 63 := Nat.mod_lt _ (by norm_num)
  rw [position_eq_apply]
  unfold UnpackedFloat.unpack at hnan ⊢
  dsimp only at hnan ⊢
  rw [sign_unpack] at hnan ⊢
  split at hnan
  case isTrue hones =>
    rw [if_pos hones]
    rw [hones] at hexponent
    have hexponent : 2047 = magnitudeIndex x / 2 ^ 52 := hexponent
    split at hnan
    case isTrue hzero =>
      rw [if_pos hzero]
      rw [hzero] at hmantissa
      have hmantissa : 0 = magnitudeIndex x % 2 ^ 52 := hmantissa
      have hinfinity : magnitudeIndex x = infinityIndex := by
        unfold infinityIndex
        omega
      rw [hinfinity]
      rfl
    case isFalse => contradiction
  case isFalse hones =>
    rw [if_neg hones]
    have hfinite : magnitudeIndex x / 2 ^ 52 ≠ 2047 := by
      intro heq
      exact hones (BitVec.eq_of_toNat_eq (hexponent.trans heq))
    have hlast : magnitudeIndex x < infinityIndex := by
      unfold infinityIndex
      omega
    split
    case isTrue hzeros =>
      rw [hzeros] at hexponent
      have hexponent : 0 = magnitudeIndex x / 2 ^ 52 := hexponent
      split
      case isTrue hzero =>
        rw [hzero] at hmantissa
        have hmantissa : 0 = magnitudeIndex x % 2 ^ 52 := hmantissa
        have hzero : magnitudeIndex x = 0 := by omega
        rw [hzero]
        split <;> rfl
      case isFalse hzero =>
        refine ⟨magnitudeIndex x, hlast, ?_, rfl⟩
        rw [hzeros, hmantissa, Nat.mod_eq_of_lt (by omega)]
        exact canonical_subnormal (by omega)
    case isFalse hzeros =>
      have hnormal : 2 ^ 52 ≤ magnitudeIndex x := by
        by_contra hlt
        exact hzeros (BitVec.eq_of_toNat_eq (hexponent.trans (Nat.div_eq_of_lt (by omega))))
      refine ⟨magnitudeIndex x, hlast, ?_, rfl⟩
      rw [toNat_append_one, hmantissa, hexponent]
      exact canonical_normal hnormal

end Unpack

section Compare

variable {u v : UnpackedFloat} {p q : ℤ}

-- The exponent decides first, because a mantissa fills its places unless the exponent is least.
theorem compare_canonical {m₁ m₂ : ℕ} {e₁ e₂ : ℤ} {k₁ k₂ : ℕ}
    (h₁ : Magnitude.Canonical ⟨m₁, e₁⟩ k₁) (h₂ : Magnitude.Canonical ⟨m₂, e₂⟩ k₂) :
    (compare e₁ e₂).then (compare m₁ m₂) = compare (k₁ : ℤ) k₂ := by
  obtain ⟨hlt₁, hleast₁, hnormal₁, hindex₁⟩ := h₁
  obtain ⟨hlt₂, hleast₂, hnormal₂, hindex₂⟩ := h₂
  dsimp only at *
  have hpow : Nat.pow 2 52 = 4503599627370496 := by norm_num
  rw [hpow] at hindex₁ hindex₂
  norm_num at hlt₁ hlt₂ hnormal₁ hnormal₂
  rcases lt_trichotomy e₁ e₂ with hlt | rfl | hgt
  · have hk : (k₁ : ℤ) < k₂ := by omega
    rw [compare_lt_iff_lt.2 hlt, compare_lt_iff_lt.2 hk]
    rfl
  · have hcompare : compare m₁ m₂ = compare (k₁ : ℤ) k₂ := by
      rcases lt_trichotomy m₁ m₂ with hlt | rfl | hgt
      · rw [compare_lt_iff_lt.2 hlt, compare_lt_iff_lt.2 (by omega)]
      · rw [compare_eq_iff_eq.2 rfl, compare_eq_iff_eq.2 (by omega)]
      · rw [compare_gt_iff_gt.2 hgt, compare_gt_iff_gt.2 (by omega)]
    rw [compare_eq_iff_eq.2 rfl, ← hcompare]
    rfl
  · have hk : (k₂ : ℤ) < k₁ := by omega
    rw [compare_gt_iff_gt.2 hgt, compare_gt_iff_gt.2 hk]
    rfl

theorem compare_neg_neg (p q : ℤ) : compare (-p) (-q) = (compare p q).swap := by
  rcases lt_trichotomy p q with hlt | rfl | hgt
  · rw [compare_lt_iff_lt.2 hlt, compare_gt_iff_gt.2 (neg_lt_neg hlt)]
    rfl
  · rw [compare_eq_iff_eq.2 rfl, compare_eq_iff_eq.2 rfl]
    rfl
  · rw [compare_gt_iff_gt.2 hgt, compare_lt_iff_lt.2 (neg_lt_neg hgt)]
    rfl

theorem some_lt (h : p < q) : some Ordering.lt = some (compare p q) := by
  rw [compare_lt_iff_lt.2 h]

theorem some_gt (h : q < p) : some Ordering.gt = some (compare p q) := by
  rw [compare_gt_iff_gt.2 h]

-- A finite number that is not zero lies between the infinities and on its side of zero.
theorem Shows.bounds {m : ℕ} {e : ℤ} {hm : 0 < m} {s : Sign} (h : Shows (.finite s m e hm) p) :
    0 < s.apply p ∧ s.apply p < infinityIndex := by
  obtain ⟨k, hk, hcanonical, rfl⟩ := h
  have hindex : (e + 1074).toNat * Nat.pow 2 52 + m = k := hcanonical.index
  cases s with
  | negative =>
    show 0 < - -(k : ℤ) ∧ - -(k : ℤ) < infinityIndex
    omega
  | positive =>
    show 0 < (k : ℤ) ∧ (k : ℤ) < infinityIndex
    omega

-- Either infinity is on its side of every finite number.
theorem Shows.between {m : ℕ} {e : ℤ} {hm : 0 < m} {s : Sign} (h : Shows (.finite s m e hm) p) :
    -(infinityIndex : ℤ) < p ∧ p < infinityIndex := by
  obtain ⟨hpos, hlt⟩ := h.bounds
  cases s with
  | negative =>
    have hpos : 0 < -p := hpos
    have hlt : -p < infinityIndex := hlt
    omega
  | positive =>
    have hpos : 0 < p := hpos
    have hlt : p < infinityIndex := hlt
    omega

theorem Shows.natAbs_le (h : Shows u p) : p.natAbs ≤ infinityIndex := by
  cases u with
  | notANumber => exact h.elim
  | infinity s =>
    obtain rfl : p = s.apply infinityIndex := h
    cases s <;> exact Nat.le_refl _
  | zero s =>
    obtain rfl : p = 0 := h
    exact Nat.zero_le _
  | finite s m e hm =>
    have hbetween := h.between
    omega

theorem compare_of_shows (hu : Shows u p) (hv : Shows v q) :
    u.compare v = some (compare p q) := by
  cases u with
  | notANumber => exact hu.elim
  | infinity s =>
    obtain rfl : p = _ := hu
    cases v with
    | notANumber => exact hv.elim
    | infinity t =>
      obtain rfl : q = _ := hv
      cases s <;> cases t <;> rfl
    | zero t =>
      obtain rfl : q = 0 := hv
      cases s <;> rfl
    | finite t m e hm =>
      cases s with
      | positive => exact some_gt hv.between.2
      | negative => exact some_lt hv.between.1
  | zero s =>
    obtain rfl : p = 0 := hu
    cases v with
    | notANumber => exact hv.elim
    | infinity t =>
      obtain rfl : q = _ := hv
      cases t <;> rfl
    | zero t =>
      obtain rfl : q = 0 := hv
      rfl
    | finite t m e hm =>
      cases t with
      | positive => exact some_lt hv.bounds.1
      | negative => exact some_gt (neg_pos.1 hv.bounds.1)
  | finite s m e hm =>
    have hp := hu.bounds
    cases v with
    | notANumber => exact hv.elim
    | infinity t =>
      obtain rfl : q = _ := hv
      cases t with
      | positive => exact some_lt hu.between.2
      | negative => exact some_gt hu.between.1
    | zero t =>
      obtain rfl : q = 0 := hv
      cases s with
      | positive => exact some_gt hp.1
      | negative => exact some_lt (neg_pos.1 hp.1)
    | finite t m' e' hm' =>
      have hq := hv.bounds
      obtain ⟨k, -, hk, rfl⟩ := hu
      obtain ⟨k', -, hk', rfl⟩ := hv
      have hcompare := compare_canonical hk hk'
      cases s with
      | positive =>
        cases t with
        | positive =>
          show some ((compare e e').then (compare m m')) = _
          rw [hcompare]
          rfl
        | negative => exact some_gt ((neg_pos.1 hq.1).trans hp.1)
      | negative =>
        cases t with
        | positive => exact some_lt ((neg_pos.1 hp.1).trans hq.1)
        | negative =>
          -- below zero the greater magnitude is the lesser number
          show some ((compare e e').then (compare m m')).swap = some (compare (-(k : ℤ)) (-k'))
          rw [hcompare, compare_neg_neg]

end Compare

section Order

variable {x y : Float}

theorem isNaN_eq_false_iff : x.isNaN = false ↔ magnitudeIndex x ≤ infinityIndex := by
  constructor
  · intro h
    rw [← natAbs_position]
    exact (shows_unpack h).natAbs_le
  · intro h
    rcases h.lt_or_eq with hlt | heq
    · exact (isNaN_and_isInf_of_isFinite (isFinite_of_magnitudeIndex_lt hlt)).1
    · have hinf : x.toModel.unpack.isInf = true := isInf_of_magnitudeIndex_eq heq
      show x.toModel.unpack.isNaN = false
      cases hx : x.toModel.unpack with
      | notANumber =>
        rw [hx] at hinf
        contradiction
      | infinity s => rfl
      | zero s => rfl
      | finite s m e hm => rfl

-- What is not a number compares with nothing.
theorem compare_eq_none (h : ¬(x.isNaN = false ∧ y.isNaN = false)) :
    x.toModel.unpack.compare y.toModel.unpack = none := by
  have hnotANumber : ∀ {z : Float}, z.isNaN ≠ false → z.toModel.unpack = .notANumber :=
    fun h => UnpackedFloat.isNaN_iff.1 (Bool.eq_true_of_not_eq_false h)
  rcases not_and_or.1 h with h | h
  · rw [hnotANumber h]
    rfl
  · rw [hnotANumber h]
    cases x.toModel.unpack with
    | notANumber => rfl
    | infinity s => cases s <;> rfl
    | zero s => rfl
    | finite s m e hm => rfl

theorem compare_unpack (x y : Float) :
    x.toModel.unpack.compare y.toModel.unpack =
      if x.isNaN = false ∧ y.isNaN = false then some (compare (position x) (position y))
      else none := by
  split
  case isTrue h => exact compare_of_shows (shows_unpack h.1) (shows_unpack h.2)
  case isFalse h => exact compare_eq_none h

theorem lt_iff :
    x < y ↔ (x.isNaN = false ∧ y.isNaN = false) ∧ position x < position y := by
  show decide (x.toModel < y.toModel) = true ↔ _
  rw [decide_eq_true_iff]
  show (x.toModel.unpack.compare y.toModel.unpack == some .lt) = true ↔ _
  rw [compare_unpack]
  split
  case isTrue h => rw [beq_iff_eq, Option.some.injEq, compare_lt_iff_lt, and_iff_right h]
  case isFalse h => exact iff_of_false (by decide) fun hlt => h hlt.1

theorem le_iff :
    x ≤ y ↔ (x.isNaN = false ∧ y.isNaN = false) ∧ position x ≤ position y := by
  show decide (x.toModel ≤ y.toModel) = true ↔ _
  rw [decide_eq_true_iff]
  show (x.toModel.unpack.compare y.toModel.unpack).any (·.isLE) = true ↔ _
  rw [compare_unpack]
  split
  case isTrue h =>
    rw [and_iff_right h]
    exact Int.isLE_compare
  case isFalse h => exact iff_of_false (by decide) fun hle => h hle.1

theorem beq_iff :
    (x == y) = true ↔ (x.isNaN = false ∧ y.isNaN = false) ∧ position x = position y := by
  show (x.toModel.unpack.compare y.toModel.unpack == some .eq) = true ↔ _
  rw [compare_unpack]
  split
  case isTrue h => rw [beq_iff_eq, Option.some.injEq, compare_eq_iff_eq, and_iff_right h]
  case isFalse h => exact iff_of_false (by decide) fun heq => h heq.1

variable {z : Float}

theorem lt_le_trans (h : x < y) (h' : y ≤ z) : x < z := by
  obtain ⟨⟨hx, -⟩, hlt⟩ := lt_iff.1 h
  obtain ⟨⟨-, hz⟩, hle⟩ := le_iff.1 h'
  exact lt_iff.2 ⟨⟨hx, hz⟩, hlt.trans_le hle⟩

theorem le_lt_trans (h : x ≤ y) (h' : y < z) : x < z := by
  obtain ⟨⟨hx, -⟩, hle⟩ := le_iff.1 h
  obtain ⟨⟨-, hz⟩, hlt⟩ := lt_iff.1 h'
  exact lt_iff.2 ⟨⟨hx, hz⟩, hle.trans_lt hlt⟩

theorem not_lt_of_lt (h : x < y) : ¬y < x := by
  intro h'
  have hlt := (lt_iff.1 h).2
  have hlt' := (lt_iff.1 h').2
  omega

theorem not_lt_of_beq (h : (x == y) = true) : ¬x < y ∧ ¬y < x := by
  have heq := (beq_iff.1 h).2
  constructor <;> intro hlt <;> have hlt := (lt_iff.1 hlt).2 <;> omega

end Order

section Pack

variable {u : UnpackedFloat} {p : ℤ}

/-- What is packed is at that position; too great a number is packed as infinity. -/
def Packs : UnpackedFloat → ℤ → Prop
  | .notANumber, _ => False
  | .infinity s, p => p = s.apply infinityIndex
  | .zero _, p => p = 0
  | .finite s m e _, p =>
    ∃ k, Magnitude.Canonical ⟨m, e⟩ k ∧ p = s.apply (min k infinityIndex : ℕ)

theorem Shows.packs (h : Shows u p) : Packs u p := by
  cases u with
  | notANumber => exact h.elim
  | infinity s => exact h
  | zero s => exact h
  | finite s m e hm =>
    obtain ⟨k, hk, hcanonical, rfl⟩ := h
    exact ⟨k, hcanonical, by rw [min_eq_left hk.le]⟩

theorem position_of_components {x : Float} {s : Sign} {exponent : BitVec 11} {mantissa : BitVec 52}
    {k : ℕ} (h : bits x = UnpackedFloat.packComponents .binary64 s exponent mantissa)
    (hk : exponent.toNat * 2 ^ 52 + mantissa.toNat = k) : position x = s.apply k := by
  have hsign := sign_unpack x
  have hexponent := toNat_exponent x
  have hmantissa := toNat_mantissa x
  rw [h, UnpackedFloat.unpackSign_packComponents, Sign.ofBitVec_toBitVec] at hsign
  rw [h, UnpackedFloat.unpackExponent_packComponents] at hexponent
  rw [h, UnpackedFloat.unpackMantissa_packComponents] at hmantissa
  have hindex : magnitudeIndex x = k := by
    have hexponent : exponent.toNat = magnitudeIndex x / 2 ^ 52 := hexponent
    have hmantissa : mantissa.toNat = magnitudeIndex x % 2 ^ 52 := hmantissa
    omega
  rw [position_eq_apply, ← hsign, hindex]

-- The exponent of a magnitude as it is packed.
theorem Magnitude.Canonical.biased {v : Magnitude} {k : ℕ} (h : v.Canonical k) :
    ∃ biased, (v.exponent + (1023 : ℕ) + (52 : ℕ)).toNat = biased ∧
      biased * 2 ^ 52 + v.mantissa = k + 2 ^ 52 ∧ 1 ≤ biased ∧
      (biased ≠ 1 → 2 ^ 52 ≤ v.mantissa) := by
  have hindex : (v.exponent + 1074).toNat * 2 ^ 52 + v.mantissa = k := h.index
  have hleast := h.least
  have hnormal := h.normal
  have hnext : (v.exponent + 1075).toNat = (v.exponent + 1074).toNat + 1 := by omega
  refine ⟨(v.exponent + 1075).toNat, ?_, ?_, by omega, fun hne => hnormal (by omega)⟩
  · push_cast
    omega
  · rw [hnext, Nat.add_mul, ← hindex, Nat.one_mul, Nat.add_right_comm]

theorem position_pack (h : Packs u p) : position (.ofModel (.pack u)) = p := by
  cases u with
  | notANumber => exact h.elim
  | infinity s =>
    obtain rfl : p = _ := h
    have hbits : bits (.ofModel (.pack (.infinity s))) =
        UnpackedFloat.packComponents .binary64 s (-1#11) 0#52 := rfl
    exact position_of_components hbits (by decide)
  | zero s =>
    obtain rfl : p = 0 := h
    have hbits : bits (.ofModel (.pack (.zero s))) =
        UnpackedFloat.packComponents .binary64 s 0#11 0#52 := rfl
    rw [position_of_components (k := 0) hbits (by decide)]
    cases s <;> rfl
  | finite s m e hm =>
    obtain ⟨k, hcanonical, rfl⟩ := h
    obtain ⟨biased, hbiased, hindex, hone, hfull⟩ := hcanonical.biased
    dsimp only at hbiased hindex hfull
    have hlt : m < 2 ^ 53 := hcanonical.mantissa_lt
    have hlog : m.log2 + 1 = 53 ↔ 2 ^ 52 ≤ m := by
      rw [← Nat.le_log2 hm.ne']
      have hle : m.log2 < 53 := (Nat.log2_lt hm.ne').2 hlt
      omega
    have hpack : bits (.ofModel (.pack (.finite s m e hm))) =
        if 2 ^ 11 ≤ (e + (1023 : ℕ) + (52 : ℕ)).toNat + 1 then
          UnpackedFloat.packComponents .binary64 s (-1#11) 0#52
        else if m.log2 + 1 = 53 then
          UnpackedFloat.packComponents .binary64 s
            (BitVec.ofNat 11 (e + (1023 : ℕ) + (52 : ℕ)).toNat) (BitVec.ofNat 52 m)
        else UnpackedFloat.packComponents .binary64 s 0#11 (BitVec.ofNat 52 m) := rfl
    rw [hbiased] at hpack
    have hinfinity : infinityIndex = 2047 * 2 ^ 52 := by decide
    split at hpack
    case isTrue hover =>
      refine position_of_components hpack ?_
      show 2047 * 2 ^ 52 = min k infinityIndex
      omega
    case isFalse hunder =>
      split at hpack
      case isTrue hplaces =>
        refine position_of_components hpack ?_
        rw [hlog] at hplaces
        have hbits : biased % 2 ^ 11 = biased := Nat.mod_eq_of_lt (by omega)
        have hrest : m % 2 ^ 52 = m - 2 ^ 52 := by omega
        have hle : k ≤ infinityIndex := by omega
        rw [BitVec.toNat_ofNat, BitVec.toNat_ofNat, hbits, hrest, min_eq_left hle]
        omega
      case isFalse hplaces =>
        refine position_of_components hpack ?_
        rw [hlog] at hplaces
        have hleast : biased = 1 := by
          by_contra hne
          exact hplaces (hfull hne)
        have hrest : (BitVec.ofNat 52 m).toNat = m := by
          rw [BitVec.toNat_ofNat]
          exact Nat.mod_eq_of_lt (by omega)
        have hk : m = k := by omega
        have hle : k ≤ infinityIndex := by omega
        rw [hrest, hk, min_eq_left hle]
        exact Nat.zero_add k

end Pack

end BenchLedger.Decimal
