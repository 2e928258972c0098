import BenchLedger.Proofs.Decimal.Differences
import BenchLedger.Proofs.Decimal.Extremes
import BenchLedger.Proofs.Decimal.Products

/-!
# Relative changes

The change of a number against another one, as a share of that, is not rounded to zero: two numbers
that are not equal differ by at least the last place of the less of them, so the share is at least
`2 ^ (-53)`.
-/

namespace BenchLedger.Decimal

variable {x y : Float}

-- A number is on the same side of what can be represented as what was rounded to it.
theorem Representable.le_value {r q : ℚ} (h : Representable r) (hy : y.isFinite = true)
    (hry : r ≤ value y) (hx : position x = nearestPosition q) (hrq : r ≤ q) : r ≤ value x := by
  have hmono := nearestPosition_mono hrq
  rw [← hx] at hmono
  rw [← h.valueAt_nearestPosition hy hry, value]
  exact (valueAt_le_valueAt_iff (natAbs_nearestPosition_le r)
    (natAbs_position_le (isNaN_of_position hx))).2 hmono

/-- The difference is at least a share of `2 ^ (-53)` of the greater number. -/
theorem le_value_sub (hx : x.isFinite = true) (hy : y.isFinite = true) (hpos : 0 ≤ position x)
    (hlt : position x < position y) : value y / 2 ^ 53 ≤ value (y - x) := by
  obtain ⟨e, he, hunit, hbound⟩ := exists_unit_of_lt hpos hy hlt
  have hnonneg := (value_nonneg_iff (isNaN_of_isFinite hx)).2 hpos
  have hle : 2 ^ e ≤ value (y - x) :=
    (representable_pow he).le_value hy (by linarith) (position_sub hy hx) hunit
  rw [div_le_iff₀ (by norm_num)]
  linarith

section Sign

-- The least share that a change can have is far above the least positive number.
theorem pow_le_share : (2 : ℚ) ^ (-1074 : ℤ) ≤ 1 / 2 ^ 53 := by
  rw [one_div, ← zpow_natCast, ← zpow_neg]
  exact zpow_le_zpow_right₀ (one_le_two : (1 : ℚ) ≤ 2) (by norm_num)

variable {c v : Float} (hc : c.isFinite = true) (hv : v.isFinite = true)

include hc hv

/-- A number above another one has changed upwards. -/
theorem position_share_pos (hpos : 0 < position c) (hlt : position c < position v) :
    ((v - c) / c).isNaN = false ∧ 0 < position ((v - c) / c) := by
  have hquot := position_div (isFinite_sub hv hc (by omega) hpos.le) hc hpos.ne'
  refine ⟨isNaN_of_position hquot, ?_⟩
  have hcpos := (value_pos_iff (isNaN_of_isFinite hc)).2 hpos
  have hvalue := (value_lt_value_iff (isNaN_of_isFinite hc) (isNaN_of_isFinite hv)).2 hlt
  have hdiff := le_value_sub hc hv hpos.le hlt
  rw [hquot]
  refine nearestPosition_pos (pow_le_share.trans ?_)
  rw [le_div_iff₀ hcpos]
  linarith

/-- A number below another one has changed downwards, by not more than the whole of that. -/
theorem position_share_neg (hpos : 0 ≤ position v) (hlt : position v < position c) :
    ((v - c) / c).isFinite = true ∧ position ((v - c) / c) < 0 := by
  have hcpos := (value_pos_iff (isNaN_of_isFinite hc)).2 (by omega)
  have hvnonneg := (value_nonneg_iff (isNaN_of_isFinite hv)).2 hpos
  have hfinite := isFinite_sub hv hc hpos (by omega)
  have hturn := value_sub_comm hv hc
  have hdiff := le_value_sub hv hc hpos hlt
  have hmost : value (c - v) ≤ value c :=
    value_le_of_position (isNaN_of_isFinite hc) (position_sub hc hv) (by linarith)
  have hquot := position_div hfinite hc (by omega)
  have hshare : 1 / 2 ^ 53 ≤ -(value (v - c) / value c) := by
    rw [hturn, neg_div, neg_neg, le_div_iff₀ hcpos]
    linarith
  have hwhole : -(value (v - c) / value c) ≤ 1 := by
    rw [hturn, neg_div, neg_neg, div_le_one hcpos]
    exact hmost
  constructor
  · refine isFinite_of_position isFinite_one hquot ?_
    have hpow : (0 : ℚ) ≤ 1 / 2 ^ 53 := by positivity
    rw [value_one, abs_le]
    constructor <;> linarith
  · have hround := nearestPosition_pos (pow_le_share.trans hshare)
    rw [nearestPosition_neg, ← hquot] at hround
    omega

end Sign

section Hundred

theorem le_value_of_position_pos (h : x.isNaN = false) (hpos : 0 < position x) :
    2 ^ (-1074 : ℤ) ≤ value x := by
  rw [← valueAt_one]
  exact (valueAt_le_valueAt_iff (by decide) (natAbs_position_le h)).2 hpos

theorem value_hundred : 1 ≤ value 100 := by
  rw [← value_one, value_le_value_iff (by decide) (by decide)]
  decide

/-- A hundred times a positive number is positive. -/
theorem position_mul_hundred_pos (h : x.isNaN = false) (hpos : 0 < position x) :
    (x * 100).isNaN = false ∧ 0 < position (x * 100) := by
  rcases isFinite_or_infinity h hpos.le with hfinite | hinfinite
  · have hmul := position_mul (y := 100) hfinite (by decide)
    have hleast := le_value_of_position_pos h hpos
    have hhundred := value_hundred
    refine ⟨isNaN_of_position hmul, ?_⟩
    rw [hmul]
    refine nearestPosition_pos (hleast.trans (le_mul_of_one_le_right ?_ hhundred))
    exact (value_nonneg_iff h).2 hpos.le
  · have hmul := (infinity_mul hinfinite (y := 100) (by decide)).2.2 (by decide)
    refine ⟨isNaN_of_infinity hmul, ?_⟩
    rw [hmul]
    decide

theorem position_mul_hundred_neg (h : x.isFinite = true) (hneg : position x < 0) :
    (x * 100).isNaN = false ∧ position (x * 100) < 0 := by
  have hmul := position_mul (y := 100) h (by decide)
  have hleast : 2 ^ (-1074 : ℤ) ≤ -value x := by
    have hle := natAbs_position_le (isNaN_of_isFinite h)
    rw [← valueAt_one, value, ← valueAt_neg]
    exact (valueAt_le_valueAt_iff (by decide) (by rwa [Int.natAbs_neg])).2 (by omega)
  have hhundred := value_hundred
  have hpow : (0 : ℚ) < 2 ^ (-1074 : ℤ) := zpow_pos two_pos _
  refine ⟨isNaN_of_position hmul, ?_⟩
  have hround := nearestPosition_pos
    (hleast.trans (le_mul_of_one_le_right (by linarith) hhundred))
  rw [neg_mul, nearestPosition_neg, ← hmul] at hround
  omega

end Hundred

end BenchLedger.Decimal
