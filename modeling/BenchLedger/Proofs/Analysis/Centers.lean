import BenchLedger.Analysis.Baseline
import BenchLedger.Proofs.Decimal.Differences
import BenchLedger.Proofs.Decimal.Extremes
import BenchLedger.Proofs.Decimal.Products
import BenchLedger.Proofs.Ledger.Validity

/-!
# Centers of baselines

The mean of values that are finite and not negative is so too, whatever is rounded on the way.  The
median is not negative, but the sum of the two values in the middle may be too great for a number.
-/

namespace BenchLedger.Analysis

open Decimal

namespace Selection

/-- What is read of the array has the property, also beyond its end. -/
structure Each (P : Float → Prop) (a : Array Float) : Prop where
  outside : P 0
  elements : ∀ x ∈ a, P x

variable {P : Float → Prop} {a : Array Float}

theorem Each.item (h : Each P a) (i : Nat) : P (item a i) := by
  unfold Selection.item
  by_cases hi : i < a.size
  · rw [Array.getD_eq_getD_getElem?, Array.getElem?_eq_getElem hi]
    exact h.elements _ (Array.getElem_mem hi)
  · rw [Array.getD_eq_getD_getElem?, Array.getElem?_eq_none (Nat.not_lt.1 hi)]
    exact h.outside

theorem Each.swap (h : Each P a) (i j : Nat) : Each P (a.swapIfInBounds i j) := by
  refine ⟨h.outside, fun x hx => h.elements x ?_⟩
  rw [Array.swapIfInBounds_def] at hx
  split at hx
  · split at hx
    · exact (Array.swap_perm _ _).mem_iff.1 hx
    · exact hx
  · exact hx

theorem Each.set (h : Each P a) (i : Nat) {x : Float} (hx : P x) :
    Each P (a.setIfInBounds i x) := by
  refine ⟨h.outside, fun y hy => ?_⟩
  obtain hy | rfl := Array.mem_or_eq_of_mem_setIfInBounds hy
  · exact h.elements y hy
  · exact hx

theorem Each.orderPair (h : Each P a) (i j : Nat) : Each P (orderPair a i j) := by
  unfold Selection.orderPair
  split
  · exact h.swap i j
  · exact h

theorem Each.partition (h : Each P a) (pivot : Float) (fuel i j : Nat) :
    Each P (partition pivot fuel a i j).1 := by
  induction fuel generalizing a i j with
  | zero => exact h
  | succ fuel ih =>
    unfold Selection.partition
    dsimp only
    split
    · exact h
    · exact ih (h.swap _ _) _ _

theorem Each.narrow (h : Each P a) (rank fuel low high : Nat) :
    Each P (narrow rank fuel a low high) := by
  induction fuel generalizing a low high with
  | zero => exact h
  | succ fuel ih =>
    unfold Selection.narrow
    split
    · split
      · exact h.orderPair _ _
      · exact h
    · have hordered := (((h.swap ((low + high) / 2) (low + 1)).orderPair low high).orderPair
        (low + 1) high).orderPair low (low + 1)
      have hpivot := hordered.item (low + 1)
      refine ih (((hordered.partition _ _ _ _).set _ ?_).set _ hpivot) _ _
      exact (hordered.partition _ _ _ _).item _

theorem Each.least (h : Each P a) (hsize : 0 < a.size) : P (least a) := by
  have hmem : ∀ x ∈ a.toList, P x := fun x hx => h.elements x (Array.mem_def.2 hx)
  unfold Selection.least
  split
  case h_1 hnil =>
    rw [← Array.length_toList, hnil] at hsize
    contradiction
  case h_2 x xs hlist =>
    rw [hlist, List.forall_mem_cons] at hmem
    refine List.foldlRecOn xs _ hmem.1 fun acc hacc y hy => ?_
    split
    · exact hmem.2 y hy
    · exact hacc

/-- What is selected is one of the elements. -/
theorem Each.select (h : Each P a) {rank : Nat} (hsize : rank = 0 → 0 < a.size) :
    P (select a rank).1 ∧ Each P (select a rank).2 := by
  unfold Selection.select
  split
  case isTrue hzero => exact ⟨h.least (hsize hzero), h⟩
  case isFalse =>
    have hnarrow := h.narrow rank (2 * a.size) 0 (a.size - 1)
    exact ⟨hnarrow.item rank, hnarrow⟩

end Selection

/-- The median is one of the values, or it is computed of two of them. -/
theorem median_cases {P : Float → Prop} {values : List Float} (hzero : P 0)
    (hne : values ≠ []) (h : ∀ x ∈ values, P x) :
    P (median values) ∨ ∃ x y, P x ∧ P y ∧ median values = (x + y) / 2 := by
  have heach : Selection.Each P values.toArray := ⟨hzero, fun x hx => h x (by simpa using hx)⟩
  have hsize : 0 < values.toArray.size := by simpa using List.length_pos_iff.2 hne
  unfold median
  dsimp only
  split
  case isTrue => exact .inl (heach.select fun _ => hsize).1
  case isFalse heven =>
    have hlowest : values.toArray.size / 2 - 1 = 0 → 0 < values.toArray.size := fun _ => hsize
    obtain ⟨hlower, hrest⟩ := heach.select hlowest
    exact .inr ⟨_, _, hlower, (hrest.select fun hrank => by omega).1, rfl⟩

/-- A number that the value of a valid measurement may be. -/
structure Measured (x : Float) : Prop where
  finite : x.isFinite = true
  not_negative : ¬x < 0

theorem measured_iff {x : Float} : Measured x ↔ x.isFinite = true ∧ 0 ≤ position x := by
  constructor
  · rintro ⟨hfinite, hnonneg⟩
    exact ⟨hfinite, (not_lt_zero_iff (isNaN_of_isFinite hfinite)).1 hnonneg⟩
  · rintro ⟨hfinite, hnonneg⟩
    exact ⟨hfinite, (not_lt_zero_iff (isNaN_of_isFinite hfinite)).2 hnonneg⟩

namespace Measured

variable {x y : Float}

theorem nonneg (h : Measured x) : 0 ≤ position x :=
  (measured_iff.1 h).2

theorem isNaN (h : Measured x) : x.isNaN = false :=
  isNaN_of_isFinite h.finite

theorem value_nonneg (h : Measured x) : 0 ≤ value x :=
  (value_nonneg_iff h.isNaN).2 h.nonneg

-- A result between zero and such a number is one, too.
theorem of_position {r : ℚ} (hy : Measured y) (h : position x = nearestPosition r) (hr : 0 ≤ r)
    (hle : r ≤ value y) : Measured x := by
  have hmono := nearestPosition_mono hr
  rw [nearestPosition_zero, ← h] at hmono
  exact measured_iff.2 ⟨isFinite_of_position hy.finite h (by rwa [abs_of_nonneg hr]), hmono⟩

theorem zero : Measured 0 :=
  measured_iff.2 ⟨by decide, by decide⟩

end Measured

/-- The half of a sum of two values is not negative, though it may be infinite. -/
theorem half_add {x y : Float} (hx : Measured x) (hy : Measured y) :
    ((x + y) / 2).isNaN = false ∧ 0 ≤ position ((x + y) / 2) := by
  have hsum := position_add hx.finite hy.finite
  have hnan := isNaN_of_position hsum
  have hmono := nearestPosition_mono (add_nonneg hx.value_nonneg hy.value_nonneg)
  rw [nearestPosition_zero, ← hsum] at hmono
  rcases isFinite_or_infinity hnan hmono with hfinite | hinfinite
  · have hhalf := position_div (y := 2) hfinite (by decide) (by decide)
    have hmono' := nearestPosition_mono
      (div_nonneg ((value_nonneg_iff hnan).2 hmono) (by rw [value_two]; norm_num : 0 ≤ value 2))
    rw [nearestPosition_zero, ← hhalf] at hmono'
    exact ⟨isNaN_of_position hhalf, hmono'⟩
  · rw [eq_infinity hinfinite]
    decide

section Mean

variable {count mean x : Float}

section Step

variable (hmean : Measured mean) (hx : Measured x) (hcount : count.isFinite = true)
  (hone : 1 ≤ value count)

include hmean hx hcount hone

-- Towards a greater value: the first step takes it, and later ones take half of the way at most.
theorem measured_step_up (hstep : value mean = 0 ∨ 2 ≤ value count)
    (hle : value mean ≤ value x) : Measured (mean + (x - mean) / count) := by
  have hm := hmean.value_nonneg
  have hdiff := position_sub hx.finite hmean.finite
  have hd : Measured (x - mean) := hx.of_position hdiff (by linarith) (by linarith)
  have hdx : value (x - mean) ≤ value x := value_le_of_position hx.isNaN hdiff (by linarith)
  have hcpos := (value_pos_iff (isNaN_of_isFinite hcount)).1 (by linarith)
  have hquot := position_div hd.finite hcount hcpos.ne'
  have hshare : value (x - mean) / value count ≤ value (x - mean) :=
    div_le_self hd.value_nonneg hone
  have hq : Measured ((x - mean) / count) :=
    hd.of_position hquot (div_nonneg hd.value_nonneg (by linarith)) hshare
  have hqd : value ((x - mean) / count) ≤ value (x - mean) :=
    value_le_of_position hd.isNaN hquot hshare
  have hsum := position_add hmean.finite hq.finite
  have hnonneg : 0 ≤ value mean + value ((x - mean) / count) := add_nonneg hm hq.value_nonneg
  rcases hstep with hfirst | htwo
  · exact hx.of_position hsum hnonneg (by linarith)
  · rcases le_total (value x) (2 * value mean) with hnear | hfar
    · -- the difference is exact
      have hexact := value_sub_of_le_double hx.finite hmean.finite hmean.nonneg
        ((value_le_value_iff hmean.isNaN hx.isNaN).1 hle) hnear
      exact hx.of_position hsum hnonneg (by linarith)
    · obtain ⟨half, hhalf, heq⟩ := exists_half_greatest
      have hmost := value_le_greatest hx.finite
      have hqhalf : value ((x - mean) / count) ≤ value half := by
        refine value_le_of_position (isNaN_of_isFinite hhalf) hquot ?_
        rw [div_le_iff₀ (by linarith)]
        nlinarith
      have hgreatest : Measured greatest := measured_iff.2 ⟨isFinite_greatest, by decide⟩
      exact hgreatest.of_position hsum hnonneg (by linarith)

-- Towards a lesser value: what is taken away is not more than the mean.
theorem measured_step_down (hlt : value x < value mean) :
    Measured (mean + (x - mean) / count) := by
  have hxnonneg := hx.value_nonneg
  have hdiff := position_sub hx.finite hmean.finite
  have hdfinite := isFinite_sub hx.finite hmean.finite hx.nonneg hmean.nonneg
  have hdneg : value (x - mean) ≤ 0 := by
    rw [← value_zero]
    refine value_le_of_position (by decide) hdiff ?_
    rw [value_zero]
    linarith
  have hdlow : -value mean ≤ value (x - mean) :=
    neg_le_value_of_position hmean.isNaN hdiff (by linarith)
  have hcpos := (value_pos_iff (isNaN_of_isFinite hcount)).1 (by linarith)
  have hquot := position_div hdfinite hcount hcpos.ne'
  have hshare : value (x - mean) / value count ≤ 0 := div_nonpos_of_nonpos_of_nonneg hdneg
    (by linarith)
  have hshare' : -value mean ≤ value (x - mean) / value count := by
    rw [le_div_iff₀ (by linarith)]
    nlinarith
  have hqfinite : ((x - mean) / count).isFinite = true :=
    isFinite_of_position hmean.finite hquot (by rw [abs_le]; constructor <;> linarith)
  have hqneg : value ((x - mean) / count) ≤ 0 := by
    rw [← value_zero]
    refine value_le_of_position (by decide) hquot ?_
    rwa [value_zero]
  have hqlow : -value mean ≤ value ((x - mean) / count) :=
    neg_le_value_of_position hmean.isNaN hquot hshare'
  exact hmean.of_position (position_add hmean.finite hqfinite) (by linarith) (by linarith)

/-- A step of the running mean. -/
theorem measured_step (hstep : value mean = 0 ∨ 2 ≤ value count) :
    Measured (mean + (x - mean) / count) := by
  rcases le_or_gt (value mean) (value x) with hle | hlt
  · exact measured_step_up hmean hx hcount hone hstep hle
  · exact measured_step_down hmean hx hcount hone hlt

end Step

/-- A count of values, and a mean which is 0 before the first of them. -/
structure Running (count mean : Float) : Prop where
  counted : Measured count
  averaged : Measured mean
  started : value mean = 0 ∨ 1 ≤ value count

theorem Running.succ (h : Running count mean) :
    (count + 1).isFinite = true ∧ 1 ≤ value (count + 1) ∧
      (value mean = 0 ∨ 2 ≤ value (count + 1)) := by
  have hc := h.counted.value_nonneg
  have hsum := position_add h.counted.finite (y := 1) (by decide)
  rw [value_one] at hsum
  refine ⟨isFinite_of_add_one h.counted.finite h.counted.nonneg hsum, ?_,
    h.started.imp_right fun hone => ?_⟩
  · rw [← value_one]
    refine le_value_of_position (by decide) hsum ?_
    rw [value_one]
    linarith
  · rw [← value_two]
    refine le_value_of_position (by decide) hsum ?_
    rw [value_two]
    linarith

theorem Running.step (h : Running count mean) (hx : Measured x) :
    Running (count + 1) (mean + (x - mean) / (count + 1)) := by
  obtain ⟨hfinite, hone, hstep⟩ := h.succ
  refine ⟨measured_iff.2 ⟨hfinite, ?_⟩, measured_step h.averaged hx hfinite hone hstep, .inr hone⟩
  exact (value_nonneg_iff (isNaN_of_isFinite hfinite)).1 (by linarith)

theorem Running.meanFrom {xs : List Float} (h : Running count mean) (hxs : ∀ x ∈ xs, Measured x) :
    Measured (meanFrom count mean xs) := by
  induction xs generalizing count mean with
  | nil => exact h.averaged
  | cons x xs ih =>
    obtain ⟨hx, hxs⟩ := List.forall_mem_cons.1 hxs
    exact ih (h.step hx) hxs

/-- The mean of such values is one, too. -/
theorem measured_mean {values : List Float} (h : ∀ x ∈ values, Measured x) :
    Measured (Analysis.mean values) :=
  Running.meanFrom ⟨.zero, .zero, .inl value_zero⟩ h

end Mean

namespace Baseline

variable {statistic : Statistic} {window : List Measurement} {b : Baseline}

theorem eq_ofValues (h : ofRecords statistic window = .ok b) :
    b = ofValues statistic (window.head?.map (·.unit)) (window.map (·.value)) := by
  unfold ofRecords at h
  dsimp only at h
  split at h
  case h_1 => contradiction
  case h_2 => exact (Except.ok.inj h).symm

theorem center_nil (statistic : Statistic) (unit : Option MeasureUnit) :
    (ofValues statistic unit []).center = 0 := by
  cases statistic <;> rfl

theorem center_of_sampleSize_eq_zero (h : ofRecords statistic window = .ok b)
    (hsize : b.sampleSize = 0) : b.center = 0 := by
  have hb := eq_ofValues h
  rw [hb] at hsize
  rw [hb, List.eq_nil_of_length_eq_zero hsize]
  exact center_nil _ _

/-- The center of a baseline of valid values is not negative; a mean is a finite number. -/
structure Centered (b : Baseline) : Prop where
  isNaN : b.center.isNaN = false
  nonneg : 0 ≤ position b.center
  finite : b.statistic = .mean → b.center.isFinite = true

theorem centered_ofValues (unit : Option MeasureUnit) {values : List Float}
    (h : ∀ x ∈ values, Measured x) : (ofValues statistic unit values).Centered := by
  cases values with
  | nil =>
    have hmeasured : Measured (ofValues statistic unit []).center := by
      rw [center_nil]
      exact .zero
    exact ⟨hmeasured.isNaN, hmeasured.nonneg, fun _ => hmeasured.finite⟩
  | cons x xs =>
    cases statistic with
    | mean =>
      have hmean := measured_mean h
      exact ⟨hmean.isNaN, hmean.nonneg, fun _ => hmean.finite⟩
    | median =>
      have hmedian : (Analysis.median (x :: xs)).isNaN = false ∧
          0 ≤ position (Analysis.median (x :: xs)) := by
        rcases median_cases .zero (List.cons_ne_nil x xs) h with hone | ⟨y, z, hy, hz, htwo⟩
        · exact ⟨hone.isNaN, hone.nonneg⟩
        · rw [htwo]
          exact half_add hy hz
      exact ⟨hmedian.1, hmedian.2, fun h => by contradiction⟩

theorem centered_of_ofRecords (hvalues : ∀ m ∈ window, Measured m.value)
    (h : ofRecords statistic window = .ok b) : b.Centered := by
  rw [eq_ofValues h]
  exact centered_ofValues _ (List.forall_mem_map.2 hvalues)

end Baseline

end BenchLedger.Analysis

namespace BenchLedger

theorem Measurement.Valid.measured {m : Measurement} (h : m.Valid) : Analysis.Measured m.value :=
  ⟨h.value_finite, h.value_nonneg⟩

end BenchLedger
