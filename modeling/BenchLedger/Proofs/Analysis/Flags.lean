import BenchLedger.Proofs.Analysis.Classes
import BenchLedger.Proofs.Decimal.Ratios

/-!
# What stands behind a flag

A measurement is flagged only if its value lies beyond a bound, and so on one side of the center.
The change that its verdict reports is on the same side of zero, unless the center is zero, which
no change is a share of.
-/

namespace BenchLedger.Analysis

open Decimal

/-- The number is not zero, and it is positive for a value above the center and negative for one
below it. -/
structure Follows (change center value : Float) : Prop where
  ne_zero : (change == 0) = false
  positive : 0 < change ↔ center < value
  negative : change < 0 ↔ value < center

section Change

variable {c v change : Float}

-- A number that is not zero is known to follow a move by the side on which it is.
theorem Follows.up (hnan : change.isNaN = false ∧ 0 < position change) (h : c < v) :
    Follows change c v := by
  have hzero : position 0 = 0 := by decide
  have hpos : 0 < change := by
    rw [lt_iff, hzero]
    exact ⟨⟨by decide, hnan.1⟩, hnan.2⟩
  refine ⟨?_, iff_of_true hpos h, iff_of_false (not_lt_of_lt hpos) (not_lt_of_lt h)⟩
  by_contra heq
  exact (not_lt_of_beq (Bool.eq_true_of_not_eq_false heq)).2 hpos

theorem Follows.down (hnan : change.isNaN = false ∧ position change < 0) (h : v < c) :
    Follows change c v := by
  have hzero : position 0 = 0 := by decide
  have hneg : change < 0 := by
    rw [lt_iff, hzero]
    exact ⟨⟨hnan.1, by decide⟩, hnan.2⟩
  refine ⟨?_, iff_of_false (not_lt_of_lt hneg) (not_lt_of_lt h), iff_of_true hneg h⟩
  by_contra heq
  exact (not_lt_of_beq (Bool.eq_true_of_not_eq_false heq)).1 hneg

/-- The change against a center that is not zero follows the move, and so does its percentage. -/
theorem follows_deltaRatio (hc : Measured c) (hv : Measured v) (hne : (c == 0) = false)
    (hmoved : c < v ∨ v < c) :
    Follows (deltaRatio v c) c v ∧ Follows (deltaRatio v c * 100) c v := by
  have hcne : position c ≠ 0 := by
    intro hzero
    have heq : (c == 0) = true := beq_iff.2 ⟨⟨hc.isNaN, by decide⟩, hzero⟩
    rw [heq] at hne
    contradiction
  have hcpos : 0 < position c := lt_of_le_of_ne hc.nonneg hcne.symm
  have hratio : deltaRatio v c = (v - c) / c := by
    unfold deltaRatio
    rw [hne]
    rfl
  rw [hratio]
  rcases hmoved with hup | hdown
  · have hshare := position_share_pos hc.finite hv.finite hcpos (lt_iff.1 hup).2
    exact ⟨.up hshare hup, .up (position_mul_hundred_pos hshare.1 hshare.2) hup⟩
  · obtain ⟨hfinite, hneg⟩ := position_share_neg hc.finite hv.finite hv.nonneg (lt_iff.1 hdown).2
    exact ⟨.down ⟨isNaN_of_isFinite hfinite, hneg⟩ hdown,
      .down (position_mul_hundred_neg hfinite hneg) hdown⟩

-- The text of a number starts with its sign.
theorem head_signed (hnan : change.isNaN = false) (places : Nat) (unit : String) :
    (fixed places true change ++ unit).toList.head? =
      some (if isNegative change then '-' else '+') := by
  unfold fixed
  rw [if_neg (Bool.not_eq_true _ ▸ hnan), String.toList_append, String.toList_ofList]
  cases isNegative change <;> rfl

theorem isNegative_iff (hnan : change.isNaN = false) (hne : (change == 0) = false) :
    isNegative change = true ↔ change < 0 := by
  have hzero : position 0 = 0 := by decide
  have hnumbers : change.isNaN = false ∧ (0 : Float).isNaN = false := ⟨hnan, by decide⟩
  have hpos : position change ≠ 0 := by
    intro heq
    rw [beq_iff.2 ⟨hnumbers, heq.trans hzero.symm⟩] at hne
    contradiction
  rw [lt_iff, and_iff_right hnumbers, hzero]
  unfold position at hpos ⊢
  split at hpos
  case isTrue hneg =>
    rw [if_pos hneg]
    exact iff_of_true hneg (by omega)
  case isFalse hneg =>
    rw [if_neg hneg]
    exact iff_of_false hneg (by omega)

end Change

section Bounds

variable {center threshold value : Float} {direction : Direction}
  (hcenter : Measured center) (ht : Measured threshold)

include hcenter ht

theorem above_center (h : center * (1 + threshold) < value) : center < value := by
  have hfinite := isFinite_one_add ht.finite ht.nonneg
  have hfactor : 1 ≤ Decimal.value (1 + threshold) := by
    rw [← value_one]
    refine le_value_of_position (by decide) (position_add (by decide) ht.finite) ?_
    linarith [ht.value_nonneg]
  have hle : position center ≤ position (center * (1 + threshold)) := by
    rw [position_mul hcenter.finite hfinite, ← nearestPosition_value hcenter.isNaN]
    exact nearestPosition_mono (le_mul_of_one_le_right hcenter.value_nonneg hfactor)
  obtain ⟨⟨-, hvalue⟩, hlt⟩ := lt_iff.1 h
  exact lt_iff.2 ⟨⟨hcenter.isNaN, hvalue⟩, hle.trans_lt hlt⟩

theorem below_center (h : value < center * (1 - threshold)) : value < center := by
  have hfinite := isFinite_one_sub ht.finite ht.nonneg
  have hfactor : Decimal.value (1 - threshold) ≤ 1 := by
    rw [← value_one]
    refine value_le_of_position (by decide) (position_sub (by decide) ht.finite) ?_
    linarith [ht.value_nonneg]
  have hle : position (center * (1 - threshold)) ≤ position center := by
    rw [position_mul hcenter.finite hfinite, ← nearestPosition_value hcenter.isNaN]
    exact nearestPosition_mono (mul_le_of_le_one_right hcenter.value_nonneg hfactor)
  obtain ⟨⟨hvalue, -⟩, hlt⟩ := lt_iff.1 h
  exact lt_iff.2 ⟨⟨hvalue, hcenter.isNaN⟩, hlt.trans_le hle⟩

/-- What is flagged is on one side of the center. -/
theorem moved_of_flagged
    (hflag : Classification.ofValue direction center threshold value ≠ .stable) :
    center < value ∨ value < center := by
  by_contra hsame
  rw [not_or] at hsame
  exact hflag (Classification.ofValue_within (fun h => hsame.1 (above_center hcenter ht h))
    fun h => hsame.2 (below_center hcenter ht h))

end Bounds

/-- What a flag says about the verdict that carries it. -/
structure Verdict.Backed (v : Verdict) (minHistory : Nat) : Prop where
  sufficient : minHistory ≤ v.baseline.sampleSize
  -- No change is a share of a center of 0, which only a greater value is flagged against.
  zero : (v.baseline.center == 0) = true → v.deltaRatio = 0 ∧ v.baseline.center < v.value
  nonempty : (v.baseline.center == 0) = false → 0 < v.baseline.sampleSize
  -- The sum of the two values in the middle may be too great for a median.
  moved : (v.baseline.center == 0) = false →
    (v.baseline.statistic = .median → v.baseline.center.isFinite = true) →
      Follows v.deltaRatio v.baseline.center v.value ∧
      Follows v.deltaPercent v.baseline.center v.value ∧
      v.change.toList.head? = some (if v.baseline.center < v.value then '+' else '-')

section Flagged

variable {s : Settings} {candidate : Measurement} {b : Baseline} {threshold : Float}

theorem Follows.head_signed {change center value : Float} (h : Follows change center value)
    (hmoved : center < value ∨ value < center) (places : Nat) (unit : String) :
    (fixed places true change ++ unit).toList.head? =
      some (if center < value then '+' else '-') := by
  have hnan : change.isNaN = false := by
    rcases hmoved with hup | hdown
    · exact (lt_iff.1 (h.positive.2 hup)).1.2
    · exact (lt_iff.1 (h.negative.2 hdown)).1.1
  have hsign := isNegative_iff hnan h.ne_zero
  rw [Analysis.head_signed hnan]
  rcases hmoved with hup | hdown
  · have hnot : ¬isNegative change = true := fun hneg =>
      not_lt_of_lt hup (h.negative.1 (hsign.1 hneg))
    rw [if_pos hup, if_neg hnot]
  · rw [if_neg (not_lt_of_lt hdown), if_pos (hsign.2 (h.negative.2 hdown))]

theorem backed_verdictOn (hcenter : b.Centered) (hempty : b.sampleSize = 0 → b.center = 0)
    (hvalue : Measured candidate.value) (ht : Measured threshold)
    (hflag : (verdictOn s candidate b threshold).classification ≠ .stable) :
    (verdictOn s candidate b threshold).Backed s.minHistory := by
  have hflag : (if b.sampleSize < s.minHistory then Classification.stable
      else .ofValue candidate.unit.direction b.center threshold candidate.value) ≠ .stable := hflag
  have hlong : ¬b.sampleSize < s.minHistory := fun hshort => hflag (if_pos hshort)
  rw [if_neg hlong] at hflag
  refine ⟨Nat.not_lt.1 hlong, fun hzero => ?_, fun hne => ?_, fun hne hfinite => ?_⟩
  · have hzero : (b.center == 0) = true := hzero
    have hposition : position b.center = 0 := (beq_iff.1 hzero).2.trans (by decide)
    have hmeasured : Measured b.center := by
      rw [measured_iff, isFinite_iff, ← natAbs_position, hposition]
      decide
    refine ⟨if_pos hzero, (moved_of_flagged hmeasured ht hflag).resolve_right fun hlt => ?_⟩
    have hlt := (lt_iff.1 hlt).2
    have hnonneg := hvalue.nonneg
    omega
  · refine Nat.pos_of_ne_zero fun hsize => ?_
    have hne : (b.center == 0) = false := hne
    rw [hempty hsize] at hne
    contradiction
  · have hmeasured : Measured b.center := by
      refine measured_iff.2 ⟨?_, hcenter.nonneg⟩
      cases hstatistic : b.statistic with
      | mean => exact hcenter.finite hstatistic
      | median => exact hfinite hstatistic
    have hmoved := moved_of_flagged hmeasured ht hflag
    obtain ⟨hratio, hpercent⟩ := follows_deltaRatio hmeasured hvalue hne hmoved
    exact ⟨hratio, hpercent, hpercent.head_signed hmoved 2 "%"⟩

end Flagged

/-- A measurement of a reachable ledger that is flagged is backed by its baseline. -/
theorem backed_of_flagged {kind : Ledger.Kind} {l : Ledger} (h : Ledger.Reachable kind l)
    (s : Settings) {key : SeriesKey} {series : Series} (hs : l.series key = .ok series)
    {commitId : String} {v : Verdict} (hv : assess s series commitId = .ok v)
    (hflag : v.classification ≠ .stable) : v.Backed s.minHistory := by
  obtain ⟨log, hlog⟩ := h.exists_log
  have hvalues : ∀ m ∈ series.records, Measured m.value := by
    intro m hm
    obtain ⟨m', hm', -, rfl⟩ := (hlog.holds.mem_series_iff hs).1 hm
    exact (Ledger.Kind.valid_keep (hlog.holds.valid m' hm')).measured
  obtain ⟨candidate, hmem, index, b, -, hb, heval⟩ := exists_evaluate_of_assess hv
  obtain ⟨⟨hfinite, hnonneg⟩, -, rfl⟩ := evaluate_eq_ok.1 heval
  have hwindow : ∀ m ∈ series.windowBefore index (Policy.resolve s series.key).windowSize,
      Measured m.value :=
    fun m hm => hvalues m (List.mem_of_mem_take (List.mem_of_mem_drop hm))
  exact backed_verdictOn (Baseline.centered_of_ofRecords hwindow hb)
    (Baseline.center_of_sampleSize_eq_zero hb) (hvalues candidate hmem) ⟨hfinite, hnonneg⟩ hflag

-- The second of two records is twice the first.
theorem backed_of_flagged_twice :
    let twice := { Ledger.recordAt "c2" with value := 2 }
    let l := (Ledger.Kind.resident.empty.after (.appendRecord (Ledger.recordAt "c1"))).after
      (.appendRecord twice)
    ∃ series v, l.series ⟨"cargo", "x"⟩ = .ok series ∧
      assess { minHistory := 1 } series "c2" = .ok v ∧ v.classification = .regressed ∧
      v.Backed 1 := by
  intro twice l
  have hl : l = .resident { records := [Ledger.recordAt "c1", twice]
                            commits := [("cargo", "c1"), ("cargo", "c2")] } := by
    decide +kernel
  have hempty : Ledger.Reachable .resident Ledger.Kind.resident.empty := .empty
  have hreachable : Ledger.Reachable .resident l := (hempty.call _).call _
  have hseries : l.series ⟨"cargo", "x"⟩ =
      .ok (.ofRecords ⟨"cargo", "x"⟩ [Ledger.recordAt "c1", twice]) := by
    rw [hl]
    rfl
  let v := verdictOn { minHistory := 1 } twice
    (.ofValues .mean (some .nanosecondsPerIteration) [1]) 0.2
  have hv : assess { minHistory := 1 }
      (.ofRecords ⟨"cargo", "x"⟩ [Ledger.recordAt "c1", twice]) "c2" = .ok v := by
    decide +kernel
  have hflag : v.classification = .regressed := by decide +kernel
  exact ⟨_, v, hseries, hv, hflag,
    backed_of_flagged hreachable _ hseries hv (by rw [hflag]; decide)⟩

/-- Where no history is asked for, the first record is flagged, against no records and with no
change. -/
theorem flagged_without_history :
    let l := Ledger.Kind.resident.empty.after (.appendRecord (Ledger.recordAt "c1"))
    Ledger.Reachable .resident l ∧ ∃ series v, l.series ⟨"cargo", "x"⟩ = .ok series ∧
      assess { minHistory := 0 } series "c1" = .ok v ∧ v.classification = .regressed ∧
      v.baseline.sampleSize = 0 ∧ v.baseline.center < v.value ∧ v.deltaRatio = 0 := by
  intro l
  have hl : l = .resident { records := [Ledger.recordAt "c1"], commits := [("cargo", "c1")] } := by
    decide +kernel
  have hempty : Ledger.Reachable .resident Ledger.Kind.resident.empty := .empty
  refine ⟨hempty.call _, .ofRecords ⟨"cargo", "x"⟩ [Ledger.recordAt "c1"],
    verdictOn { minHistory := 0 } (Ledger.recordAt "c1") (.ofValues .mean none []) 0.2,
    by rw [hl]; rfl, rfl, ?_, rfl, ?_, ?_⟩
  · decide +kernel
  · decide +kernel
  · decide +kernel

end BenchLedger.Analysis
