import BenchLedger.Proofs.Analysis.Centers
import BenchLedger.Proofs.Ingest.Judgements

/-!
# Laws of the classes

A value is classified by the two bounds around the center, of which the lower one is never above the
upper one.  So the class follows the value, the direction turns it around, and a wider tolerance
can only make it stable.
-/

namespace BenchLedger.Analysis

open Decimal

namespace Classification

/-- The order of the classes, the best one first. -/
def severity : Classification → Nat
  | improved => 0
  | stable => 1
  | regressed => 2

def opposite : Classification → Classification
  | improved => regressed
  | stable => stable
  | regressed => improved

section Bounds

variable {center threshold threshold' value : Float}

theorem position_one_sub_le_one_add (ht : Measured threshold) :
    position (1 - threshold) ≤ position (1 + threshold) := by
  have hnonneg := ht.value_nonneg
  rw [position_sub (by decide) ht.finite, position_add (by decide) ht.finite]
  exact nearestPosition_mono (by linarith)

theorem position_one_sub_le (ht : Measured threshold) (hle : threshold ≤ threshold')
    (ht' : Measured threshold') : position (1 - threshold') ≤ position (1 - threshold) := by
  have hvalue := (value_le_value_iff ht.isNaN ht'.isNaN).2 (le_iff.1 hle).2
  rw [position_sub (by decide) ht.finite, position_sub (by decide) ht'.finite]
  exact nearestPosition_mono (by linarith)

theorem position_one_add_le (ht : Measured threshold) (hle : threshold ≤ threshold')
    (ht' : Measured threshold') : position (1 + threshold) ≤ position (1 + threshold') := by
  have hvalue := (value_le_value_iff ht.isNaN ht'.isNaN).2 (le_iff.1 hle).2
  rw [position_add (by decide) ht.finite, position_add (by decide) ht'.finite]
  exact nearestPosition_mono (by linarith)

variable (hcenter : 0 ≤ position center) (ht : Measured threshold)

include hcenter ht

-- What is below the lower bound is below the upper one.
theorem below_upper (h : value < center * (1 - threshold)) : value < center * (1 + threshold) :=
  lt_mul_of_lt_mul hcenter (isFinite_one_sub ht.finite ht.nonneg)
    (isFinite_one_add ht.finite ht.nonneg) (position_one_sub_le_one_add ht) h

theorem above_lower (h : center * (1 + threshold) < value) : center * (1 - threshold) < value :=
  mul_lt_of_mul_lt hcenter (isFinite_one_sub ht.finite ht.nonneg)
    (isFinite_one_add ht.finite ht.nonneg) (position_one_sub_le_one_add ht) h

theorem not_below_of_above (h : center * (1 + threshold) < value) :
    ¬value < center * (1 - threshold) :=
  fun hbelow => not_lt_of_lt h (below_upper hcenter ht hbelow)

theorem below_of_wider (ht' : Measured threshold') (hle : threshold ≤ threshold')
    (h : value < center * (1 - threshold')) : value < center * (1 - threshold) :=
  lt_mul_of_lt_mul hcenter (isFinite_one_sub ht'.finite ht'.nonneg)
    (isFinite_one_sub ht.finite ht.nonneg) (position_one_sub_le ht hle ht') h

theorem above_of_wider (ht' : Measured threshold') (hle : threshold ≤ threshold')
    (h : center * (1 + threshold') < value) : center * (1 + threshold) < value :=
  mul_lt_of_mul_lt hcenter (isFinite_one_add ht.finite ht.nonneg)
    (isFinite_one_add ht'.finite ht'.nonneg) (position_one_add_le ht hle ht') h

end Bounds

/-- The class of what is above the upper bound. -/
def ofAbove : Direction → Classification
  | .lowerIsBetter => regressed
  | .higherIsBetter => improved

section Cases

variable {direction direction' : Direction} {center threshold threshold' value value' : Float}

theorem ofValue_within (habove : ¬center * (1 + threshold) < value)
    (hbelow : ¬value < center * (1 - threshold)) :
    ofValue direction center threshold value = stable := by
  unfold ofValue
  cases direction with
  | lowerIsBetter => exact (if_neg habove).trans (if_neg hbelow)
  | higherIsBetter => exact (if_neg hbelow).trans (if_neg habove)

variable (hcenter : 0 ≤ position center) (ht : Measured threshold)

include hcenter ht

theorem ofValue_above (h : center * (1 + threshold) < value) :
    ofValue direction center threshold value = ofAbove direction := by
  unfold ofValue
  cases direction with
  | lowerIsBetter => exact if_pos h
  | higherIsBetter => exact (if_neg (not_below_of_above hcenter ht h)).trans (if_pos h)

theorem ofValue_below (h : value < center * (1 - threshold)) :
    ofValue direction center threshold value = (ofAbove direction).opposite := by
  unfold ofValue
  cases direction with
  | lowerIsBetter =>
    have habove (h' : center * (1 + threshold) < value) := not_below_of_above hcenter ht h' h
    exact (if_neg habove).trans (if_pos h)
  | higherIsBetter => exact if_pos h

/-- The same comparison in the other direction. -/
theorem ofValue_opposite (h : direction' ≠ direction) :
    ofValue direction' center threshold value =
      (ofValue direction center threshold value).opposite := by
  have hturn : ofAbove direction' = (ofAbove direction).opposite := by
    cases direction <;> cases direction' <;> first | rfl | contradiction
  by_cases habove : center * (1 + threshold) < value
  · rw [ofValue_above hcenter ht habove, ofValue_above hcenter ht habove, hturn]
  by_cases hbelow : value < center * (1 - threshold)
  · rw [ofValue_below hcenter ht hbelow, ofValue_below hcenter ht hbelow, hturn]
  rw [ofValue_within habove hbelow, ofValue_within habove hbelow]
  rfl

/-- Where less is better, a greater value has no better class. -/
theorem severity_mono (hle : value ≤ value') :
    (ofValue .lowerIsBetter center threshold value).severity ≤
      (ofValue .lowerIsBetter center threshold value').severity := by
  by_cases habove : center * (1 + threshold) < value
  · rw [ofValue_above hcenter ht habove, ofValue_above hcenter ht (lt_le_trans habove hle)]
  by_cases hbelow : value < center * (1 - threshold)
  · rw [ofValue_below hcenter ht hbelow]
    exact Nat.zero_le _
  rw [ofValue_within habove hbelow]
  by_cases habove' : center * (1 + threshold) < value'
  · rw [ofValue_above hcenter ht habove']
    decide
  · rw [ofValue_within habove' fun hbelow' => hbelow (le_lt_trans hle hbelow')]

/-- Where more is better, a greater value has no worse class. -/
theorem severity_anti (hle : value ≤ value') :
    (ofValue .higherIsBetter center threshold value').severity ≤
      (ofValue .higherIsBetter center threshold value).severity := by
  have hreverse (c c' : Classification) (h : c.severity ≤ c'.severity) :
      c'.opposite.severity ≤ c.opposite.severity := by
    revert h
    cases c <;> cases c' <;> decide
  have hturn : Direction.higherIsBetter ≠ .lowerIsBetter := by decide
  rw [ofValue_opposite hcenter ht hturn, ofValue_opposite hcenter ht hturn]
  exact hreverse _ _ (severity_mono hcenter ht hle)

/-- A wider tolerance keeps the class or makes it stable. -/
theorem ofValue_widen (ht' : Measured threshold') (hle : threshold ≤ threshold') :
    ofValue direction center threshold' value = ofValue direction center threshold value ∨
      ofValue direction center threshold' value = stable := by
  by_cases habove : center * (1 + threshold') < value
  · rw [ofValue_above hcenter ht' habove,
      ofValue_above hcenter ht (above_of_wider hcenter ht ht' hle habove)]
    exact .inl rfl
  by_cases hbelow : value < center * (1 - threshold')
  · rw [ofValue_below hcenter ht' hbelow,
      ofValue_below hcenter ht (below_of_wider hcenter ht ht' hle hbelow)]
    exact .inl rfl
  exact .inr (ofValue_within habove hbelow)

/-- A value on a bound is stable. -/
theorem ofValue_onBound (h : (value == center * (1 + threshold)) = true ∨
    (value == center * (1 - threshold)) = true) :
    ofValue direction center threshold value = stable := by
  rcases h with hupper | hlower
  · obtain ⟨hbelow, habove⟩ := not_lt_of_beq hupper
    exact ofValue_within habove fun h => hbelow (below_upper hcenter ht h)
  · obtain ⟨hbelow, habove⟩ := not_lt_of_beq hlower
    exact ofValue_within (fun h => habove (above_lower hcenter ht h)) hbelow

end Cases

end Classification

/-- The class in the verdict on a measurement. -/
def classify (s : Settings) (m : Measurement) (b : Baseline) (threshold : Float) :
    Except AnalysisError Classification :=
  (evaluate s m b threshold).map (·.classification)

/-- `classOf` gives the class of each value that the candidate may have, all else being fixed.  It
follows the value, it is turned around where the same numbers are judged in the other direction, a
wider tolerance changes it only to stable, and it is stable on the bounds. -/
structure FollowsLaws (s : Settings) (statistic : Statistic) (window : List Measurement)
    (b : Baseline) (candidate : Measurement) (threshold : Float)
    (classOf : Float → Classification) : Prop where
  judged : ∀ value, classify s { candidate with value } b threshold = .ok (classOf value)
  monotone : candidate.unit.direction = .lowerIsBetter → ∀ value value', value ≤ value' →
    (classOf value).severity ≤ (classOf value').severity
  antitone : candidate.unit.direction = .higherIsBetter → ∀ value value', value ≤ value' →
    (classOf value').severity ≤ (classOf value).severity
  opposite : ∀ unit : MeasureUnit, unit.direction ≠ candidate.unit.direction →
    ∃ b', Baseline.ofRecords statistic (window.map fun m => { m with unit }) = .ok b' ∧
      ∀ value, classify s { candidate with value, unit } b' threshold =
        .ok (classOf value).opposite
  wider : ∀ threshold' : Float, threshold'.isFinite = true → threshold ≤ threshold' → ∀ value,
    classify s { candidate with value } b threshold' = .ok (classOf value) ∨
      classify s { candidate with value } b threshold' = .ok .stable
  onBound : ∀ value, (value == b.center * (1 + threshold)) = true ∨
    (value == b.center * (1 - threshold)) = true → classOf value = .stable

section Laws

variable {s : Settings} {statistic : Statistic} {window : List Measurement} {b : Baseline}
  {candidate : Measurement} {threshold : Float}

/-- The class of a value against a baseline. -/
def classOf (s : Settings) (key : SeriesKey) (b : Baseline) (direction : Direction)
    (threshold value : Float) : Classification :=
  if b.sampleSize < (Policy.resolve s key).minHistory then .stable
  else .ofValue direction b.center threshold value

theorem classify_eq (candidate : Measurement) (value : Float) {unit : MeasureUnit}
    (ht : Measured threshold) (hunit : ∀ u ∈ b.unit, u = unit) :
    classify s { candidate with value, unit } b threshold =
      .ok (classOf s candidate.key b unit.direction threshold value) := by
  have hjudged : evaluate s { candidate with value, unit } b threshold =
      .ok (verdictOn s { candidate with value, unit } b threshold) :=
    evaluate_eq_ok.2 ⟨⟨ht.finite, ht.not_negative⟩, hunit, rfl⟩
  rw [classify, hjudged]
  rfl

theorem Baseline.ofRecords_map_unit (hb : ofRecords statistic window = .ok b) (unit : MeasureUnit) :
    ∃ b', ofRecords statistic (window.map fun m => { m with unit }) = .ok b' ∧
      (∀ u ∈ b'.unit, u = unit) ∧ b'.center = b.center ∧ b'.sampleSize = b.sampleSize := by
  have hunits : ∀ m ∈ window.map fun m => { m with unit }, m.unit = unit :=
    List.forall_mem_map.2 fun _ _ => rfl
  obtain ⟨b', hb', -, hunit⟩ := ofRecords_of_unit hunits statistic
  have hvalues : (window.map fun m => { m with unit }).map (·.value) = window.map (·.value) :=
    List.map_map
  have heq := eq_ofValues hb'
  rw [hvalues] at heq
  refine ⟨b', hb', hunit, ?_, ?_⟩
  · rw [heq, eq_ofValues hb]
    rfl
  · rw [heq, eq_ofValues hb]
    rfl

/-- The classes of a baseline of valid records follow the laws of a comparison with its center. -/
theorem exists_followsLaws (hb : Baseline.ofRecords statistic window = .ok b)
    (hvalues : ∀ m ∈ window, Measured m.value) (hunit : ∀ unit ∈ b.unit, unit = candidate.unit)
    (ht : Measured threshold) :
    ∃ classOf, FollowsLaws s statistic window b candidate threshold classOf := by
  have hcenter := (Baseline.centered_of_ofRecords hvalues hb).nonneg
  refine ⟨classOf s candidate.key b candidate.unit.direction threshold,
    fun value => classify_eq candidate value ht hunit, ?_, ?_, ?_, ?_, ?_⟩
  · intro hdirection value value' hle
    rw [hdirection]
    unfold classOf
    split
    · exact Nat.le_refl _
    · exact Classification.severity_mono hcenter ht hle
  · intro hdirection value value' hle
    rw [hdirection]
    unfold classOf
    split
    · exact Nat.le_refl _
    · exact Classification.severity_anti hcenter ht hle
  · intro unit hturned
    obtain ⟨b', hb', hunits, hsame, hsize⟩ := Baseline.ofRecords_map_unit hb unit
    refine ⟨b', hb', fun value => ?_⟩
    rw [classify_eq candidate value ht hunits]
    unfold classOf
    rw [hsame, hsize]
    split
    · rfl
    · rw [Classification.ofValue_opposite hcenter ht hturned]
  · intro threshold' hfinite hle value
    have ht' : Measured threshold' :=
      measured_iff.2 ⟨hfinite, ht.nonneg.trans (le_iff.1 hle).2⟩
    rw [classify_eq candidate value ht' hunit]
    unfold classOf
    split
    · exact .inl rfl
    · exact (Classification.ofValue_widen hcenter ht ht' hle).imp (congrArg _) (congrArg _)
  · intro value hvalue
    unfold classOf
    split
    · rfl
    · exact Classification.ofValue_onBound hcenter ht hvalue

-- A window of one record of 100, and a tolerance of a half.
theorem exists_followsLaws_oneRecord :
    let window := [{ Ledger.recordAt "c1" with value := 100 }]
    ∃ classOf, FollowsLaws { minHistory := 1 } .mean window
      (.ofValues .mean (some .nanosecondsPerIteration) [100]) (Ledger.recordAt "c2") 0.5 classOf :=
  exists_followsLaws rfl (List.forall_mem_singleton.2 ⟨by decide, by decide⟩) (by decide)
    ⟨by decide, by decide⟩

end Laws

end BenchLedger.Analysis
