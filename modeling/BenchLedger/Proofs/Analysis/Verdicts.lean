import BenchLedger.Analysis.Assessment
import BenchLedger.Proofs.Fallible

/-!
# What a verdict says

A measurement is judged if the tolerated ratio is a finite number that is not negative and the
baseline has its unit.  The verdict names the measurement that it is on, and it flags nothing if the
baseline was too short.
-/

namespace BenchLedger.Analysis

/-- The verdict on a measurement that can be judged. -/
def verdictOn (s : Settings) (candidate : Measurement) (b : Baseline) (threshold : Float) :
    Verdict where
  tool := candidate.tool
  benchmark := candidate.name
  commitId := candidate.commit.id
  value := candidate.value
  unit := candidate.unit
  classification :=
    if b.sampleSize < (Policy.resolve s candidate.key).minHistory then .stable
    else .ofValue candidate.unit.direction b.center threshold candidate.value
  deltaRatio := deltaRatio candidate.value b.center
  thresholdRatio := threshold
  insufficientHistory := b.sampleSize < (Policy.resolve s candidate.key).minHistory
  zScore := zScore? candidate.value b
  pValue := (zScore? candidate.value b).map fun z => upperTail z.abs
  baseline := b

variable {settings : Settings} {v : Verdict}

theorem evaluate_eq_ok {candidate : Measurement} {b : Baseline} {threshold : Float} :
    evaluate settings candidate b threshold = .ok v ↔
      (threshold.isFinite = true ∧ ¬threshold < 0) ∧ (∀ unit ∈ b.unit, unit = candidate.unit) ∧
        verdictOn settings candidate b threshold = v := by
  have hcheck : (!threshold.isFinite || decide (threshold < 0)) = true ↔
      ¬(threshold.isFinite = true ∧ ¬threshold < 0) := by
    rw [not_and_or, not_not, Bool.or_eq_true, Bool.not_eq_true', decide_eq_true_eq,
      Bool.not_eq_true]
  unfold evaluate
  rw [Fallible.check_eq_ok, hcheck, not_not]
  refine and_congr_right fun _ => ?_
  cases hunit : b.unit with
  | none =>
    show Except.ok (verdictOn settings candidate b threshold) = .ok v ↔ _
    simp
  | some unit =>
    show (if unit ≠ candidate.unit then _ else _) = _ ↔ _
    rw [Fallible.check_eq_ok]
    show _ ∧ Except.ok (verdictOn settings candidate b threshold) = .ok v ↔ _
    simp

/-- The verdict is on the record of that commit in that series. -/
structure Verdict.About (v : Verdict) (key : SeriesKey) (commitId : String) : Prop where
  tool : v.tool = key.tool
  benchmark : v.benchmark = key.name
  commitId : v.commitId = commitId
  stable : v.insufficientHistory = true → v.classification = .stable

theorem Verdict.About.not_insufficient {key : SeriesKey} {commitId : String}
    (h : v.About key commitId) (hregressed : v.isRegressed = true) :
    v.insufficientHistory = false := by
  by_contra hinsufficient
  have hstable := h.stable (by simpa using hinsufficient)
  rw [Verdict.isRegressed, hstable] at hregressed
  exact absurd hregressed (by decide)

theorem verdictOn_about (s : Settings) (candidate : Measurement) (b : Baseline)
    (threshold : Float) :
    (verdictOn s candidate b threshold).About candidate.key candidate.commit.id where
  tool := rfl
  benchmark := rfl
  commitId := rfl
  stable h := if_pos (of_decide_eq_true h)

-- A commit is judged by one of its records and the window before it.
theorem exists_evaluate_of_assess {series : Series} {commitId : String}
    (h : assess settings series commitId = .ok v) :
    ∃ candidate ∈ series.records, ∃ index b, candidate.commit.id = commitId ∧
      baselineAt settings series index (Policy.resolve settings series.key).windowSize = .ok b ∧
      evaluate settings candidate b (Policy.resolve settings series.key).thresholdRatio =
        .ok v := by
  unfold assess at h
  cases hposition : series.position? commitId with
  | none =>
    rw [hposition] at h
    exact absurd h Fallible.error_ne_ok
  | some index =>
    obtain ⟨hlt, hid, -⟩ := List.findIdx?_eq_some_iff_getElem.1 hposition
    simp only [hposition, List.getElem?_eq_getElem hlt] at h
    obtain ⟨b, hb, h⟩ := Fallible.bind_eq_ok.1 h
    exact ⟨series.records[index], List.getElem_mem hlt, index, b, eq_of_beq hid, hb, h⟩

/-- The verdict on a commit of a series is one on a record of that commit. -/
theorem exists_about_of_assess {series : Series} {commitId : String}
    (h : assess settings series commitId = .ok v) :
    ∃ candidate ∈ series.records, candidate.commit.id = commitId ∧
      v.About candidate.key commitId := by
  obtain ⟨candidate, hmem, _, b, rfl, -, h⟩ := exists_evaluate_of_assess h
  obtain ⟨-, -, rfl⟩ := evaluate_eq_ok.1 h
  exact ⟨candidate, hmem, rfl, verdictOn_about _ _ _ _⟩

end BenchLedger.Analysis
