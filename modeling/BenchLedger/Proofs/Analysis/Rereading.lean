import BenchLedger.Proofs.Analysis.Verdicts
import BenchLedger.Proofs.Json.Numbers
import BenchLedger.Proofs.Json.Records
import BenchLedger.Proofs.Text.UnitSpellings

/-!
# Reading written verdicts

A number that is not finite is written as `null`, which is no number when it is read, and a finite
number may be read as another.  A verdict reads back from its JSON just when all its numbers do.
-/

namespace BenchLedger

namespace Json

variable {α : Type} {decode : Json → Except Failure α}

-- A value that may be missing, and is not written as missing, is the value of its JSON.
theorem asOption_of_ne_null {j : Json} {a : α} (hne : j ≠ .null) (h : decode j = .ok a) :
    j.asOption decode = .ok (some a) := by
  rw [asOption]
  · rw [h]
    rfl
  · exact hne

theorem exists_of_mem_asOption {j : Json} {o : Option α} {a : α} (h : j.asOption decode = .ok o)
    (ha : a ∈ o) : decode j = .ok a := by
  unfold asOption at h
  split at h
  · obtain rfl := Except.ok.inj h
    exact absurd ha (Option.not_mem_none a)
  · obtain ⟨b, hb, rfl⟩ := Fallible.map_eq_ok.1 h
    rwa [Option.mem_some_iff.1 ha] at hb

theorem asOption_ofFloat_iff {x : Float} :
    (ofFloat x).asOption asFloat = .ok (some x) ↔ ReadsBack x := by
  refine ⟨fun h => exists_of_mem_asOption h rfl, fun h => asOption_of_ne_null ?_ h⟩
  obtain ⟨lexeme, heq, -⟩ := ofFloat_eq_number h.isFinite
  rw [heq]
  exact Json.noConfusion

end Json

namespace Analysis

namespace Baseline

/-- The numbers that were computed for the baseline. -/
def numbers (b : Baseline) : List Float :=
  [b.mean, b.stdDev, b.median, b.mad]

theorem forall_mem_numbers {P : Float → Prop} {b : Baseline} :
    (∀ x ∈ b.numbers, P x) ↔ P b.mean ∧ P b.stdDev ∧ P b.median ∧ P b.mad := by
  simp [numbers]

/-- The size of the baseline has 64 bits, and some text writes its unit. -/
structure Ordinary (b : Baseline) : Prop where
  sampleSize : b.sampleSize < 0x10000000000000000
  unit : ∀ u ∈ b.unit, u.Written

theorem writable_toJson (b : Baseline) : b.toJson.Writable := by
  refine ⟨trivial, Json.writable_ofFloat _, Json.writable_ofFloat _, Json.writable_ofFloat _,
    Json.writable_ofFloat _, Json.writable_ofNat _, ?_, trivial⟩
  cases b.unit <;> trivial

theorem ofJson_toJson {b : Baseline} (hb : b.Ordinary) (h : ∀ x ∈ b.numbers, Json.ReadsBack x) :
    ofJson b.toJson = .ok b := by
  obtain ⟨hmean, hstdDev, hmedian, hmad⟩ := forall_mem_numbers.1 h
  obtain ⟨statistic, mean, stdDev, median, mad, sampleSize, unit⟩ := b
  have hstatistic : (Json.string statistic.name).asName Statistic.names = .ok statistic := by
    cases statistic <;> rfl
  have hunit : ((unit.map (Json.string ·.text)).getD .null).asOption MeasureUnit.ofJson =
      .ok unit := by
    cases unit with
    | none => rfl
    | some u =>
      exact Json.asOption_of_ne_null Json.noConfusion (MeasureUnit.ofJson_text (hb.unit u rfl))
  show shape.decodeMembers default [] [("statistic", .string statistic.name),
    ("mean", .ofFloat mean), ("std_dev", .ofFloat stdDev), ("median", .ofFloat median),
    ("mad", .ofFloat mad), ("sample_size", .ofNat sampleSize),
    ("unit", (unit.map (Json.string ·.text)).getD .null)] = _
  rw [Json.Shape.decodeMembers_field (by decide) (by decide)
      (Json.Shape.set_of_decode hstatistic fun _ => rfl),
    Json.Shape.decodeMembers_field (by decide) (by decide)
      (Json.Shape.set_of_decode hmean fun _ => rfl),
    Json.Shape.decodeMembers_field (by decide) (by decide)
      (Json.Shape.set_of_decode hstdDev fun _ => rfl),
    Json.Shape.decodeMembers_field (by decide) (by decide)
      (Json.Shape.set_of_decode hmedian fun _ => rfl),
    Json.Shape.decodeMembers_field (by decide) (by decide)
      (Json.Shape.set_of_decode hmad fun _ => rfl),
    Json.Shape.decodeMembers_field (by decide) (by decide)
      (Json.Shape.set_of_decode (Json.asNat_ofNat hb.sampleSize) fun _ => rfl),
    Json.Shape.decodeMembers_field (by decide) (by decide)
      (Json.Shape.set_of_decode hunit fun _ => rfl),
    Json.Shape.decodeMembers_nil (by decide)]

-- Each number is left as it is by all fields but its own.
theorem numbers_of_set {name : String} {j : Json} {b after : Baseline}
    (h : shape.set name j b = .ok after) :
    (name ≠ "mean" → after.mean = b.mean) ∧ (name ≠ "std_dev" → after.stdDev = b.stdDev) ∧
      (name ≠ "median" → after.median = b.median) ∧ (name ≠ "mad" → after.mad = b.mad) := by
  unfold shape at h
  dsimp only at h
  split at h
  case h_8 =>
    obtain rfl := Except.ok.inj h
    exact ⟨fun _ => rfl, fun _ => rfl, fun _ => rfl, fun _ => rfl⟩
  all_goals
    obtain ⟨_, -, h⟩ := Fallible.bind_eq_ok.1 h
    obtain rfl := Except.ok.inj h
    simp

/-- The JSON of a baseline is read as the baseline just when its numbers read back. -/
theorem ofJson_toJson_iff {b : Baseline} (hb : b.Ordinary) :
    ofJson b.toJson = .ok b ↔ ∀ x ∈ b.numbers, Json.ReadsBack x := by
  refine ⟨fun h => forall_mem_numbers.2 ⟨?_, ?_, ?_, ?_⟩, ofJson_toJson hb⟩
  · exact Json.Shape.decode_of_mem (by decide) (fun _ _ => rfl) (fun _ _ => rfl)
      (fun _ _ _ _ hne hset => (numbers_of_set hset).1 hne) h (by simp)
  · exact Json.Shape.decode_of_mem (by decide) (fun _ _ => rfl) (fun _ _ => rfl)
      (fun _ _ _ _ hne hset => (numbers_of_set hset).2.1 hne) h (by simp)
  · exact Json.Shape.decode_of_mem (by decide) (fun _ _ => rfl) (fun _ _ => rfl)
      (fun _ _ _ _ hne hset => (numbers_of_set hset).2.2.1 hne) h (by simp)
  · exact Json.Shape.decode_of_mem (by decide) (fun _ _ => rfl) (fun _ _ => rfl)
      (fun _ _ _ _ hne hset => (numbers_of_set hset).2.2.2 hne) h (by simp)

theorem isKeepable_toJson {b : Baseline} (hb : b.Ordinary) (h : ∀ x ∈ b.numbers, Json.ReadsBack x)
    (levels : ℕ) : b.toJson.isKeepable (levels + 1) = true := by
  have hnumbers := forall_mem_numbers.1 fun x hx => Json.isKeepable_ofFloat levels (h x hx)
  have hsize := Json.isKeepable_ofNat levels hb.sampleSize
  unfold toJson
  cases b.unit <;> simp [Json.isKeepable, Json.membersKeepable, hnumbers, hsize]

end Baseline

namespace Verdict

/-- The numbers of the verdict. -/
def numbers (v : Verdict) : List Float :=
  [v.value, v.deltaRatio, v.thresholdRatio] ++ v.zScore.toList ++ v.pValue.toList ++
    v.baseline.numbers

theorem forall_mem_numbers {P : Float → Prop} {v : Verdict} :
    (∀ x ∈ v.numbers, P x) ↔ P v.value ∧ P v.deltaRatio ∧ P v.thresholdRatio ∧
      (∀ z ∈ v.zScore, P z) ∧ (∀ p ∈ v.pValue, P p) ∧ ∀ x ∈ v.baseline.numbers, P x := by
  simp only [numbers, List.forall_mem_append, List.forall_mem_cons, Option.mem_toList,
    Option.mem_def, List.not_mem_nil, false_implies, implies_true, true_and, and_assoc]

/-- Some text writes the unit of the verdict, and its baseline is ordinary. -/
structure Ordinary (v : Verdict) : Prop where
  unit : v.unit.Written
  baseline : v.baseline.Ordinary

theorem writable_toJson (v : Verdict) : v.toJson.Writable := by
  have hfloat : ∀ x : Option Float, ∀ j ∈ x.map Json.ofFloat, j.Writable := by
    intro x j hj
    obtain ⟨y, -, rfl⟩ := Option.map_eq_some_iff.1 hj
    exact Json.writable_ofFloat y
  refine Json.writableMembers_append (Json.writableMembers_append (Json.writableMembers_append
    ?_ (Json.writableMembers_optional (hfloat v.zScore)))
      (Json.writableMembers_optional (hfloat v.pValue))) ⟨v.baseline.writable_toJson, trivial⟩
  exact ⟨trivial, trivial, trivial, Json.writable_ofFloat _, trivial, trivial,
    Json.writable_ofFloat _, Json.writable_ofFloat _, trivial, trivial⟩

theorem isKeepable_toJson {v : Verdict} (hv : v.Ordinary) (h : ∀ x ∈ v.numbers, Json.ReadsBack x)
    (levels : ℕ) : v.toJson.isKeepable (levels + 2) = true := by
  obtain ⟨hvalue, hdelta, hthreshold, hzScore, hpValue, -⟩ :=
    forall_mem_numbers.1 fun x hx => Json.isKeepable_ofFloat (levels + 1) (h x hx)
  have hscores : ∀ name (x : Option Float),
      (∀ y ∈ x, (Json.ofFloat y).isKeepable (levels + 1) = true) →
      Json.membersKeepable (levels + 1) (Json.optional name (x.map Json.ofFloat)) = true := by
    intro name x hx
    cases x with
    | none => rfl
    | some y => simp [Json.optional, Json.membersKeepable, hx y rfl]
  have hbaseline := Baseline.isKeepable_toJson hv.baseline
    (forall_mem_numbers.1 h).2.2.2.2.2 levels
  simp [toJson, Json.isKeepable, Json.membersKeepable, Json.membersKeepable_append, hvalue, hdelta,
    hthreshold, hscores _ _ hzScore, hscores _ _ hpValue, hbaseline]

/-- The verdict as far as it is read before its scores and its baseline. -/
def unscored (v : Verdict) : Verdict :=
  { v with zScore := none, pValue := none, baseline := default }

-- The two scores are either written as numbers or left out.
theorem setsOptional_zScore {v : Verdict} (h : ∀ z ∈ v.zScore, Json.ReadsBack z) :
    shape.SetsOptional "z_score" (v.zScore.map .ofFloat) v.unscored
      { v.unscored with zScore := v.zScore } := by
  cases hz : v.zScore with
  | none => rfl
  | some z =>
    show ((Json.ofFloat z).asOption Json.asFloat >>= fun z =>
      .ok { v.unscored with zScore := z }) = _
    rw [Json.asOption_ofFloat_iff.2 (h z hz), Fallible.ok_bind]

theorem setsOptional_pValue {v : Verdict} (h : ∀ p ∈ v.pValue, Json.ReadsBack p) :
    shape.SetsOptional "p_value" (v.pValue.map .ofFloat) { v.unscored with zScore := v.zScore }
      { v.unscored with zScore := v.zScore, pValue := v.pValue } := by
  cases hp : v.pValue with
  | none => rfl
  | some p =>
    show ((Json.ofFloat p).asOption Json.asFloat >>= fun p =>
      .ok { v.unscored with zScore := v.zScore, pValue := p }) = _
    rw [Json.asOption_ofFloat_iff.2 (h p hp), Fallible.ok_bind]

-- The fields before the scores, the last first.
def firstFields : List String :=
  ["insufficient_history", "threshold_ratio", "delta_ratio", "classification", "unit", "value",
    "commit_id", "benchmark", "tool"]

theorem classification_asName (c : Classification) :
    (Json.string c.name).asName Classification.names = .ok c := by
  cases c <;> rfl

-- The scores and the baseline are all that is left to read.
theorem ofJson_toJson_eq {v : Verdict} (hv : v.Ordinary) (hvalue : Json.ReadsBack v.value)
    (hdelta : Json.ReadsBack v.deltaRatio) (hthreshold : Json.ReadsBack v.thresholdRatio) :
    ofJson v.toJson = shape.decodeMembers v.unscored firstFields
      (Json.optional "z_score" (v.zScore.map .ofFloat) ++
        Json.optional "p_value" (v.pValue.map .ofFloat) ++ [("baseline", v.baseline.toJson)]) := by
  show shape.decodeMembers default [] (("tool", .string v.tool) ::
    ("benchmark", .string v.benchmark) :: ("commit_id", .string v.commitId) ::
    ("value", .ofFloat v.value) :: ("unit", .string v.unit.text) ::
    ("classification", .string v.classification.name) :: ("delta_ratio", .ofFloat v.deltaRatio) ::
    ("threshold_ratio", .ofFloat v.thresholdRatio) ::
    ("insufficient_history", .bool v.insufficientHistory) :: (_ ++ _)) = _
  rw [Json.Shape.decodeMembers_field (by decide) (by decide) rfl,
    Json.Shape.decodeMembers_field (by decide) (by decide) rfl,
    Json.Shape.decodeMembers_field (by decide) (by decide) rfl,
    Json.Shape.decodeMembers_field (by decide) (by decide)
      (Json.Shape.set_of_decode hvalue fun _ => rfl),
    Json.Shape.decodeMembers_field (by decide) (by decide)
      (Json.Shape.set_of_decode (MeasureUnit.ofJson_text hv.unit) fun _ => rfl),
    Json.Shape.decodeMembers_field (by decide) (by decide)
      (Json.Shape.set_of_decode (classification_asName v.classification) fun _ => rfl),
    Json.Shape.decodeMembers_field (by decide) (by decide)
      (Json.Shape.set_of_decode hdelta fun _ => rfl),
    Json.Shape.decodeMembers_field (by decide) (by decide)
      (Json.Shape.set_of_decode hthreshold fun _ => rfl),
    Json.Shape.decodeMembers_field (by decide) (by decide) rfl]
  rfl

theorem ofJson_toJson {v : Verdict} (hv : v.Ordinary) (h : ∀ x ∈ v.numbers, Json.ReadsBack x) :
    ofJson v.toJson = .ok v := by
  obtain ⟨hvalue, hdelta, hthreshold, hzScore, hpValue, hbaseline⟩ := forall_mem_numbers.1 h
  have hbaseline := Baseline.ofJson_toJson hv.baseline hbaseline
  obtain ⟨added, hadded, hscores⟩ := Json.Shape.decodeMembers_optionals _
    [("baseline", v.baseline.toJson)]
    (by decide : "z_score" ∈ shape.fields ∧ "z_score" ∉ firstFields) (by decide) (by decide)
    (setsOptional_zScore hzScore) (setsOptional_pValue hpValue)
  have hnew : "baseline" ∉ added ++ firstFields := by
    rw [List.mem_append]
    rintro (hmem | hmem)
    · exact absurd (hadded hmem) (by decide)
    · exact absurd hmem (by decide)
  have hseen : ∀ name ∈ shape.required, name ∈ "baseline" :: (added ++ firstFields) := by
    have hall : shape.required ⊆ "baseline" :: firstFields := by decide
    exact fun name hname => List.cons_subset_cons _ (List.subset_append_right _ _) (hall hname)
  rw [ofJson_toJson_eq hv hvalue hdelta hthreshold, hscores,
    Json.Shape.decodeMembers_field (by decide) hnew
      (Json.Shape.set_of_decode hbaseline fun _ => rfl), Json.Shape.decodeMembers_nil hseen]
  rfl

-- Each number, and the baseline, is left as it is by all fields but its own.
theorem numbers_of_set {name : String} {j : Json} {v after : Verdict}
    (h : shape.set name j v = .ok after) :
    (name ≠ "value" → after.value = v.value) ∧
      (name ≠ "delta_ratio" → after.deltaRatio = v.deltaRatio) ∧
      (name ≠ "threshold_ratio" → after.thresholdRatio = v.thresholdRatio) ∧
      (name ≠ "z_score" → after.zScore = v.zScore) ∧
      (name ≠ "p_value" → after.pValue = v.pValue) ∧
      (name ≠ "baseline" → after.baseline = v.baseline) := by
  unfold shape at h
  dsimp only at h
  split at h
  case h_13 =>
    obtain rfl := Except.ok.inj h
    simp
  all_goals
    obtain ⟨_, -, h⟩ := Fallible.bind_eq_ok.1 h
    obtain rfl := Except.ok.inj h
    simp

/-- The JSON of a verdict is read as the verdict just when its numbers read back. -/
theorem ofJson_toJson_iff {v : Verdict} (hv : v.Ordinary) :
    ofJson v.toJson = .ok v ↔ ∀ x ∈ v.numbers, Json.ReadsBack x := by
  refine ⟨fun h => forall_mem_numbers.2 ⟨?_, ?_, ?_, ?_, ?_, ?_⟩, ofJson_toJson hv⟩
  · exact Json.Shape.decode_of_mem (by decide) (fun _ _ => rfl) (fun _ _ => rfl)
      (fun _ _ _ _ hne hset => (numbers_of_set hset).1 hne) h (by simp)
  · exact Json.Shape.decode_of_mem (by decide) (fun _ _ => rfl) (fun _ _ => rfl)
      (fun _ _ _ _ hne hset => (numbers_of_set hset).2.1 hne) h (by simp)
  · exact Json.Shape.decode_of_mem (by decide) (fun _ _ => rfl) (fun _ _ => rfl)
      (fun _ _ _ _ hne hset => (numbers_of_set hset).2.2.1 hne) h (by simp)
  · intro z hz
    refine Json.exists_of_mem_asOption ?_ hz
    exact Json.Shape.decode_of_mem (by decide) (fun _ _ => rfl) (fun _ _ => rfl)
      (fun _ _ _ _ hne hset => (numbers_of_set hset).2.2.2.1 hne) h
      (by simp [Json.optional, Option.mem_def.1 hz])
  · intro p hp
    refine Json.exists_of_mem_asOption ?_ hp
    exact Json.Shape.decode_of_mem (by decide) (fun _ _ => rfl) (fun _ _ => rfl)
      (fun _ _ _ _ hne hset => (numbers_of_set hset).2.2.2.2.1 hne) h
      (by simp [Json.optional, Option.mem_def.1 hp])
  · have hbaseline : Baseline.ofJson v.baseline.toJson = .ok v.baseline :=
      Json.Shape.decode_of_mem (by decide) (fun _ _ => rfl) (fun _ _ => rfl)
        (fun _ _ _ _ hne hset => (numbers_of_set hset).2.2.2.2.2 hne) h (by simp)
    exact (Baseline.ofJson_toJson_iff hv.baseline).1 hbaseline

end Verdict

/-- The sizes of windows that the settings give have 64 bits. -/
structure Settings.Sized (s : Settings) : Prop where
  windowSize : s.windowSize < 0x10000000000000000
  overrides : ∀ o ∈ s.overrides, ∀ size ∈ o.2.windowSize, size < 0x10000000000000000

theorem Settings.Sized.windowSize_resolve {s : Settings} (h : s.Sized) (key : SeriesKey) :
    (Policy.resolve s key).windowSize < 0x10000000000000000 := by
  unfold Policy.resolve
  dsimp only
  cases hfound : (Policy.keys key).findSome? fun k => s.overrides.lookup k with
  | none => exact h.windowSize
  | some o =>
    obtain ⟨k, -, hlookup⟩ := List.exists_of_findSome?_eq_some hfound
    obtain ⟨before, after, hsplit, -⟩ := List.lookup_eq_some_iff.1 hlookup
    cases hsize : o.windowSize with
    | none => simpa [hsize] using h.windowSize
    | some size =>
      have hmem : (k, o) ∈ s.overrides := by simp [hsplit]
      simpa [hsize] using h.overrides (k, o) hmem size hsize

-- A baseline has no more records than its window.
theorem sampleSize_baselineAt {s : Settings} {series : Series} {index window : Nat} {b : Baseline}
    (h : baselineAt s series index window = .ok b) : b.sampleSize ≤ window := by
  unfold baselineAt Baseline.ofRecords at h
  dsimp only at h
  split at h
  · exact absurd h Fallible.error_ne_ok
  · obtain rfl := Except.ok.inj h
    simp only [Baseline.ofValues, Series.windowBefore, List.length_map, List.length_drop,
      List.length_take]
    omega

/-- What is judged in a series of written units has an ordinary verdict. -/
theorem Verdict.ordinary_of_assess {settings : Settings} (hsized : settings.Sized)
    {series : Series} (hunits : ∀ m ∈ series.records, m.unit.Written) {commitId : String}
    {v : Verdict} (h : assess settings series commitId = .ok v) : v.Ordinary := by
  obtain ⟨candidate, hmem, _, b, -, hb, h⟩ := exists_evaluate_of_assess h
  obtain ⟨-, hunit, rfl⟩ := evaluate_eq_ok.1 h
  have hsize := sampleSize_baselineAt hb
  have hwindow := hsized.windowSize_resolve series.key
  -- the baseline has the unit of the candidate, if it has one
  refine ⟨hunits candidate hmem, ⟨?_, fun unit hbaseline => ?_⟩⟩
  · exact Nat.lt_of_le_of_lt hsize hwindow
  · rw [hunit unit hbaseline]
    exact hunits candidate hmem

end Analysis

end BenchLedger
