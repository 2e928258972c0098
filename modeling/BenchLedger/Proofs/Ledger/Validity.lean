import BenchLedger.Ledger.Batch
import BenchLedger.Proofs.Fallible

/-!
# What the checks of a ledger accept

The conditions under which a measurement, a batch of measurements and a unit pass the checks that
are made before anything is written.
-/

namespace BenchLedger

theorem Commit.validate_eq_ok {c : Commit} :
    c.validate = .ok () ↔ Text.isAllBlank c.id = false := by
  rw [validate, Fallible.last_check_eq_ok, Bool.not_eq_true]

namespace Measurement

/-- What `validate` asks of a measurement. -/
structure Valid (m : Measurement) : Prop where
  value_finite : m.value.isFinite = true
  range_finite : m.range.isFinite = true
  value_nonneg : ¬m.value < 0
  range_nonneg : ¬m.range < 0
  tool : Text.isAllBlank m.tool = false
  name : Text.isAllBlank m.name = false
  unit : Text.isAllBlank m.unit.text = false
  commitId : Text.isAllBlank m.commit.id = false

theorem validate_eq_ok {m : Measurement} : m.validate = .ok () ↔ m.Valid := by
  simp only [validate, Fallible.check_eq_ok, Commit.validate_eq_ok, Bool.not_eq_true,
    Bool.not_eq_eq_eq_not, Bool.not_true, Bool.not_eq_false]
  constructor
  · rintro ⟨h1, h2, h3, h4, h5, h6, h7, h8⟩
    exact ⟨h1, h2, h3, h4, h5, h6, h7, h8⟩
  · rintro ⟨h1, h2, h3, h4, h5, h6, h7, h8⟩
    exact ⟨h1, h2, h3, h4, h5, h6, h7, h8⟩

theorem ensureBelongs_eq_ok {m : Measurement} {tool commitId : String} :
    m.ensureBelongs tool commitId = .ok () ↔ m.tool = tool ∧ m.commit.id = commitId := by
  rw [ensureBelongs, Fallible.last_check_eq_ok]
  simp only [ne_eq, not_or, Decidable.not_not]

end Measurement

namespace Ledger

theorem checked_eq_ok {r : Except Invalid Unit} : checked r = .ok () ↔ r = .ok () :=
  Fallible.mapError_eq_ok

theorem ensureUnit_eq_ok {recorded : Option MeasureUnit} {m : Measurement} :
    ensureUnit recorded m = .ok () ↔ ∀ unit ∈ recorded, unit = m.unit := by
  cases recorded with
  | none => simp [ensureUnit]
  | some unit => simp [ensureUnit]

/-- Each measurement is valid and of that tool and commit, and no two have one name. -/
structure BatchOf (tool commitId : String) (records : List Measurement) : Prop where
  valid : ∀ m ∈ records, m.Valid
  belongs : ∀ m ∈ records, m.tool = tool ∧ m.commit.id = commitId
  names : (records.map (·.name)).Nodup

namespace BatchOf

variable {tool commitId : String} {records : List Measurement}

-- Records of one batch differ by their names, and so by their series.
theorem nodup_keys (h : BatchOf tool commitId records) :
    (records.map Measurement.key).Nodup := by
  have hnames := h.names
  rw [List.Nodup, List.pairwise_map] at hnames ⊢
  exact hnames.imp fun hne heq => hne (congrArg SeriesKey.name heq)

-- What is not of the commit of the batch has it in no series.
theorem ne_commit (h : BatchOf tool commitId records) {log : List Measurement}
    (hnew : ∀ old ∈ log, ¬(old.tool = tool ∧ old.commit.id = commitId)) :
    ∀ old ∈ log, ∀ m ∈ records, old.key = m.key → old.commit.id ≠ m.commit.id := by
  intro old hold m hm hkey hid
  obtain ⟨htool, hcommit⟩ := h.belongs m hm
  exact hnew old hold ⟨(congrArg SeriesKey.tool hkey).trans htool, hid.trans hcommit⟩

end BatchOf

theorem validateRecords_eq_ok {tool commitId : String} {seen : List String}
    {records : List Measurement} :
    validateRecords tool commitId seen records = .ok () ↔
      BatchOf tool commitId records ∧ ∀ m ∈ records, m.name ∉ seen := by
  induction records generalizing seen with
  | nil =>
    exact ⟨fun _ => ⟨⟨by simp, by simp, by simp⟩, by simp⟩, fun _ => rfl⟩
  | cons m ms ih =>
    simp only [validateRecords, Fallible.then_eq_ok, Fallible.check_eq_ok,
      Measurement.validate_eq_ok, Measurement.ensureBelongs_eq_ok, ih, List.contains_iff_mem]
    constructor
    · rintro ⟨hvalid, hbelongs, hseen, hms, hnew⟩
      refine ⟨⟨?_, ?_, ?_⟩, ?_⟩
      · exact List.forall_mem_cons.2 ⟨hvalid, hms.valid⟩
      · exact List.forall_mem_cons.2 ⟨hbelongs, hms.belongs⟩
      · rw [List.map_cons, List.nodup_cons, List.mem_map]
        refine ⟨?_, hms.names⟩
        rintro ⟨m', hm', hname⟩
        exact hnew m' hm' (hname ▸ List.mem_cons_self)
      · refine List.forall_mem_cons.2 ⟨hseen, ?_⟩
        exact fun m' hm' hmem => hnew m' hm' (List.mem_cons_of_mem _ hmem)
    · rintro ⟨⟨hvalid, hbelongs, hnames⟩, hseen⟩
      rw [List.map_cons, List.nodup_cons] at hnames
      rw [List.forall_mem_cons] at hvalid hbelongs hseen
      refine ⟨hvalid.1, hbelongs.1, hseen.1, ⟨hvalid.2, hbelongs.2, hnames.2⟩, ?_⟩
      intro m' hm' hmem
      -- a name that was seen is that of the first record or one from before it
      rcases List.mem_cons.1 hmem with hname | hmem
      · exact hnames.1 (hname ▸ List.mem_map_of_mem hm')
      · exact hseen.2 m' hm' hmem

theorem validateBatch_eq_ok {tool : String} {commit : Commit} {records : List Measurement} :
    validateBatch tool commit records = .ok () ↔
      (Text.isAllBlank tool = false ∧ Text.isAllBlank commit.id = false) ∧
        BatchOf tool commit.id records := by
  have hnil : ∀ m ∈ records, m.name ∉ ([] : List String) := by simp
  simp only [validateBatch, Fallible.check_eq_ok, Fallible.then_eq_ok, Commit.validate_eq_ok,
    validateRecords_eq_ok, Bool.not_eq_true, and_assoc, and_iff_left hnil]

end Ledger

end BenchLedger
