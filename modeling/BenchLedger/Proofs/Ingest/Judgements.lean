import BenchLedger.Proofs.Analysis.Windows
import BenchLedger.Proofs.Ingest.Reachable
import BenchLedger.Proofs.Ingest.Repetition

/-!
# Judging what a ledger holds

A series that a ledger reads out is of one unit and has a commit once.  So the record of each commit
can be judged against the records right before it, unless the settings tolerate no ratio, and a
record that was just stored is judged for certain once its series can be read.
-/

namespace BenchLedger

namespace Analysis

/-- A ratio that can be tolerated is a finite number and not negative. -/
def Tolerable (ratio : Float) : Prop :=
  ratio.isFinite = true ∧ ¬ratio < 0

/-- What comes of judging `candidate` behind the records `before` of its series. -/
structure Judged (settings : Settings) (key : SeriesKey) (before : List Measurement)
    (candidate : Measurement) (result : Except AnalysisError Verdict) : Prop where
  refused : ¬Tolerable (Policy.resolve settings key).thresholdRatio →
    result = .error (.invalidThreshold (Policy.resolve settings key).thresholdRatio)
  judged : Tolerable (Policy.resolve settings key).thresholdRatio →
    let policy := Policy.resolve settings key
    ∃ b v, Baseline.ofRecords policy.statistic (before.rtake policy.windowSize) = .ok b ∧
      evaluate settings candidate b policy.thresholdRatio = .ok v ∧ result = .ok v ∧
      b.sampleSize = min policy.windowSize before.length ∧
      (v.insufficientHistory = true ↔
        min policy.windowSize before.length < policy.minHistory) ∧
      (v.insufficientHistory = true → v.classification = .stable)

variable {settings : Settings}

theorem evaluate_of_not_tolerable {ratio : Float} (h : ¬Tolerable ratio) (candidate : Measurement)
    (b : Baseline) : evaluate settings candidate b ratio = .error (.invalidThreshold ratio) := by
  have hcheck : (!ratio.isFinite || decide (ratio < 0)) = true := by
    rw [Tolerable, not_and_or, not_not] at h
    simpa using h
  unfold evaluate
  rw [if_pos hcheck]
  rfl

-- A window in one unit has a baseline in that unit.
theorem Baseline.ofRecords_of_unit {window : List Measurement} {unit : MeasureUnit}
    (h : ∀ m ∈ window, m.unit = unit) (statistic : Statistic) :
    ∃ b, ofRecords statistic window = .ok b ∧ b.sampleSize = window.length ∧
      ∀ u ∈ b.unit, u = unit := by
  have hhead : ∀ u ∈ window.head?.map (·.unit), u = unit := by
    intro u hu
    obtain ⟨m, hm, rfl⟩ := Option.map_eq_some_iff.1 hu
    exact h m (List.mem_of_mem_head? hm)
  have hfind : window.find? (fun m => some m.unit ≠ window.head?.map (·.unit)) = none := by
    cases window with
    | nil => rfl
    | cons first rest =>
      rw [List.find?_eq_none]
      intro m hm
      simp [h m hm, h first List.mem_cons_self]
  refine ⟨ofValues statistic (window.head?.map (·.unit)) (window.map (·.value)), ?_, ?_, ?_⟩
  · unfold ofRecords
    dsimp only
    rw [hfind]
    rfl
  · simp [ofValues]
  · exact hhead

end Analysis

namespace Series

variable {s : Series} {before after : List Measurement} {candidate : Measurement}

/-- The series is of one unit and has each commit once. -/
structure Uniform (s : Series) : Prop where
  units : ∀ a ∈ s.records, ∀ b ∈ s.records, a.unit = b.unit
  commits : (s.records.map (·.commit.id)).Nodup

theorem Uniform.unit_eq {commitId : String} (h : s.Uniform)
    (hsplit : s.SplitsAt commitId before candidate after) :
    ∀ m ∈ before, m.unit = candidate.unit := by
  intro m hm
  exact h.units m (by simp [hsplit.records, hm]) candidate (by simp [hsplit.records])

-- No other record than the one that stands there is of its commit.
theorem Uniform.splitsAt (h : s.Uniform) (hsplit : s.records = before ++ candidate :: after) :
    s.SplitsAt candidate.commit.id before candidate after := by
  refine ⟨hsplit, rfl, fun m hm hid => ?_⟩
  have hnodup := h.commits
  rw [hsplit, List.map_append, List.nodup_append] at hnodup
  exact hnodup.2.2 _ (List.mem_map_of_mem hm) _ (List.mem_map_of_mem List.mem_cons_self) hid

end Series

namespace Analysis

variable {settings : Settings} {s : Series} {commitId : String}
  {before after : List Measurement} {candidate : Measurement}

theorem judged_assess (settings : Settings) (h : s.SplitsAt commitId before candidate after)
    (hunits : ∀ m ∈ before, m.unit = candidate.unit) :
    Judged settings s.key before candidate (assess settings s commitId) := by
  let policy := Policy.resolve settings s.key
  have hwindow : ∀ m ∈ before.rtake policy.windowSize, m.unit = candidate.unit :=
    fun m hm => hunits m (List.mem_of_mem_drop hm)
  obtain ⟨b, hb, hsize, hunit⟩ := Baseline.ofRecords_of_unit hwindow policy.statistic
  have hsize : b.sampleSize = min policy.windowSize before.length := by
    rw [hsize, List.rtake, List.length_drop]
    omega
  have hassess : assess settings s commitId =
      evaluate settings candidate b policy.thresholdRatio := by
    rw [assess_of_splitsAt h, hb, Fallible.ok_bind]
  rw [hassess]
  constructor
  · exact fun hratio => evaluate_of_not_tolerable hratio candidate b
  · intro hratio
    have hok : evaluate settings candidate b policy.thresholdRatio =
        .ok (verdictOn settings candidate b policy.thresholdRatio) :=
      evaluate_eq_ok.2 ⟨hratio, hunit, rfl⟩
    refine ⟨b, _, hb, hok, hok, hsize, ?_, ?_⟩
    · show decide (b.sampleSize < policy.minHistory) = true ↔ _
      rw [hsize, decide_eq_true_eq]
    · exact (verdictOn_about _ _ _ _).stable

theorem assessLatest_of_split (hsplit : s.records = before ++ [candidate]) :
    assessLatest settings s = (assess settings s candidate.commit.id).map some := by
  rw [assessLatest, Series.latest?, hsplit, List.getLast?_concat]

end Analysis

namespace Ledger

variable {kind : Kind} {l : Ledger} {log : List Measurement} {key : SeriesKey} {series : Series}

theorem key_of_series (h : l.series key = .ok series) : series.key = key := by
  cases l with
  | resident r =>
    obtain rfl := Except.ok.inj h
    rfl
  | durable d =>
    obtain ⟨_, -, h⟩ := Fallible.bind_eq_ok.1 h
    obtain ⟨_, -, h⟩ := Fallible.bind_eq_ok.1 h
    obtain rfl := Except.ok.inj h
    rfl

/-- A ledger with a coherent log reads out uniform series. -/
theorem Records.uniform (h : Records kind l log) (hs : l.series key = .ok series) :
    series.Uniform := by
  constructor
  · intro a ha b hb
    obtain ⟨m, hm, hkey, rfl⟩ := (h.holds.mem_series_iff hs).1 ha
    obtain ⟨m', hm', hkey', rfl⟩ := (h.holds.mem_series_iff hs).1 hb
    exact h.coherent.units m hm m' hm' (hkey.trans hkey'.symm)
  · rw [((h.holds.series_ok hs).map _).nodup_iff, List.map_map, List.Nodup, List.pairwise_map]
    refine (h.coherent.commits.filter _).imp_of_mem fun hm hm' hne => ?_
    have hkey := (of_decide_eq_true (List.mem_filter.1 hm).2).trans
      (of_decide_eq_true (List.mem_filter.1 hm').2).symm
    simpa using hne hkey

end Ledger

/-- What is said of a record that was just stored: it is judged in its series, if the ledger reads
the series out and the settings have a ratio that can be tolerated. -/
def Status.JudgedIn (status : Status) (settings : Analysis.Settings) (l : Ledger)
    (key : SeriesKey) (commitId : String) : Prop :=
  let ratio := (Analysis.Policy.resolve settings key).thresholdRatio
  match l.series key with
  | .error e => status = .analysisFailed e.message
  | .ok series =>
    (¬Analysis.Tolerable ratio →
      status = .analysisFailed (Analysis.AnalysisError.invalidThreshold ratio).message) ∧
    (Analysis.Tolerable ratio →
      ∃ v outOfOrder, status = .evaluated v outOfOrder ∧
        Analysis.assess settings series commitId = .ok v)

theorem Status.JudgedIn.congr {status : Status} {settings : Analysis.Settings} {l l' : Ledger}
    {key : SeriesKey} {commitId : String} (h : status.JudgedIn settings l key commitId)
    (hsame : Ledger.SameSeries key l l') : status.JudgedIn settings l' key commitId := by
  rwa [JudgedIn, ← hsame.series]

namespace Service

variable {kind : Ledger.Kind} {s s' : Service} {log : List Measurement} {tool : String}
  {commit : Commit} {m : Measurement}

-- The record of the commit is found in its series, wherever it was sorted in.
theorem judgedIn_judge (h : Ledger.Records kind s.ledger log) (hm : m ∈ log)
    (hid : m.commit.id = commit.id) (outOfOrder : Bool) :
    (s.judge m.key commit outOfOrder).1.JudgedIn s.settings s.ledger m.key commit.id := by
  unfold judge Status.JudgedIn
  cases hseries : s.ledger.series m.key with
  | error e => rfl
  | ok series =>
    have hread : kind.keep m ∈ series.records :=
      (h.holds.mem_series_iff hseries).2 ⟨m, hm, rfl, rfl⟩
    obtain ⟨before, candidate, after, hsplit⟩ := Series.exists_splitsAt hread
    have hjudged := Analysis.judged_assess s.settings hsplit ((h.uniform hseries).unit_eq hsplit)
    rw [kind.commitId_keep, hid, Ledger.key_of_series hseries] at hjudged
    dsimp only
    constructor
    · intro hratio
      rw [hjudged.refused hratio]
    · intro hratio
      obtain ⟨_, v, -, -, hv, -⟩ := hjudged.judged hratio
      rw [hv]
      exact ⟨v, outOfOrder, rfl, rfl⟩

-- Of measurements with different names a series takes up one at most.
theorem sameSeries_putAll_of_mem {ms : List Measurement} (hnames : (ms.map (·.name)).Nodup)
    (hm : m ∈ ms) (l : Ledger) : Ledger.SameSeries m.key (l.put m) (l.putAll ms) := by
  have hperm := List.perm_cons_erase hm
  have hfresh : m.name ∉ (ms.erase m).map (·.name) :=
    (List.nodup_cons.1 ((hperm.map _).nodup_iff.1 hnames)).1
  have hothers : (ms.erase m).filter (·.key = m.key) = [] := by
    rw [List.filter_eq_nil_iff]
    intro m' hm' hkey
    have hname : m'.name = m.name := congrArg SeriesKey.name (of_decide_eq_true hkey)
    exact hfresh (List.mem_map.2 ⟨m', hm', hname⟩)
  have hone : [m].filter (·.key = m.key) = ms.filter (·.key = m.key) := by
    rw [Ledger.filter_key_of_perm hperm hnames, List.filter_cons, List.filter_cons, hothers]
    rfl
  exact (Ledger.SameSeries.refl m.key l).putAll hone

theorem judgedIn_taking {ms : List Measurement} (h : Ledger.Records kind s.ledger log)
    (hnames : (ms.map (·.name)).Nodup) (hm : m ∈ ms)
    (hstored : (s.statusOf tool commit m).isStored = true) :
    (s.statusOf tool commit m).JudgedIn s.settings (s.taking tool commit ms).ledger
      ⟨tool, m.name⟩ commit.id := by
  have hproper := proper_of_isStored hstored
  have hmem : m ∈ s.storedOf tool commit ms := List.mem_filter.2 ⟨hm, hstored⟩
  have hdistinct : ((s.storedOf tool commit ms).map (·.name)).Nodup :=
    (List.filter_sublist.map _).nodup hnames
  have hsame := sameSeries_putAll_of_mem hdistinct hmem s.ledger
  have hstatus := statusOf_of_proper hproper s
  cases hreceive : s.ledger.receive m with
  | error e =>
    rw [hreceive] at hstatus
    rw [hstatus, isStored_refusal] at hstored
    exact absurd hstored Bool.noConfusion
  | ok receipt =>
    rw [hreceive] at hstatus
    have hrecords : Ledger.Records kind (s.ledger.put m) (log ++ [m]) :=
      h.appendRecord_ok (by rw [Ledger.appendRecord_eq, hreceive]; rfl)
    have hjudged := judgedIn_judge (s := { s with ledger := s.ledger.put m }) hrecords
      (List.mem_append_right log (List.mem_singleton_self m)) hproper.commitId receipt.outOfOrder
    rw [hstatus, ← hproper.key]
    exact hjudged.congr hsame

theorem judgedIn_ingestEntries (h : Ledger.Records kind s.ledger log) (tool : String)
    (commit : Commit) (entries : List (Except Rejection Measurement)) {o : Outcome}
    (ho : o ∈ (s.ingestEntries tool commit entries).1.outcomes)
    (hstored : o.status.isStored = true) :
    o.status.JudgedIn s.settings (s.ingestEntries tool commit entries).2.ledger
      ⟨tool, o.benchmark⟩ commit.id := by
  rw [ingestEntries_eq] at ho ⊢
  obtain ⟨slot, hslot, rfl⟩ := List.mem_map.1 ho
  cases slot with
  | settled o =>
    have hnot := Slot.not_stored_of_settled hslot
    rw [Slot.outcome] at hstored
    rw [hstored] at hnot
    exact absurd hnot Bool.noConfusion
  | pending m =>
    have hpending : m ∈ Slot.pendingOf [] entries := List.mem_filterMap.2 ⟨_, hslot, rfl⟩
    exact judgedIn_taking h (Slot.nodup_pendingOf [] entries).1 hpending hstored

theorem judgedIn_of_handle (h : Ledger.Records kind s.ledger log) {r : Request} {report : Report}
    (hok : s.handle r = .ok (report, s')) {o : Outcome} (ho : o ∈ report.outcomes)
    (hstored : o.status.isStored = true) :
    o.status.JudgedIn s.settings s'.ledger ⟨report.tool, o.benchmark⟩ report.commitId := by
  have hentries := ingestEntries_of_handle hok
  have hjudged := judgedIn_ingestEntries h r.tool r.commit r.entries (o := o)
  rw [hentries] at hjudged
  rw [ingestEntries_eq] at hentries
  obtain rfl := (Prod.mk.inj hentries).1
  exact hjudged ho hstored

/-- In a series of a reachable ledger each record is judged against the records right before it,
which fails just if the settings have no ratio that can be tolerated; the latest record is judged
like any other.  Of what is ingested each record that is stored is judged in this way, as long as
its series can be read. -/
theorem judged_of_reachable (h : Ledger.Reachable kind s.ledger) :
    (∀ key series, s.ledger.series key = .ok series →
      ∀ before candidate after, series.records = before ++ candidate :: after →
        Analysis.Judged s.settings key before candidate
            (Analysis.assess s.settings series candidate.commit.id) ∧
          (after = [] → Analysis.assessLatest s.settings series =
            (Analysis.assess s.settings series candidate.commit.id).map some)) ∧
    ∀ r report s', s.handle r = .ok (report, s') → ∀ o ∈ report.outcomes,
      (o.status.isStored = true →
        o.status.JudgedIn s.settings s'.ledger ⟨report.tool, o.benchmark⟩ report.commitId) ∧
      (Analysis.Tolerable
          (Analysis.Policy.resolve s.settings ⟨report.tool, o.benchmark⟩).thresholdRatio →
        (∃ series, s'.ledger.series ⟨report.tool, o.benchmark⟩ = .ok series) →
          ∀ reason, o.status ≠ .analysisFailed reason) := by
  obtain ⟨log, hlog⟩ := h.exists_log
  constructor
  · intro key series hs before candidate after hsplit
    have hplace := (hlog.uniform hs).splitsAt hsplit
    have hjudged := Analysis.judged_assess s.settings hplace ((hlog.uniform hs).unit_eq hplace)
    rw [Ledger.key_of_series hs] at hjudged
    refine ⟨hjudged, fun hlast => ?_⟩
    subst hlast
    exact Analysis.assessLatest_of_split hsplit
  · intro r report s' hok o ho
    refine ⟨judgedIn_of_handle hlog hok ho, fun hratio ⟨series, hs⟩ reason hfailed => ?_⟩
    have hjudged := judgedIn_of_handle hlog hok ho (by rw [hfailed]; rfl)
    rw [Status.JudgedIn, hs] at hjudged
    obtain ⟨v, outOfOrder, hstatus, -⟩ := hjudged.2 hratio
    rw [hfailed] at hstatus
    exact absurd hstatus Status.noConfusion

-- A ledger in memory that was given two commits, judged with a window of one record.
theorem judged_second_of_two :
    let l := (Ledger.Kind.resident.empty.after (.appendRecord (Ledger.recordAt "c1"))).after
      (.appendRecord (Ledger.recordAt "c2"))
    ∃ series, l.series ⟨"cargo", "x"⟩ = .ok series ∧
      Analysis.Judged { windowSize := 1 } ⟨"cargo", "x"⟩ [Ledger.recordAt "c1"]
        (Ledger.recordAt "c2") (Analysis.assess { windowSize := 1 } series "c2") := by
  intro l
  have hl : l = .resident { records := [Ledger.recordAt "c1", Ledger.recordAt "c2"]
                            commits := [("cargo", "c1"), ("cargo", "c2")] } := by
    decide +kernel
  have hempty : Ledger.Reachable .resident Ledger.Kind.resident.empty := .empty
  have hreachable : Ledger.Reachable .resident l := (hempty.call _).call _
  have hjudged := judged_of_reachable
    (s := { settings := { windowSize := 1 }, ledger := l }) hreachable
  refine ⟨.ofRecords ⟨"cargo", "x"⟩ [Ledger.recordAt "c1", Ledger.recordAt "c2"],
    by rw [hl]; rfl, ?_⟩
  exact (hjudged.1 ⟨"cargo", "x"⟩ _ (by rw [hl]; rfl) [Ledger.recordAt "c1"]
    (Ledger.recordAt "c2") [] (by decide +kernel)).1

end Service

end BenchLedger
