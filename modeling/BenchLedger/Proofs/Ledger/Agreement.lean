import BenchLedger.Proofs.Ledger.Representation

/-!
# Both kinds of ledger agree

Given the same records of runs, a ledger in memory and a durable one accept and refuse the same
calls and give the same answers.  The two are related by the log that both hold; the commits that
the one in memory has seen are those of the log, because no batch is empty.  They agree on a series
if some text writes the commits in it: a durable ledger keeps commits as texts.
-/

namespace BenchLedger

/-- Equality of commits; times are equal when their instants are. -/
def Commit.same (a b : Commit) : Bool :=
  a.id == b.id && a.author == b.author && a.committer == b.committer &&
    a.timestamp.instant == b.timestamp.instant && a.treeId == b.treeId && a.url == b.url &&
    a.message == b.message && a.distinct == b.distinct

theorem Commit.same_self (c : Commit) : c.same c = true := by
  simp [same]

namespace Measurement

/-- Equality of measurements; numbers are compared as binary64 numbers. -/
def same (a b : Measurement) : Bool :=
  a.tool == b.tool && a.commit.same b.commit && a.name == b.name && a.value == b.value &&
    a.range == b.range && a.unit == b.unit && a.recordedAt == b.recordedAt

/-- What the measurements of a run are like: a unit that some text writes, and a time of recording
in whole milliseconds. -/
structure Reported (m : Measurement) : Prop where
  unit : m.unit.Written
  recordedAt : m.recordedAt.OnMillisecond

theorem Reported.unit_stored {m : Measurement} (h : m.Reported) : m.stored.unit = m.unit :=
  Ledger.Kind.durable.unit_keep h.unit

theorem Reported.recordedAt_stored {m : Measurement} (h : m.Reported) :
    m.stored.recordedAt = m.recordedAt := by
  simp [stored, Instant.truncated, Instant.ofMillis?_millis h.recordedAt]

theorem same_stored {m : Measurement} (h : m.Reported) (hcommit : m.commit.Written)
    (hvalid : m.Valid) : m.same m.stored = true := by
  simp only [same, Bool.and_eq_true]
  refine ⟨⟨⟨⟨⟨⟨?_, ?_⟩, ?_⟩, Row.beq_number hvalid.value_finite⟩,
    Row.beq_number hvalid.range_finite⟩, ?_⟩, ?_⟩
  · exact beq_self_eq_true m.tool
  · have hkept : m.stored.commit = m.commit := hcommit.kept
    rw [hkept]
    exact m.commit.same_self
  · exact beq_self_eq_true m.name
  · rw [h.unit_stored]
    exact beq_self_eq_true m.unit
  · rw [h.recordedAt_stored]
    exact beq_self_eq_true m.recordedAt

end Measurement

namespace Ledger

variable {log : List Measurement}

/-- A call whose records come from runs; a batch of it is not empty. -/
structure Call.Reported (c : Call) : Prop where
  records : ∀ m ∈ c.records, m.Reported
  nonempty : ∀ tool commit, c ≠ .append tool commit []

/-- Some text writes the commit of each record of the series. -/
def CommitsWritten (log : List Measurement) (key : SeriesKey) : Prop :=
  ∀ m ∈ log, m.key = key → m.commit.Written

/-- Both ledgers give the same answers from their log; records are compared by the equality of
measurements. -/
structure AnswersSame (log : List Measurement) (l l' : Ledger) : Prop where
  series : ∀ key, CommitsWritten log key →
    ∃ s s', l.series key = .ok s ∧ l'.series key = .ok s' ∧ s.key = s'.key ∧
      List.Forall₂ (fun a b => a.same b = true) s.records s'.records
  names : ∀ tool, l.names tool = l'.names tool
  tools : l.tools = l'.tools
  containsCommit : ∀ tool commitId, l.containsCommit tool commitId = l'.containsCommit tool commitId

/-- What a caller learns of a recorded measurement, up to the order of times in its series. -/
def placed (r : Except LedgerError (Ledger × Receipt)) : Except LedgerError (SeriesKey × Nat) :=
  r.map fun (_, receipt) => (receipt.key, receipt.seriesLength)

/-- A ledger in memory and a durable one that hold the same records of runs. -/
structure Twins (r : Resident) (d : Durable) (log : List Measurement) : Prop where
  resident : r.Holds log
  durable : d.Holds log
  reported : ∀ m ∈ log, m.Reported
  commits : ∀ tool commitId, r.containsCommit tool commitId = true ↔
    ∃ m ∈ log, m.tool = tool ∧ m.commit.id = commitId

/-- Twins as ledgers of the two kinds. -/
inductive TwinLedgers : Ledger → Ledger → List Measurement → Prop where
  | mk {r : Resident} {d : Durable} {log : List Measurement} (h : Twins r d log) :
    TwinLedgers (.resident r) (.durable d) log

theorem Kind.durable_unit? (h : ∀ m ∈ log, m.Reported) (key : SeriesKey) :
    Kind.durable.unit? log key = Kind.resident.unit? log key := by
  unfold Kind.unit?
  cases hhead : (log.filter (·.key = key)).head? with
  | none => rw [Option.map_none, Option.map_none]
  | some m =>
    have hm : m ∈ log := (List.mem_filter.1 (List.mem_of_mem_head? hhead)).1
    exact congrArg some (h m hm).unit_stored

-- Both kinds refuse a record for the same reason or record it in the same place.
theorem Kind.receive_same (h : ∀ m ∈ log, m.Reported) (m : Measurement) :
    (Kind.resident.receive log m).map (fun receipt => (receipt.key, receipt.seriesLength)) =
      (Kind.durable.receive log m).map fun receipt => (receipt.key, receipt.seriesLength) := by
  unfold Kind.receive
  rw [Kind.durable_unit? h]
  cases Ledger.checked m.validate with
  | error e => rfl
  | ok _ =>
    simp only [Fallible.ok_bind]
    split
    · rfl
    · cases Ledger.ensureUnit (Kind.resident.unit? log m.key) m <;> rfl

namespace Twins

variable {r : Resident} {d : Durable}

theorem empty : Twins {} {} [] where
  resident := ⟨rfl, by simp, by simp⟩
  durable := ⟨rfl, rfl, by simp⟩
  reported := by simp
  commits := by simp [Resident.containsCommit]

theorem containsCommit_eq (h : Twins r d log) (tool commitId : String) :
    r.containsCommit tool commitId = d.hasCommit tool commitId := by
  rw [Bool.eq_iff_iff, h.commits, h.durable.hasCommit_iff]

-- Accepted records make twins of the ledgers that the two leave behind.
private theorem extend (h : Twins r d log) (ms : List Measurement) (hms : ∀ m ∈ ms, m.Reported)
    (hvalid : ∀ m ∈ ms, m.Valid) {r' : Resident} (hr' : r'.Holds (log ++ ms))
    (hcommits : ∀ tool commitId, r'.containsCommit tool commitId = true ↔
      (∃ m ∈ ms, m.tool = tool ∧ m.commit.id = commitId) ∨
        r.containsCommit tool commitId = true) :
    Twins r' (ms.foldl Durable.insert d) (log ++ ms) where
  resident := hr'
  durable := h.durable.foldl_insert hvalid
  reported := List.forall_mem_append.2 ⟨h.reported, hms⟩
  commits tool commitId := by
    rw [hcommits, h.commits]
    constructor
    · rintro (⟨m, hm, hsame⟩ | ⟨m, hm, hsame⟩)
      · exact ⟨m, List.mem_append_right _ hm, hsame⟩
      · exact ⟨m, List.mem_append_left _ hm, hsame⟩
    · rintro ⟨m, hm, hsame⟩
      rcases List.mem_append.1 hm with hm | hm
      · exact .inr ⟨m, hm, hsame⟩
      · exact .inl ⟨m, hm, hsame⟩

theorem append (h : Twins r d log) {tool : String} {commit : Commit} {records : List Measurement}
    (hne : records ≠ []) (hreported : ∀ m ∈ records, m.Reported) :
    Fallible.Together (fun r' d' => Twins r' d' (log ++ records)) (r.append tool commit records)
      (d.append tool commit records) := by
  -- the two make their checks in different orders, so which one fails first is left open
  by_cases hok : validateBatch tool commit records = .ok () ∧
      (∀ m ∈ records, ∀ unit ∈ Kind.resident.unit? log m.key, unit = m.unit) ∧
      r.containsCommit tool commit.id = false
  · obtain ⟨hbatch, hunit, hcommit⟩ := hok
    have hrecords := (validateBatch_eq_ok.1 hbatch).2
    have hcommit' : d.hasCommit tool commit.id = false := by rw [← h.containsCommit_eq, hcommit]
    have hunit' : ∀ m ∈ records, ∀ unit ∈ Kind.durable.unit? log m.key, unit = m.unit := by
      simpa only [Kind.durable_unit? h.reported] using hunit
    rw [h.resident.append_eq_ok.2 ⟨hbatch, hunit, hcommit, rfl⟩,
      h.durable.append_eq_ok.2 ⟨hbatch, hunit', hcommit', rfl⟩]
    apply Fallible.Together.ok
    apply h.extend records hreported hrecords.valid
      ((h.resident.see tool commit.id).foldl_push hrecords.valid)
    intro tool' commitId'
    rw [Resident.containsCommit_foldl_push, Resident.containsCommit_see]
    -- the commit of the batch is that of its first record
    obtain ⟨m, hm⟩ := List.exists_mem_of_ne_nil records hne
    obtain ⟨htool, hid⟩ := hrecords.belongs m hm
    constructor
    · rintro (hnew | ⟨rfl, rfl⟩ | hold)
      · exact .inl hnew
      · exact .inl ⟨m, hm, htool, hid⟩
      · exact .inr hold
    · rintro (hnew | hold)
      · exact .inl hnew
      · exact .inr (.inr hold)
  · obtain ⟨e, hr⟩ : ∃ e, r.append tool commit records = .error e := by
      apply Fallible.exists_error
      intro r' hr
      obtain ⟨hbatch, hunit, hcommit, -⟩ := h.resident.append_eq_ok.1 hr
      exact hok ⟨hbatch, hunit, hcommit⟩
    obtain ⟨e', hd⟩ : ∃ e, d.append tool commit records = .error e := by
      apply Fallible.exists_error
      intro d' hd
      obtain ⟨hbatch, hunit, hcommit, -⟩ := h.durable.append_eq_ok.1 hd
      rw [← h.containsCommit_eq] at hcommit
      simp only [Kind.durable_unit? h.reported] at hunit
      exact hok ⟨hbatch, hunit, hcommit⟩
    rw [hr, hd]
    exact .error e e'

theorem appendRecord (h : Twins r d log) {m : Measurement} (hreported : m.Reported) :
    Fallible.Together (fun x y => Twins x.1 y.1 (log ++ [m])) (r.appendRecord m)
      (d.appendRecord m) := by
  rw [h.resident.appendRecord, h.durable.appendRecord]
  have hreceive := Fallible.Together.of_map_eq (Kind.receive_same h.reported m)
  apply hreceive.map
  intro receipt receipt' hr _
  have hvalid := (Kind.receive_eq_ok hr).1.valid
  have hone : ∀ {p : Measurement → Prop}, p m → ∀ m' ∈ [m], p m' :=
    fun hm => List.forall_mem_singleton.2 hm
  exact h.extend [m] (hone hreported) (hone hvalid) (h.resident.push hvalid)
    fun _ _ => Resident.containsCommit_foldl_push [m]

theorem answersSame (h : Twins r d log) : AnswersSame log (.resident r) (.durable d) where
  series key hcommits := by
    obtain ⟨s, hs, hkey, hsorted⟩ := (Holds.resident h.resident).series_sorted
      (fun m _ (_ : m.key = key) => Kind.not_loses_resident m) fun _ _ _ => trivial
    have hreads : ∀ m ∈ log, m.key = key → Kind.durable.ReadsCommit m.commit :=
      fun m hm hmkey => Kind.KeepsCommit.reads (hcommits m hm hmkey)
    obtain ⟨s', hs', hkey', hsorted'⟩ := (Holds.durable h.durable).series_sorted
      (fun m hm hmkey => Kind.not_loses (hreads m hm hmkey) (h.reported m hm).recordedAt) hcommits
    -- reading rows commutes with sorting, and there is only one way to sort
    refine ⟨s, s', hs, hs', hkey.trans hkey'.symm, ?_⟩
    have hkeep : Kind.resident.keep = id := rfl
    rw [hkeep, List.map_id] at hsorted
    have hinstant : ∀ m ∈ log.filter (·.key = key), m.stored.instant = m.instant := by
      intro m hm
      obtain ⟨hlog, hmkey⟩ := List.mem_filter.1 hm
      exact Kind.durable.instant_keep (hcommits m hlog (of_decide_eq_true hmkey))
    rw [hsorted'.unique (hsorted.map Measurement.stored hinstant), List.forall₂_map_right_iff,
      List.forall₂_same]
    intro m hm
    obtain ⟨hlog, hmkey⟩ := List.mem_filter.1 (hsorted.mem_iff.1 hm)
    exact Measurement.same_stored (h.reported m hlog) (hcommits m hlog (of_decide_eq_true hmkey))
      (h.resident.valid m hlog)
  names tool := by
    obtain ⟨names, hnames, henum⟩ := h.durable.names tool
    show Except.ok (r.names tool) = d.names tool
    rw [hnames, henum.unique (h.resident.enumerates_names tool)]
  tools := by
    obtain ⟨tools, htools, henum⟩ := h.durable.tools
    show Except.ok r.tools = d.tools
    rw [htools]
    refine congrArg _ (Order.Enumerates.unique ?_ henum)
    -- in memory the tools are those of the commits seen
    apply (Order.enumerates_sortTexts _).congr
    intro tool
    rw [List.mem_map]
    constructor
    · rintro ⟨⟨_, commitId⟩, hmem, rfl⟩
      obtain ⟨m, hm, htool, -⟩ := (h.commits _ _).1 (Resident.containsCommit_iff.2 hmem)
      exact ⟨m, hm, htool⟩
    · rintro ⟨m, hm, rfl⟩
      have hseen := (h.commits _ _).2 ⟨m, hm, rfl, rfl⟩
      exact ⟨_, Resident.containsCommit_iff.1 hseen, rfl⟩
  containsCommit tool commitId := by
    show Except.ok (r.containsCommit tool commitId) = d.containsCommit tool commitId
    rw [Durable.containsCommit, h.durable.connected, h.containsCommit_eq]
    rfl

end Twins

namespace TwinLedgers

variable {l l' : Ledger}

theorem answersSame (h : TwinLedgers l l' log) : AnswersSame log l l' := by
  cases h with
  | mk h => exact h.answersSame

-- Neither fails to answer: the records of such a series can all be read back.
private theorem exists_answer (h : TwinLedgers l l' log) {q : Question}
    (hq : ∀ key, q = .series key → CommitsWritten log key) :
    (∃ a, l.answer q = .ok a) ∧ ∃ a, l'.answer q = .ok a := by
  have hsame := h.answersSame
  cases h with
  | mk h =>
    constructor
    · cases q <;> exact ⟨_, rfl⟩
    · cases q with
      | series key =>
        obtain ⟨s, s', -, hs', -⟩ := hsame.series key (hq key rfl)
        exact ⟨_, congrArg (Except.map _) hs'⟩
      | names tool => exact ⟨_, congrArg (Except.map _) (hsame.names tool).symm⟩
      | tools => exact ⟨_, congrArg (Except.map _) hsame.tools.symm⟩
      | containsCommit tool commitId =>
        exact ⟨_, congrArg (Except.map _) (hsame.containsCommit tool commitId).symm⟩

theorem perform (h : TwinLedgers l l' log) {c : Call} (hc : c.Reported)
    (hq : ∀ key, c = .read (.series key) → CommitsWritten log key) :
    Fallible.Together (fun l l' => TwinLedgers l l' (log ++ c.records)) (l.perform c)
      (l'.perform c) := by
  cases c with
  | append tool commit records =>
    have hne : records ≠ [] := by
      rintro rfl
      exact hc.nonempty tool commit rfl
    cases h with
    | mk h => exact (h.append hne hc.records).map fun _ _ _ htwins => .mk htwins
  | appendRecord m =>
    have hm : m.Reported := hc.records m (List.mem_singleton_self m)
    cases h with
    | mk h =>
      have hrecord := (h.appendRecord hm).map (S := fun x y => TwinLedgers x.1 y.1 (log ++ [m]))
        (f := fun x => (Ledger.resident x.1, x.2)) (g := fun x => (Ledger.durable x.1, x.2))
        fun _ _ _ htwins => .mk htwins
      exact hrecord.map fun _ _ _ htwins => htwins
  | read q =>
    obtain ⟨⟨a, ha⟩, a', ha'⟩ := h.exists_answer fun key heq => hq key (congrArg _ heq)
    rw [Ledger.perform, Ledger.perform, ha, ha']
    apply Fallible.Together.ok
    simpa [Call.records] using h

theorem after (h : TwinLedgers l l' log) {c : Call} (hc : c.Reported) :
    TwinLedgers (l.after c) (l'.after c) (log ++ l.accepted c) := by
  by_cases hread : ∃ q, c = .read q
  · obtain ⟨q, rfl⟩ := hread
    rw [after_read, after_read, accepted_read, List.append_nil]
    exact h
  have hperform := h.perform hc fun key heq => absurd ⟨_, heq⟩ hread
  unfold Ledger.after Ledger.accepted
  generalize l.perform c = x at hperform ⊢
  generalize l'.perform c = x' at hperform ⊢
  cases hperform with
  | ok htwins => exact htwins
  | error e e' => simpa using h

theorem run (h : TwinLedgers l l' log) {calls : List Call} (hcalls : ∀ c ∈ calls, c.Reported) :
    TwinLedgers (l.run calls) (l'.run calls) (log ++ l.log calls) := by
  induction calls generalizing l l' log with
  | nil => simpa [Ledger.run, Ledger.log] using h
  | cons c calls ih =>
    rw [List.forall_mem_cons] at hcalls
    have hrest := ih (h.after hcalls.1) hcalls.2
    rwa [List.append_assoc] at hrest

end TwinLedgers

/-- A record of a commit at the epoch, on a clock that is an hour and half a minute ahead. -/
def halfMinuteAhead : Measurement :=
  { recordAt "c1" with
    commit := { (recordAt "c1").commit with timestamp := ⟨.epoch, 3630, by decide, by decide⟩ } }

-- No text writes that commit.  A durable ledger gives it back half a minute before the epoch.
example : ((Kind.resident.empty.after (.appendRecord halfMinuteAhead)).series
    ⟨"cargo", "x"⟩).toOption.map (·.records.map (·.instant.seconds)) = some [0] := by
  decide +kernel
example : ((Kind.durable.empty.after (.appendRecord halfMinuteAhead)).series
    ⟨"cargo", "x"⟩).toOption.map (·.records.map (·.instant.seconds)) = some [-30] := by
  decide +kernel

end Ledger

end BenchLedger
