import BenchLedger.Proofs.Ledger.Calls
import BenchLedger.Proofs.Order.Arrangement

/-!
# What a ledger holds of its log

Each kind of ledger represents the log of its calls: in memory as the measurements themselves and
the commits seen, durably as one row for each measurement.  The conditions of an append and the
answers to all questions are computed from the log alone.
-/

namespace BenchLedger

variable {log : List Measurement}

/-- A ledger in memory that holds the log. -/
structure Resident.Holds (r : Resident) (log : List Measurement) : Prop where
  records : r.records = log
  seen : ∀ m ∈ log, r.containsCommit m.tool m.commit.id = true
  valid : ∀ m ∈ log, m.Valid

/-- A durable ledger that holds the log. -/
structure Durable.Holds (d : Durable) (log : List Measurement) : Prop where
  rows : d.rows = log.map .ofMeasurement
  isOpen : d.isOpen = true
  valid : ∀ m ∈ log, m.Valid

/-- The series shows the records of the log: as the ledger keeps them, each in its place, and where
places are equal in the order of the log. -/
def Ledger.Kind.Shows (kind : Kind) (log : List Measurement) (s : Series) : Prop :=
  ∃ sorted, Order.StablySorted kind.place (log.filter (·.key = s.key)) sorted ∧
    s.records = sorted.map kind.keep

theorem Ledger.Kind.Shows.perm {kind : Kind} {s : Series} (h : kind.Shows log s) :
    s.records.Perm ((log.filter (·.key = s.key)).map kind.keep) := by
  obtain ⟨sorted, hsorted, hrecords⟩ := h
  rw [hrecords]
  exact hsorted.perm.map _

/-- Where all commits are given back as they came the places are those of their times. -/
theorem Ledger.Kind.Shows.stablySorted {kind : Kind} {s : Series} (h : kind.Shows log s)
    (hcommits : ∀ m ∈ log, m.key = s.key → kind.KeepsCommit m.commit) :
    Order.StablySorted Measurement.instant ((log.filter (·.key = s.key)).map kind.keep)
      s.records := by
  obtain ⟨sorted, hsorted, hrecords⟩ := h
  have hinstant : ∀ m ∈ log.filter (·.key = s.key), (kind.keep m).instant = m.instant := by
    intro m hm
    obtain ⟨hlog, hkey⟩ := List.mem_filter.1 hm
    exact Kind.instant_keep (hcommits m hlog (of_decide_eq_true hkey))
  rw [hrecords]
  refine (hsorted.congr_key fun a ha b hb => ?_).map _ hinstant
  exact Kind.place_le_place (hinstant a ha) (hinstant b hb)

-- What a ledger does with each of some valid records extends the log by all of them.
private theorem holds_foldl {σ : Type} {P : σ → List Measurement → Prop}
    {add : σ → Measurement → σ}
    (hadd : ∀ {s log m}, P s log → m.Valid → P (add s m) (log ++ [m])) {s : σ} (h : P s log)
    {ms : List Measurement} (hms : ∀ m ∈ ms, m.Valid) : P (ms.foldl add s) (log ++ ms) := by
  induction ms generalizing s log with
  | nil => simpa using h
  | cons m ms ih =>
    rw [List.forall_mem_cons] at hms
    have hrest := ih (hadd h hms.1) hms.2
    rwa [List.append_assoc, List.singleton_append] at hrest

namespace Resident

variable {r : Resident}

theorem containsCommit_iff {tool commitId : String} :
    r.containsCommit tool commitId = true ↔ (tool, commitId) ∈ r.commits :=
  List.contains_iff_mem

theorem containsCommit_see {tool commitId tool' commitId' : String} :
    (r.see tool commitId).containsCommit tool' commitId' = true ↔
      (tool' = tool ∧ commitId' = commitId) ∨ r.containsCommit tool' commitId' = true := by
  unfold see containsCommit
  split
  case isTrue h =>
    constructor
    · exact .inr
    · rintro (⟨rfl, rfl⟩ | h')
      · exact h
      · exact h'
  case isFalse => simp [or_comm]

@[simp]
theorem records_see (tool commitId : String) : (r.see tool commitId).records = r.records := by
  unfold see
  split <;> rfl

theorem containsCommit_push {m : Measurement} {tool commitId : String} :
    (r.push m).containsCommit tool commitId = true ↔
      (tool = m.tool ∧ commitId = m.commit.id) ∨ r.containsCommit tool commitId = true := by
  rw [push, containsCommit_see]
  rfl

@[simp]
theorem records_push (m : Measurement) : (r.push m).records = r.records ++ [m] := by
  rw [push, records_see]

theorem Holds.see (h : r.Holds log) (tool commitId : String) : (r.see tool commitId).Holds log where
  records := (records_see tool commitId).trans h.records
  seen m hm := containsCommit_see.2 (.inr (h.seen m hm))
  valid := h.valid

theorem Holds.push (h : r.Holds log) {m : Measurement} (hm : m.Valid) :
    (r.push m).Holds (log ++ [m]) where
  records := by rw [records_push, h.records]
  seen old hold := by
    rw [containsCommit_push]
    rcases List.mem_append.1 hold with hold | hold
    · exact .inr (h.seen old hold)
    · obtain rfl := List.mem_singleton.1 hold
      exact .inl ⟨rfl, rfl⟩
  valid := by
    rw [List.forall_mem_append]
    exact ⟨h.valid, List.forall_mem_singleton.2 hm⟩

theorem Holds.foldl_push (h : r.Holds log) {ms : List Measurement} (hms : ∀ m ∈ ms, m.Valid) :
    (ms.foldl Resident.push r).Holds (log ++ ms) :=
  holds_foldl (fun h hm => h.push hm) h hms

theorem containsCommit_foldl_push (ms : List Measurement) {tool commitId : String} :
    (ms.foldl Resident.push r).containsCommit tool commitId = true ↔
      (∃ m ∈ ms, m.tool = tool ∧ m.commit.id = commitId) ∨
        r.containsCommit tool commitId = true := by
  induction ms generalizing r with
  | nil => simp
  | cons m ms ih =>
    rw [List.foldl_cons, ih, containsCommit_push, List.exists_mem_cons_iff, @eq_comm _ tool,
      @eq_comm _ commitId, or_left_comm, or_assoc]

theorem Holds.recordsOf (h : r.Holds log) (key : SeriesKey) :
    r.recordsOf key = log.filter (·.key = key) := by
  rw [Resident.recordsOf, h.records]

theorem Holds.unit? (h : r.Holds log) (key : SeriesKey) :
    r.unit? key = Ledger.Kind.resident.unit? log key := by
  rw [Resident.unit?, h.recordsOf]
  rfl

-- When a batch is accepted, and the ledger that it leaves behind.
theorem Holds.append_eq_ok (h : r.Holds log) {tool : String} {commit : Commit}
    {records : List Measurement} {r' : Resident} :
    r.append tool commit records = .ok r' ↔
      Ledger.validateBatch tool commit records = .ok () ∧
      (∀ m ∈ records, ∀ unit ∈ Ledger.Kind.resident.unit? log m.key, unit = m.unit) ∧
      r.containsCommit tool commit.id = false ∧
      records.foldl Resident.push (r.see tool commit.id) = r' := by
  simp only [Resident.append, Fallible.then_eq_ok, Fallible.check_eq_ok, Ledger.checked_eq_ok,
    Fallible.forM_eq_ok, Ledger.ensureUnit_eq_ok, h.unit?, Bool.not_eq_true, Fallible.pure_eq_ok]

theorem Holds.appendRecord (h : r.Holds log) (m : Measurement) :
    r.appendRecord m =
      (Ledger.Kind.resident.receive log m).map fun receipt => (r.push m, receipt) := by
  unfold Resident.appendRecord Ledger.Kind.receive
  -- both sides check the measurement, the commit and the unit in this order
  rw [h.recordsOf, h.unit?]
  cases Ledger.checked m.validate with
  | error e => rfl
  | ok _ =>
    simp only [Fallible.ok_bind]
    split
    · rfl
    · cases Ledger.ensureUnit (Ledger.Kind.resident.unit? log m.key) m <;> rfl

theorem Holds.shows_series (h : r.Holds log) (key : SeriesKey) :
    Ledger.Kind.resident.Shows log (r.series key) := by
  have hsorted := Order.stablySorted_stableSort Measurement.instant (r.recordsOf key)
  rw [h.recordsOf] at hsorted
  refine ⟨_, hsorted.congr_key fun a _ b _ => (Ledger.Kind.place_le_place rfl rfl).symm, ?_⟩
  rw [series, h.recordsOf]
  exact (List.map_id _).symm

theorem Holds.enumerates_names (h : r.Holds log) (tool : String) :
    Order.Enumerates (fun name => ∃ m ∈ log, m.tool = tool ∧ m.name = name) (r.names tool) := by
  apply (Order.enumerates_sortTexts _).congr
  intro name
  simp [h.records, and_assoc]

end Resident

namespace Durable

variable {d : Durable}

theorem Holds.insert (h : d.Holds log) {m : Measurement} (hm : m.Valid) :
    (d.insert m).Holds (log ++ [m]) where
  rows := by
    rw [List.map_append, ← h.rows]
    rfl
  isOpen := h.isOpen
  valid := by
    rw [List.forall_mem_append]
    exact ⟨h.valid, List.forall_mem_singleton.2 hm⟩

theorem Holds.foldl_insert (h : d.Holds log) {ms : List Measurement} (hms : ∀ m ∈ ms, m.Valid) :
    (ms.foldl Durable.insert d).Holds (log ++ ms) :=
  holds_foldl (fun h hm => h.insert hm) h hms

theorem Holds.connected (h : d.Holds log) : d.connected = .ok () := by
  rw [Durable.connected, h.isOpen]
  rfl

theorem Holds.rowsOf (h : d.Holds log) (key : SeriesKey) :
    d.rowsOf key = (log.filter (·.key = key)).map .ofMeasurement := by
  rw [Durable.rowsOf, h.rows, List.filter_map]
  rfl

theorem Holds.unit? (h : d.Holds log) (key : SeriesKey) :
    d.unit? key = .ok (Ledger.Kind.durable.unit? log key) := by
  unfold Durable.unit? Ledger.Kind.unit?
  rw [h.rowsOf, List.head?_map]
  cases hhead : (log.filter (·.key = key)).head? with
  | none => rfl
  | some m =>
    have hm : m ∈ log := (List.mem_filter.1 (List.mem_of_mem_head? hhead)).1
    show (Row.ofMeasurement m).decodeUnit.map some = _
    rw [Row.decodeUnit_ofMeasurement (h.valid m hm)]
    rfl

theorem Holds.hasCommit_iff (h : d.Holds log) {tool commitId : String} :
    d.hasCommit tool commitId = true ↔ ∃ m ∈ log, m.tool = tool ∧ m.commit.id = commitId := by
  rw [hasCommit, h.rows, List.any_map, List.any_eq_true]
  constructor
  · rintro ⟨m, hm, hcommit⟩
    exact ⟨m, hm, of_decide_eq_true hcommit⟩
  · rintro ⟨m, hm, hcommit⟩
    exact ⟨m, hm, decide_eq_true hcommit⟩

theorem Holds.append_eq_ok (h : d.Holds log) {tool : String} {commit : Commit}
    {records : List Measurement} {d' : Durable} :
    d.append tool commit records = .ok d' ↔
      Ledger.validateBatch tool commit records = .ok () ∧
      (∀ m ∈ records, ∀ unit ∈ Ledger.Kind.durable.unit? log m.key, unit = m.unit) ∧
      d.hasCommit tool commit.id = false ∧ records.foldl Durable.insert d = d' := by
  simp only [Durable.append, Fallible.then_eq_ok, Fallible.check_eq_ok, Ledger.checked_eq_ok,
    h.connected, Fallible.forM_eq_ok, h.unit?, Fallible.ok_bind, Ledger.ensureUnit_eq_ok,
    Bool.not_eq_true, Fallible.pure_eq_ok]
  exact and_congr_right fun _ => and_left_comm

theorem Holds.appendRecord (h : d.Holds log) (m : Measurement) :
    d.appendRecord m =
      (Ledger.Kind.durable.receive log m).map fun receipt => (d.insert m, receipt) := by
  unfold Durable.appendRecord Ledger.Kind.receive
  rw [h.rowsOf, h.unit?, h.connected]
  -- what is asked of the rows of a series is asked of its measurements in the log
  have hany : ((log.filter (·.key = m.key)).map Row.ofMeasurement).any (·.commitId == m.commit.id) =
      (log.filter (·.key = m.key)).any (·.commit.id == m.commit.id) := List.any_map
  have hlater : ((log.filter (·.key = m.key)).map Row.ofMeasurement).any
        (fun old => decide (m.instant.millis < old.commitMillis)) =
      (log.filter (·.key = m.key)).any
        (fun old => decide (m.instant.millis < old.instant.millis)) := List.any_map
  cases Ledger.checked m.validate with
  | error e => rfl
  | ok _ =>
    simp only [Fallible.ok_bind, hany, hlater, List.length_map]
    split
    · rfl
    · cases Ledger.ensureUnit (Ledger.Kind.durable.unit? log m.key) m <;> rfl

theorem Holds.names (h : d.Holds log) (tool : String) :
    ∃ names, d.names tool = .ok names ∧
      Order.Enumerates (fun name => ∃ m ∈ log, m.tool = tool ∧ m.name = name) names := by
  refine ⟨_, by rw [Durable.names, h.connected]; rfl, ?_⟩
  apply (Order.enumerates_sortTexts _).congr
  intro name
  simp [h.rows, Row.ofMeasurement, and_assoc]

theorem Holds.tools (h : d.Holds log) :
    ∃ tools, d.tools = .ok tools ∧
      Order.Enumerates (fun tool => ∃ m ∈ log, m.tool = tool) tools := by
  refine ⟨_, by rw [Durable.tools, h.connected]; rfl, ?_⟩
  apply (Order.enumerates_sortTexts _).congr
  intro tool
  simp [h.rows, Row.ofMeasurement]

-- Sorting the rows of a series by their milliseconds sorts the measurements of the log.
theorem Holds.exists_sorted_rows (h : d.Holds log) (key : SeriesKey) :
    ∃ sorted, Order.StablySorted (·.instant.millis) (log.filter (·.key = key)) sorted ∧
      Order.stableSort (fun a b => decide (a.commitMillis ≤ b.commitMillis)) (d.rowsOf key) =
        sorted.map Row.ofMeasurement := by
  have hsorted := Order.stablySorted_stableSort (fun m : Measurement => m.instant.millis)
    (log.filter (·.key = key))
  refine ⟨_, hsorted, ?_⟩
  rw [h.rowsOf]
  exact (Order.stablySorted_stableSort Row.commitMillis _).unique (hsorted.map _ fun _ _ => rfl)

theorem Holds.series_of_kept (h : d.Holds log) {key : SeriesKey}
    (hkept : ∀ m ∈ log, m.key = key → m.loss? = none) :
    ∃ s, d.series key = .ok s ∧ s.key = key ∧ Ledger.Kind.durable.Shows log s := by
  obtain ⟨sorted, hsorted, hrows⟩ := h.exists_sorted_rows key
  have hread : (sorted.map Row.ofMeasurement).mapM Row.measurement =
      .ok (sorted.map Measurement.stored) := by
    rw [Fallible.mapM_map]
    apply Fallible.mapM_ok
    intro m hm
    obtain ⟨hlog, hkey⟩ := List.mem_filter.1 (hsorted.mem_iff.1 hm)
    exact Row.measurement_of_kept (h.valid m hlog) (hkept m hlog (of_decide_eq_true hkey))
  refine ⟨Series.ofRecords key (sorted.map Measurement.stored), ?_, rfl, ?_⟩
  · rw [Durable.series, h.connected, Fallible.ok_bind, hrows]
    show (List.mapM Row.measurement (sorted.map Row.ofMeasurement) >>= _) = _
    rw [hread]
    rfl
  · -- to sort what the rows give back is to sort the measurements by what is given back
    have hfine := Order.stablySorted_stableSort (fun m : Measurement => m.stored.instant) sorted
    have hticks : Order.StablySorted (fun m : Measurement => m.stored.instant.ticks) sorted _ :=
      hfine.congr_key fun _ _ _ _ => Iff.rfl
    refine ⟨_, hsorted.lex hticks, ?_⟩
    exact (Order.stablySorted_stableSort Measurement.instant _).unique
      (hfine.map Measurement.stored fun _ _ => rfl)

-- Reading stops at the first record, by the milliseconds of the commits, that cannot be read.
theorem Holds.series_of_first_lost (h : d.Holds log) {key : SeriesKey} {m : Measurement}
    {lost : List Measurement} {what : String}
    (hlost : Order.StablySorted (·.instant.millis)
      ((log.filter (·.key = key)).filter (·.loss? ≠ none)) (m :: lost))
    (hwhat : m.loss? = some what) : d.series key = .error (.corrupt what) := by
  obtain ⟨sorted, hsorted, hrows⟩ := h.exists_sorted_rows key
  have hvalid : ∀ m' ∈ sorted, m'.Valid := fun m' hm' =>
    h.valid m' (List.mem_filter.1 (hsorted.mem_iff.1 hm')).1
  have hfind : sorted.find? (·.loss? ≠ none) = some m := by
    rw [← List.head?_filter, (hsorted.filter _).unique hlost, List.head?_cons]
  have hread : sorted.mapM (fun m' => (Row.ofMeasurement m').measurement) =
      .error (.corrupt what) := by
    refine Fallible.mapM_eq_error_of_find? ?_ hfind ?_
    · intro m' hm' hkept
      exact ⟨_, Row.measurement_of_kept (hvalid m' hm') (not_not.1 (of_decide_eq_false hkept))⟩
    · exact Row.measurement_of_lost (hvalid m (List.mem_of_find?_eq_some hfind)) hwhat
  rw [Durable.series, h.connected, Fallible.ok_bind, hrows]
  show (List.mapM Row.measurement (sorted.map Row.ofMeasurement) >>= _) = _
  rw [Fallible.mapM_map, hread]
  rfl

theorem Holds.series_of_lost (h : d.Holds log) {key : SeriesKey} {m : Measurement} (hm : m ∈ log)
    (hkey : m.key = key) (hlost : m.loss? ≠ none) :
    ∃ m' ∈ log, m'.key = key ∧
      (∀ a ∈ log, a.key = key → a.loss? ≠ none → m'.instant.millis ≤ a.instant.millis) ∧
      ∃ what, m'.loss? = some what ∧ d.series key = .error (.corrupt what) := by
  have hsorted := Order.stablySorted_stableSort (fun m : Measurement => m.instant.millis)
    ((log.filter (·.key = key)).filter (·.loss? ≠ none))
  generalize Order.stableSort _ _ = sorted at hsorted
  have hmem : ∀ a ∈ log, a.key = key → a.loss? ≠ none → a ∈ sorted := by
    intro a ha hakey halost
    rw [hsorted.mem_iff, List.mem_filter, List.mem_filter]
    exact ⟨⟨ha, decide_eq_true hakey⟩, decide_eq_true halost⟩
  -- reading stops at the first of the lost records, which need not be `m`
  cases sorted with
  | nil => exact absurd (hmem m hm hkey hlost) List.not_mem_nil
  | cons m' lost =>
    obtain ⟨hseries, hlost'⟩ := List.mem_filter.1 (hsorted.mem_iff.1 List.mem_cons_self)
    obtain ⟨hlog, hkey'⟩ := List.mem_filter.1 hseries
    obtain ⟨what, hwhat⟩ := Option.ne_none_iff_exists'.1 (of_decide_eq_true hlost')
    refine ⟨m', hlog, of_decide_eq_true hkey', ?_, what, hwhat,
      h.series_of_first_lost hsorted hwhat⟩
    intro a ha hakey halost
    rcases List.mem_cons.1 (hmem a ha hakey halost) with rfl | ha
    · exact Int.le_refl _
    · exact (List.pairwise_cons.1 hsorted.ascending).1 a ha

end Durable

namespace Ledger

/-- A ledger of some kind that holds the log. -/
inductive Holds : Kind → Ledger → List Measurement → Prop where
  | resident {r : Resident} {log : List Measurement} (h : r.Holds log) :
    Holds .resident (.resident r) log
  | durable {d : Durable} {log : List Measurement} (h : d.Holds log) :
    Holds .durable (.durable d) log

/-- The conditions under which a batch is recorded. -/
structure Kind.AdmitsBatch (kind : Kind) (log : List Measurement) (tool : String) (commit : Commit)
    (records : List Measurement) : Prop where
  batch : BatchOf tool commit.id records
  fresh : ∀ old ∈ log, ¬(old.tool = tool ∧ old.commit.id = commit.id)
  unit : ∀ m ∈ records, ∀ unit ∈ kind.unit? log m.key, unit = m.unit

namespace Holds

variable {kind : Kind} {l l' : Ledger}

theorem empty (kind : Kind) : Holds kind kind.empty [] := by
  cases kind with
  | resident => exact .resident ⟨rfl, by simp, by simp⟩
  | durable => exact .durable ⟨rfl, rfl, by simp⟩

theorem valid (h : Holds kind l log) : ∀ m ∈ log, m.Valid := by
  cases h with
  | resident h => exact h.valid
  | durable h => exact h.valid

theorem append (h : Holds kind l log) {tool : String} {commit : Commit}
    {records : List Measurement} (hok : l.append tool commit records = .ok l') :
    Holds kind l' (log ++ records) ∧ kind.AdmitsBatch log tool commit records := by
  cases h with
  | resident h =>
    obtain ⟨r', hr, rfl⟩ := Fallible.map_eq_ok.1 hok
    obtain ⟨hbatch, hunit, hcommit, rfl⟩ := h.append_eq_ok.1 hr
    have hrecords := (validateBatch_eq_ok.1 hbatch).2
    refine ⟨.resident ((h.see tool commit.id).foldl_push hrecords.valid), hrecords, ?_, hunit⟩
    -- a commit of the log would have been seen
    rintro old hold ⟨rfl, hid⟩
    rw [← hid, h.seen old hold] at hcommit
    contradiction
  | durable h =>
    obtain ⟨d', hd, rfl⟩ := Fallible.map_eq_ok.1 hok
    obtain ⟨hbatch, hunit, hcommit, rfl⟩ := h.append_eq_ok.1 hd
    have hrecords := (validateBatch_eq_ok.1 hbatch).2
    refine ⟨.durable (h.foldl_insert hrecords.valid), hrecords, ?_, hunit⟩
    intro old hold hsame
    rw [h.hasCommit_iff.2 ⟨old, hold, hsame⟩] at hcommit
    contradiction

theorem appendRecord (h : Holds kind l log) (m : Measurement) :
    ∃ l', l.appendRecord m = (kind.receive log m).map (fun receipt => (l', receipt)) ∧
      (m.Valid → Holds kind l' (log ++ [m])) := by
  cases h with
  | resident h =>
    refine ⟨_, ?_, fun hm => .resident (h.push hm)⟩
    rw [Ledger.appendRecord, h.appendRecord]
    cases Kind.resident.receive log m <;> rfl
  | durable h =>
    refine ⟨_, ?_, fun hm => .durable (h.insert hm)⟩
    rw [Ledger.appendRecord, h.appendRecord]
    cases Kind.durable.receive log m <;> rfl

theorem appendRecord_ok (h : Holds kind l log) {m : Measurement} {receipt : Receipt}
    (hok : l.appendRecord m = .ok (l', receipt)) :
    Holds kind l' (log ++ [m]) ∧ kind.receive log m = .ok receipt := by
  obtain ⟨l'', heq, hholds⟩ := h.appendRecord m
  rw [heq] at hok
  obtain ⟨receipt', hreceive, hpair⟩ := Fallible.map_eq_ok.1 hok
  obtain ⟨rfl, rfl⟩ := Prod.mk.inj hpair
  exact ⟨hholds (Kind.receive_eq_ok hreceive).1.valid, hreceive⟩

theorem perform (h : Holds kind l log) {c : Call} (hok : l.perform c = .ok l') :
    Holds kind l' (log ++ c.records) := by
  cases c with
  | append tool commit records => exact (h.append hok).1
  | appendRecord m =>
    obtain ⟨⟨l'', receipt⟩, hrecord, rfl⟩ := Fallible.map_eq_ok.1 hok
    exact (h.appendRecord_ok hrecord).1
  | read q =>
    obtain ⟨-, -, rfl⟩ := Fallible.map_eq_ok.1 hok
    simpa [Call.records] using h

theorem after (h : Holds kind l log) (c : Call) :
    Holds kind (l.after c) (log ++ l.accepted c) := by
  unfold Ledger.after Ledger.accepted
  cases hok : l.perform c with
  | ok l' => exact h.perform hok
  | error e => simpa using h

theorem run (h : Holds kind l log) (calls : List Call) :
    Holds kind (l.run calls) (log ++ l.log calls) :=
  run_invariant (fun c h => h.after c) h calls

theorem series_of_kept (h : Holds kind l log) {key : SeriesKey}
    (hkept : ∀ m ∈ log, m.key = key → ¬kind.Loses m) :
    ∃ s, l.series key = .ok s ∧ s.key = key ∧ kind.Shows log s := by
  cases h with
  | resident h => exact ⟨_, rfl, rfl, h.shows_series key⟩
  | durable h => exact h.series_of_kept fun m hm hkey => not_not.1 (hkept m hm hkey)

-- A series is what the ledger keeps of the log's records, sorted by the time of their commits.
theorem series_sorted (h : Holds kind l log) {key : SeriesKey}
    (hkept : ∀ m ∈ log, m.key = key → ¬kind.Loses m)
    (hcommits : ∀ m ∈ log, m.key = key → kind.KeepsCommit m.commit) :
    ∃ s, l.series key = .ok s ∧ s.key = key ∧
      Order.StablySorted Measurement.instant ((log.filter (·.key = key)).map kind.keep)
        s.records := by
  obtain ⟨s, hs, rfl, hshows⟩ := h.series_of_kept hkept
  exact ⟨s, hs, rfl, hshows.stablySorted hcommits⟩

theorem series_of_lost (h : Holds kind l log) {m : Measurement} (hm : m ∈ log)
    (hlost : kind.Loses m) :
    ∃ m' ∈ log, m'.key = m.key ∧
      ∃ what, kind.loss? m' = some what ∧ l.series m.key = .error (.corrupt what) := by
  cases h with
  | resident h => exact absurd hlost (Kind.not_loses_resident m)
  | durable h =>
    obtain ⟨m', hm', hkey, -, what, hwhat, hseries⟩ := h.series_of_lost hm rfl hlost
    exact ⟨m', hm', hkey, what, hwhat, hseries⟩

-- A series that is read shows all records of the log, for none of them is lost.
theorem shows_of_series (h : Holds kind l log) {key : SeriesKey} {s : Series}
    (hs : l.series key = .ok s) :
    s.key = key ∧ kind.Shows log s ∧ ∀ m ∈ log, m.key = key → ¬kind.Loses m := by
  by_cases hkept : ∀ m ∈ log, m.key = key → ¬kind.Loses m
  · obtain ⟨s', hs', hkey, hshows⟩ := h.series_of_kept hkept
    obtain rfl := Except.ok.inj (hs.symm.trans hs')
    exact ⟨hkey, hshows, hkept⟩
  · simp only [not_forall, not_not] at hkept
    obtain ⟨m, hm, rfl, hlost⟩ := hkept
    obtain ⟨_, -, -, _, -, hfail⟩ := h.series_of_lost hm hlost
    rw [hs] at hfail
    exact absurd hfail.symm Fallible.error_ne_ok

theorem names (h : Holds kind l log) (tool : String) :
    ∃ names, l.names tool = .ok names ∧
      Order.Enumerates (fun name => ∃ m ∈ log, m.tool = tool ∧ m.name = name) names := by
  cases h with
  | resident h => exact ⟨_, rfl, h.enumerates_names tool⟩
  | durable h => exact h.names tool

end Holds

end Ledger

end BenchLedger
