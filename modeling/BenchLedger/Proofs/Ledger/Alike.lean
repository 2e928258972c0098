import BenchLedger.Proofs.Ledger.Receiving

/-!
# Ledgers that answer alike

An append reads and writes one series only, so measurements of different series may be recorded in
any order: the ledgers that this leaves behind answer every question alike.
-/

namespace BenchLedger

theorem Order.sortTexts_congr {texts texts' : List String} (h : ∀ x, x ∈ texts ↔ x ∈ texts') :
    sortTexts texts = sortTexts texts' :=
  ((enumerates_sortTexts texts).congr h).unique (enumerates_sortTexts texts')

namespace Ledger

/-- Both ledgers are of one kind and hold the same of a series. -/
inductive SameSeries (key : SeriesKey) : Ledger → Ledger → Prop where
  | resident {r r' : Resident} (h : r.recordsOf key = r'.recordsOf key) :
    SameSeries key (.resident r) (.resident r')
  | durable {d d' : Durable} (h : d.rowsOf key = d'.rowsOf key) (hopen : d.isOpen = d'.isOpen) :
    SameSeries key (.durable d) (.durable d')

namespace SameSeries

variable {key : SeriesKey} {l l' : Ledger}

theorem refl (key : SeriesKey) (l : Ledger) : SameSeries key l l := by
  cases l with
  | resident r => exact .resident rfl
  | durable d => exact .durable rfl rfl

theorem hasRecord (h : SameSeries key l l') (commitId : String) :
    l.hasRecord key commitId = l'.hasRecord key commitId := by
  cases h with
  | resident h => simp only [Ledger.hasRecord, h]
  | durable h _ => simp only [Ledger.hasRecord, h]

theorem unit? (h : SameSeries key l l') : l.unit? key = l'.unit? key := by
  cases h with
  | resident h => simp only [Ledger.unit?, Resident.unit?, h]
  | durable h _ => simp only [Ledger.unit?, Durable.unit?, h]

theorem connected (h : SameSeries key l l') : l.connected = l'.connected := by
  cases h with
  | resident _ => rfl
  | durable _ hopen => simp only [Ledger.connected, Durable.connected, hopen]

theorem receipt {m : Measurement} (h : SameSeries m.key l l') : l.receipt m = l'.receipt m := by
  cases h with
  | resident h => simp only [Ledger.receipt, h]
  | durable h _ => simp only [Ledger.receipt, h]

-- An append looks at its series only.
theorem receive {m : Measurement} (h : SameSeries m.key l l') : l.receive m = l'.receive m := by
  unfold Ledger.receive ensureNew
  rw [h.hasRecord, h.unit?, h.connected, h.receipt]

theorem series (h : SameSeries key l l') : l.series key = l'.series key := by
  cases h with
  | resident h => simp only [Ledger.series, Resident.series, h]
  | durable h hopen => simp only [Ledger.series, Durable.series, Durable.connected, h, hopen]

-- Of several measurements a series takes up its own.
theorem putAll (h : SameSeries key l l') {ms ms' : List Measurement}
    (hms : ms.filter (·.key = key) = ms'.filter (·.key = key)) :
    SameSeries key (l.putAll ms) (l'.putAll ms') := by
  cases h with
  | resident h =>
    rw [putAll_resident, putAll_resident]
    apply SameSeries.resident
    rw [Resident.recordsOf_foldl_push, Resident.recordsOf_foldl_push, h, hms]
  | durable h hopen =>
    rw [putAll_durable, putAll_durable]
    apply SameSeries.durable
    · rw [Durable.rowsOf_foldl_insert, Durable.rowsOf_foldl_insert, h, hms]
    · rw [Durable.isOpen_foldl_insert, Durable.isOpen_foldl_insert, hopen]

end SameSeries

/-- The two ledgers hold the same of every series and know the same commits. -/
structure Alike (l l' : Ledger) : Prop where
  sameSeries : ∀ key, SameSeries key l l'
  containsCommit : ∀ tool commitId, l.containsCommit tool commitId = l'.containsCommit tool commitId

namespace Alike

variable {r r' : Resident} {d d' : Durable} {l l' : Ledger}

theorem mem_records_iff (h : (resident r).Alike (resident r')) (m : Measurement) :
    m ∈ r.records ↔ m ∈ r'.records := by
  have hmem : ∀ r : Resident, m ∈ r.records ↔ m ∈ r.recordsOf m.key := by
    intro r
    simp [Resident.recordsOf]
  cases h.sameSeries m.key with
  | resident hrecords => rw [hmem, hrecords, ← hmem]

theorem mem_commits_iff (h : (resident r).Alike (resident r')) (commit : String × String) :
    commit ∈ r.commits ↔ commit ∈ r'.commits := by
  have hcontains := Except.ok.inj (h.containsCommit commit.1 commit.2)
  rw [← Resident.containsCommit_iff, hcontains, Resident.containsCommit_iff]

theorem mem_rows_iff (h : (durable d).Alike (durable d')) (row : Row) :
    row ∈ d.rows ↔ row ∈ d'.rows := by
  have hmem : ∀ d : Durable, row ∈ d.rows ↔ row ∈ d.rowsOf row.key := by
    intro d
    simp [Durable.rowsOf]
  cases h.sameSeries row.key with
  | durable hrows _ => rw [hmem, hrows, ← hmem]

theorem connected (h : (durable d).Alike (durable d')) : d.connected = d'.connected :=
  (h.sameSeries default).connected

theorem names (h : l.Alike l') (tool : String) : l.names tool = l'.names tool := by
  cases h.sameSeries default with
  | resident _ =>
    refine congrArg Except.ok (Order.sortTexts_congr fun name => ?_)
    simp only [List.mem_map, List.mem_filter, h.mem_records_iff]
  | @durable d d' _ _ =>
    have hnames : Order.sortTexts ((d.rows.filter (·.tool = tool)).map (·.name)) =
        Order.sortTexts ((d'.rows.filter (·.tool = tool)).map (·.name)) := by
      apply Order.sortTexts_congr
      intro name
      simp only [List.mem_map, List.mem_filter, h.mem_rows_iff]
    show d.names tool = d'.names tool
    rw [Durable.names, Durable.names, h.connected, hnames]

theorem tools (h : l.Alike l') : l.tools = l'.tools := by
  cases h.sameSeries default with
  | resident _ =>
    refine congrArg Except.ok (Order.sortTexts_congr fun tool => ?_)
    simp only [List.mem_map, h.mem_commits_iff]
  | @durable d d' _ _ =>
    have htools : Order.sortTexts (d.rows.map (·.tool)) =
        Order.sortTexts (d'.rows.map (·.tool)) := by
      apply Order.sortTexts_congr
      intro tool
      simp only [List.mem_map, h.mem_rows_iff]
    show d.tools = d'.tools
    rw [Durable.tools, Durable.tools, h.connected, htools]

/-- Ledgers that are alike give the same answer to every question. -/
theorem answer (h : l.Alike l') (q : Question) : l.answer q = l'.answer q := by
  cases q with
  | series key => rw [Ledger.answer, Ledger.answer, (h.sameSeries key).series]
  | names tool => rw [Ledger.answer, Ledger.answer, h.names tool]
  | tools => rw [Ledger.answer, Ledger.answer, h.tools]
  | containsCommit tool commitId =>
    rw [Ledger.answer, Ledger.answer, h.containsCommit tool commitId]

end Alike

variable {ms ms' : List Measurement}

theorem containsCommit_putAll_of_perm (l : Ledger) (hperm : ms.Perm ms') (tool commitId : String) :
    (l.putAll ms).containsCommit tool commitId = (l.putAll ms').containsCommit tool commitId := by
  cases l with
  | resident r =>
    rw [putAll_resident, putAll_resident]
    refine congrArg Except.ok (Bool.eq_iff_iff.2 ?_)
    simp only [Resident.containsCommit_foldl_push, hperm.mem_iff]
  | durable d =>
    have hcommit : (ms.foldl Durable.insert d).hasCommit tool commitId =
        (ms'.foldl Durable.insert d).hasCommit tool commitId := by
      unfold Durable.hasCommit
      rw [Durable.rows_foldl_insert, Durable.rows_foldl_insert, List.any_append, List.any_append,
        (hperm.map Row.ofMeasurement).any_eq]
    rw [putAll_durable, putAll_durable]
    show Durable.containsCommit _ _ _ = Durable.containsCommit _ _ _
    unfold Durable.containsCommit Durable.connected
    rw [Durable.isOpen_foldl_insert, Durable.isOpen_foldl_insert, hcommit]

-- Where names differ, a series takes up at most one of the measurements.
theorem filter_key_of_perm (hperm : ms.Perm ms') (hnames : (ms.map (·.name)).Nodup)
    (key : SeriesKey) : ms.filter (·.key = key) = ms'.filter (·.key = key) := by
  have hdistinct : ms.Pairwise fun a b => a.name ≠ b.name := List.pairwise_map.1 hnames
  have hdistinct' : ms'.Pairwise fun a b => a.name ≠ b.name :=
    (hperm.pairwise_iff fun h => h.symm).1 hdistinct
  have hname : ∀ {ms : List Measurement}, ∀ m ∈ ms.filter (·.key = key), m.name = key.name := by
    intro ms m hm
    have hkey : m.key = key := of_decide_eq_true (List.mem_filter.1 hm).2
    exact congrArg SeriesKey.name hkey
  apply List.Perm.eq_of_pairwise _ (hdistinct.filter _) (hdistinct'.filter _) (hperm.filter _)
  intro a b ha hb hne _
  exact absurd ((hname a ha).trans (hname b hb).symm) hne

/-- Measurements of different benchmarks may be recorded in any order. -/
theorem alike_putAll_of_perm (l : Ledger) (hperm : ms.Perm ms') (hnames : (ms.map (·.name)).Nodup) :
    (l.putAll ms).Alike (l.putAll ms') where
  sameSeries key := (SameSeries.refl key l).putAll (filter_key_of_perm hperm hnames key)
  containsCommit := l.containsCommit_putAll_of_perm hperm

end Ledger

end BenchLedger
