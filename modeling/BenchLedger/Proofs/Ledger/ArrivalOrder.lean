import BenchLedger.Analysis.Assessment
import BenchLedger.Dashboard.Export
import BenchLedger.Ledger.Query
import BenchLedger.Proofs.Ledger.Alike
import BenchLedger.Proofs.Ledger.Recordable

/-!
# Measurements that arrive in any order

Measurements of different commits, no two of one series at the same time, may be appended one by
one in any order: none is refused, and the ledgers that this leaves behind give the same answers.
What can tell the order is a series that cannot be read: its error names the first of the records
that were lost.  So can records that a ledger gives back at one time, though their commits were
made at two.
-/

namespace BenchLedger.Ledger

variable {kind : Kind} {l l' : Ledger} {ms ms' log log' : List Measurement}

/-- Appends the measurements one after another, up to the first that is refused. -/
def appendEach (l : Ledger) (ms : List Measurement) : Except LedgerError Ledger :=
  ms.foldlM (fun l m => (l.appendRecord m).map (·.1)) l

/-- Valid measurements, in each series one for each commit, in one unit that some text writes, and
no two at the same time. -/
structure Arrivals (ms : List Measurement) : Prop where
  valid : ∀ m ∈ ms, m.Valid
  written : ∀ m ∈ ms, m.unit.Written
  units : ∀ a ∈ ms, ∀ b ∈ ms, a.key = b.key → a.unit = b.unit
  commits : ms.Pairwise fun a b => a.key = b.key → a.commit.id ≠ b.commit.id
  instants : ms.Pairwise fun a b => a.key = b.key → a.instant ≠ b.instant

/-- The two ledgers give the same answers, results and errors alike. -/
structure SameAnswers (l l' : Ledger) : Prop where
  series : ∀ key, l.series key = l'.series key
  names : ∀ tool, l.names tool = l'.names tool
  tools : l.tools = l'.tools
  containsCommit : ∀ tool commitId, l.containsCommit tool commitId = l'.containsCommit tool commitId
  latest? : ∀ key, l.latest? key = l'.latest? key
  trend : ∀ key span, l.trend key span = l'.trend key span
  toDashboard : ∀ repoUrl suite, l.toDashboard repoUrl suite = l'.toDashboard repoUrl suite
  assess : ∀ settings key commitId,
    (l.series key).map (Analysis.assess settings · commitId) =
      (l'.series key).map (Analysis.assess settings · commitId)

/-- What a ledger reads of the measurements does not tell in which order they came. -/
structure Kind.OrderFree (kind : Kind) (ms : List Measurement) : Prop where
  -- Those records of a series that cannot be given back, at the earliest millisecond of a commit
  -- among them, are lost in the same way.
  losses : ∀ a ∈ ms, ∀ b ∈ ms, a.key = b.key → kind.Loses a → kind.Loses b →
    (∀ c ∈ ms, c.key = a.key → kind.Loses c →
      a.instant.millis ≤ c.instant.millis ∧ b.instant.millis ≤ c.instant.millis) →
    kind.loss? a = kind.loss? b
  -- The records of a series that can be given back have places of their own.
  places : ∀ a ∈ ms, ∀ b ∈ ms, a.key = b.key → (∀ c ∈ ms, c.key = a.key → ¬kind.Loses c) →
    a.commit.id ≠ b.commit.id → kind.place a ≠ kind.place b

theorem Arrivals.of_perm (h : Arrivals ms) (hperm : ms'.Perm ms) : Arrivals ms' where
  valid m hm := h.valid m (hperm.mem_iff.1 hm)
  written m hm := h.written m (hperm.mem_iff.1 hm)
  units a ha b hb := h.units a (hperm.mem_iff.1 ha) b (hperm.mem_iff.1 hb)
  commits := (hperm.pairwise_iff fun hne hkey => (hne hkey.symm).symm).2 h.commits
  instants := (hperm.pairwise_iff fun hne hkey => (hne hkey.symm).symm).2 h.instants

theorem Arrivals.recordable (h : Arrivals ms) : Recordable ms :=
  ⟨h.valid, h.written, h.units, nodup_commits_iff.2 h.commits⟩

-- The two ledgers hold the same records, in orders of their own.
variable (h : Holds kind l log) (h' : Holds kind l' log') (hperm : log.Perm log')
include h h' hperm

omit h h' hperm

theorem SameAnswers.of_reads (hseries : ∀ key, l.series key = l'.series key)
    (hnames : ∀ tool, l.names tool = l'.names tool) (htools : l.tools = l'.tools)
    (hcommits : ∀ tool commitId, l.containsCommit tool commitId = l'.containsCommit tool commitId) :
    SameAnswers l l' where
  series := hseries
  names := hnames
  tools := htools
  containsCommit := hcommits
  latest? key := by rw [Ledger.latest?, Ledger.latest?, hseries]
  trend key span := by rw [Ledger.trend, Ledger.trend, hseries]
  toDashboard repoUrl suite := by
    simp only [Ledger.toDashboard, Ledger.measurements, hseries, hnames, htools]
  assess settings key commitId := by rw [hseries]

theorem Kind.OrderFree.of_perm (h : kind.OrderFree ms) (hperm : ms'.Perm ms) :
    kind.OrderFree ms' where
  losses a ha b hb hkey halost hblost hleast :=
    h.losses a (hperm.mem_iff.1 ha) b (hperm.mem_iff.1 hb) hkey halost hblost fun c hc =>
      hleast c (hperm.mem_iff.2 hc)
  places a ha b hb hkey hkept :=
    h.places a (hperm.mem_iff.1 ha) b (hperm.mem_iff.1 hb) hkey fun c hc =>
      hkept c (hperm.mem_iff.2 hc)

end BenchLedger.Ledger
