import BenchLedger.Ledger.Basic
import BenchLedger.Proofs.Ledger.Rows
import Mathlib.Data.Prod.Lex

/-!
# Sequences of calls

A ledger is used by calls that append and calls that read.  Its log is what the accepted calls
appended, in their order.  A failed call hands the ledger back as it was.
-/

namespace BenchLedger.Ledger

inductive Question where
  | series (key : SeriesKey)
  | names (tool : String)
  | tools
  | containsCommit (tool commitId : String)

inductive Answer where
  | series (s : Series)
  | names (names : List String)
  | tools (tools : List String)
  | containsCommit (found : Bool)

def answer (l : Ledger) : Question → Except LedgerError Answer
  | .series key => (l.series key).map .series
  | .names tool => (l.names tool).map .names
  | .tools => l.tools.map .tools
  | .containsCommit tool commitId => (l.containsCommit tool commitId).map .containsCommit

inductive Call where
  | append (tool : String) (commit : Commit) (records : List Measurement)
  | appendRecord (m : Measurement)
  | read (q : Question)

/-- What the call adds to the log when it succeeds. -/
def Call.records : Call → List Measurement
  | append _ _ records => records
  | appendRecord m => [m]
  | read _ => []

/-- The ledger that a successful call leaves behind. -/
def perform (l : Ledger) : Call → Except LedgerError Ledger
  | .append tool commit records => l.append tool commit records
  | .appendRecord m => (l.appendRecord m).map (·.1)
  | .read q => (l.answer q).map fun _ => l

def after (l : Ledger) (c : Call) : Ledger :=
  match l.perform c with
  | .ok l' => l'
  | .error _ => l

def accepted (l : Ledger) (c : Call) : List Measurement :=
  match l.perform c with
  | .ok _ => c.records
  | .error _ => []

def run (l : Ledger) (calls : List Call) : Ledger :=
  calls.foldl after l

/-- The records of the successful calls in the order of the calls. -/
def log (l : Ledger) : List Call → List Measurement
  | [] => []
  | c :: calls => l.accepted c ++ (l.after c).log calls

theorem after_of_error {l : Ledger} {c : Call} {e : LedgerError} (h : l.perform c = .error e) :
    l.after c = l := by
  simp [after, h]

theorem accepted_of_ok {l l' : Ledger} {c : Call} (h : l.perform c = .ok l') :
    l.after c = l' ∧ l.accepted c = c.records := by
  simp [after, accepted, h]

-- A call that reads changes nothing, whether it is answered or not.
theorem after_read (l : Ledger) (q : Question) : l.after (.read q) = l := by
  unfold after
  split
  case h_1 l' h =>
    obtain ⟨-, -, rfl⟩ := Fallible.map_eq_ok.1 h
    rfl
  case h_2 => rfl

theorem accepted_read (l : Ledger) (q : Question) : l.accepted (.read q) = [] := by
  unfold accepted
  split <;> rfl

theorem log_append (l : Ledger) (calls calls' : List Call) :
    l.log (calls ++ calls') = l.log calls ++ (l.run calls).log calls' := by
  induction calls generalizing l with
  | nil => rfl
  | cons c calls ih =>
    rw [List.cons_append, log, log, ih, List.append_assoc]
    rfl

-- What every call keeps of a ledger and its log, all calls keep.
theorem run_invariant {P : Ledger → List Measurement → Prop}
    (hstep : ∀ {l log} (c : Call), P l log → P (l.after c) (log ++ l.accepted c)) {l : Ledger}
    {log : List Measurement} (h : P l log) (calls : List Call) :
    P (l.run calls) (log ++ l.log calls) := by
  induction calls generalizing l log with
  | nil => simpa [run, Ledger.log] using h
  | cons c calls ih =>
    have hrest := ih (hstep c h)
    rwa [List.append_assoc] at hrest

/-- The two kinds of ledger. -/
inductive Kind where
  | resident
  | durable
  deriving DecidableEq, Repr

namespace Kind

def empty : Kind → Ledger
  | resident => .resident {}
  | durable => .durable {}

/-- A measurement as a ledger of that kind gives it back. -/
def keep : Kind → Measurement → Measurement
  | resident, m => m
  | durable, m => m.stored

/-- `m'` is what a ledger of that kind holds of `m`. -/
def Keeps : Kind → Measurement → Measurement → Prop
  | resident, m, m' => m' = m
  | durable, m, m' => m.StoredAs m'

/-- A ledger of that kind gives the commit back as it came. -/
def KeepsCommit : Kind → Commit → Prop
  | resident, _ => True
  | durable, c => c.Written

instance (kind : Kind) (c : Commit) : Decidable (kind.KeepsCommit c) :=
  match kind with
  | resident => inferInstanceAs (Decidable True)
  | durable => inferInstanceAs (Decidable c.Written)

/-- A ledger of that kind gives the commit back, if only with another time. -/
def ReadsCommit : Kind → Commit → Prop
  | resident, _ => True
  | durable, c => c.reread? ≠ none

theorem KeepsCommit.reads {kind : Kind} {c : Commit} (h : kind.KeepsCommit c) :
    kind.ReadsCommit c := by
  cases kind with
  | resident => trivial
  | durable =>
    show c.reread? ≠ none
    rw [Commit.Written.reread? h]
    exact Option.some_ne_none _

/-- What of the measurement a ledger of that kind cannot give back, as its errors name it. -/
def loss? : Kind → Measurement → Option String
  | resident, _ => none
  | durable, m => m.loss?

/-- A ledger of that kind cannot give the measurement back. -/
def Loses (kind : Kind) (m : Measurement) : Prop :=
  kind.loss? m ≠ none

instance (kind : Kind) (m : Measurement) : Decidable (kind.Loses m) :=
  inferInstanceAs (Decidable (_ ≠ none))

theorem not_loses_resident (m : Measurement) : ¬resident.Loses m :=
  fun h => h rfl

theorem loses_iff {kind : Kind} {m : Measurement} :
    kind.Loses m ↔ ¬kind.ReadsCommit m.commit ∨ kind = durable ∧ m.recordedAt.PastCalendar := by
  cases kind with
  | resident => simp [not_loses_resident, ReadsCommit]
  | durable =>
    show ¬m.loss? = none ↔ ¬m.commit.reread? ≠ none ∨ _
    rw [Measurement.loss?_eq_none, not_and_or, not_not]
    simp

theorem not_loses {kind : Kind} {m : Measurement} (hcommit : kind.ReadsCommit m.commit)
    (h : m.recordedAt.OnMillisecond) : ¬kind.Loses m := by
  rw [loses_iff]
  rintro (hunread | ⟨-, hpast⟩)
  · exact hunread hcommit
  · exact h.not_pastCalendar hpast

-- Of a record that was reported on a whole millisecond only the commit can be lost.
theorem loss?_of_onMillisecond {kind : Kind} {m : Measurement} (h : m.recordedAt.OnMillisecond)
    {what : String} (hlost : kind.loss? m = some what) : what = "commit metadata" := by
  cases kind with
  | resident => exact nomatch hlost
  | durable =>
    have hlost : m.loss? = some what := hlost
    unfold Measurement.loss? at hlost
    rw [if_neg h.not_pastCalendar] at hlost
    split at hlost
    · exact (Option.some.inj hlost).symm
    · exact nomatch hlost

theorem readsCommit_of_not_loses {kind : Kind} {m : Measurement} (h : ¬kind.Loses m) :
    kind.ReadsCommit m.commit := by
  rw [loses_iff, not_or, not_not] at h
  exact h.1

theorem keeps_keep {kind : Kind} {m : Measurement} (h : m.Valid)
    (hcommit : kind.KeepsCommit m.commit) (hkept : ¬kind.Loses m) : kind.Keeps m (kind.keep m) := by
  cases kind with
  | resident => rfl
  | durable =>
    exact h.storedAs hcommit (Measurement.loss?_eq_none.1 (not_not.1 hkept)).2

@[simp]
theorem key_keep (kind : Kind) (m : Measurement) : (kind.keep m).key = m.key := by
  cases kind <;> rfl

@[simp]
theorem commitId_keep (kind : Kind) (m : Measurement) :
    (kind.keep m).commit.id = m.commit.id := by
  cases kind with
  | resident => rfl
  | durable => exact m.commit.id_kept

theorem commit_keep {kind : Kind} {m : Measurement} (h : kind.KeepsCommit m.commit) :
    (kind.keep m).commit = m.commit := by
  cases kind with
  | resident => rfl
  | durable => exact Commit.Written.kept h

theorem commit_keep_congr {kind : Kind} {a b : Measurement} (h : a.commit = b.commit) :
    (kind.keep a).commit = (kind.keep b).commit := by
  cases kind with
  | resident => exact h
  | durable => exact congrArg Commit.kept h

theorem instant_keep {kind : Kind} {m : Measurement} (h : kind.KeepsCommit m.commit) :
    (kind.keep m).instant = m.instant :=
  congrArg Commit.instant (commit_keep h)

/-- A commit that is given back, but not as it came, has another time. -/
theorem instant_keep_ne {kind : Kind} {m : Measurement} (hread : kind.ReadsCommit m.commit)
    (h : ¬kind.KeepsCommit m.commit) : (kind.keep m).instant ≠ m.instant := by
  cases kind with
  | resident => exact absurd trivial h
  | durable => exact Commit.instant_ne_of_not_written h (Commit.reread?_eq_kept hread)

-- What a ledger gave back it keeps.
theorem keepsCommit_keep {kind : Kind} {m : Measurement} (hread : kind.ReadsCommit m.commit) :
    kind.KeepsCommit (kind.keep m).commit := by
  cases kind with
  | resident => trivial
  | durable => exact Commit.written_kept hread

/-- Where a record that is given back has its place in its series: behind those whose commits are
given back with an earlier time, and at equal times behind those of earlier milliseconds. -/
def place (kind : Kind) (m : Measurement) : ℤ ×ₗ ℤ :=
  toLex ((kind.keep m).instant.ticks, m.instant.millis)

-- Times that are given back decide places; equal times have equal milliseconds.
theorem place_le_place {kind : Kind} {a b : Measurement} (ha : (kind.keep a).instant = a.instant)
    (hb : (kind.keep b).instant = b.instant) :
    kind.place a ≤ kind.place b ↔ a.instant ≤ b.instant := by
  rw [place, place, ha, hb, Prod.Lex.toLex_le_toLex, Instant.le_def]
  constructor
  · rintro (hlt | ⟨heq, -⟩)
    · exact Int.le_of_lt hlt
    · exact Int.le_of_eq heq
  · intro hle
    rcases Int.lt_or_eq_of_le hle with hlt | heq
    · exact .inl hlt
    · exact .inr ⟨heq, Int.le_of_eq (congrArg Instant.millis (Instant.ticks_inj.1 heq))⟩

theorem valid_keep {kind : Kind} {m : Measurement} (h : m.Valid) : (kind.keep m).Valid := by
  cases kind with
  | resident => exact h
  | durable => exact h.stored

-- A unit that some text writes is kept as it is.
theorem unit_keep (kind : Kind) {m : Measurement} (h : m.unit.Written) :
    (kind.keep m).unit = m.unit := by
  obtain ⟨s, hs⟩ := h
  cases kind with
  | resident => rfl
  | durable => exact Measurement.stored_unit (MeasureUnit.read?_text hs)

/-- The unit of a series whose measurements came in the order of the log. -/
def unit? (kind : Kind) (log : List Measurement) (key : SeriesKey) : Option MeasureUnit :=
  (log.filter (·.key = key)).head?.map fun m => (kind.keep m).unit

/-- The receipt of a measurement, or why it is refused, by the log alone. -/
def receive (kind : Kind) (log : List Measurement) (m : Measurement) :
    Except LedgerError Receipt := do
  Ledger.checked m.validate
  let recorded := log.filter (·.key = m.key)
  if recorded.any (·.commit.id == m.commit.id) then throw (.duplicateCommit m.tool m.commit.id)
  Ledger.ensureUnit (kind.unit? log m.key) m
  return { key := m.key
           seriesLength := recorded.length + 1
           outOfOrder := recorded.any fun old =>
             match kind with
             | resident => m.instant < old.instant
             | durable => m.instant.millis < old.instant.millis }

/-- The conditions under which a measurement is recorded. -/
structure Admits (kind : Kind) (log : List Measurement) (m : Measurement) : Prop where
  valid : m.Valid
  fresh : ∀ old ∈ log, old.key = m.key → old.commit.id ≠ m.commit.id
  unit : ∀ unit ∈ kind.unit? log m.key, unit = m.unit

theorem receive_eq_ok {kind : Kind} {log : List Measurement} {m : Measurement} {receipt : Receipt} :
    kind.receive log m = .ok receipt →
      kind.Admits log m ∧ receipt.key = m.key ∧
        receipt.seriesLength = (log.filter (·.key = m.key)).length + 1 := by
  simp only [receive, Fallible.then_eq_ok, Fallible.check_eq_ok, Ledger.checked_eq_ok,
    Measurement.validate_eq_ok, Ledger.ensureUnit_eq_ok]
  rintro ⟨hvalid, hfresh, hunit, hreceipt⟩
  obtain rfl := Except.ok.inj hreceipt
  refine ⟨⟨hvalid, ?_, hunit⟩, rfl, rfl⟩
  intro old hold hkey hid
  exact hfresh (List.any_eq_true.2 ⟨old, List.mem_filter.2 ⟨hold, by simpa using hkey⟩,
    by simpa using hid⟩)

theorem Admits.exists_receipt {kind : Kind} {log : List Measurement} {m : Measurement}
    (h : kind.Admits log m) : ∃ receipt, kind.receive log m = .ok receipt := by
  have hfresh : ¬(log.filter (·.key = m.key)).any (·.commit.id == m.commit.id) = true := by
    rw [List.any_eq_true]
    rintro ⟨old, hold, hid⟩
    obtain ⟨hlog, hkey⟩ := List.mem_filter.1 hold
    exact h.fresh old hlog (of_decide_eq_true hkey) (beq_iff_eq.1 hid)
  unfold receive
  rw [checked_eq_ok.2 (Measurement.validate_eq_ok.2 h.valid), Fallible.ok_bind, if_neg hfresh,
    ensureUnit_eq_ok.2 h.unit]
  exact ⟨_, rfl⟩

end Kind

/-- A record of one benchmark at some commit, all else being fixed. -/
def recordAt (commitId : String) : Measurement where
  tool := "cargo"
  commit :=
    { id := commitId, author := { name := "A" }, committer := { name := "C" },
      timestamp := default, treeId := "t", url := "https://x.test" }
  name := "x"
  value := 1
  range := 1
  unit := .nanosecondsPerIteration
  recordedAt := .epoch

end BenchLedger.Ledger
