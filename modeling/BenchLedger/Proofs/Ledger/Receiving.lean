import BenchLedger.Proofs.Ledger.Representation

/-!
# Recording one measurement

What any ledger, whatever it holds, asks of a measurement before it is recorded.  A ledger only
grows, and what was refused once is refused by all that it grows into; what was recorded is a
duplicate there.
-/

namespace BenchLedger

namespace Ledger

def connected : Ledger → Except LedgerError Unit
  | resident _ => .ok ()
  | durable d => d.connected

/-- The series has a record of that commit. -/
def hasRecord (l : Ledger) (key : SeriesKey) (commitId : String) : Bool :=
  match l with
  | resident r => (r.recordsOf key).any (·.commit.id == commitId)
  | durable d => (d.rowsOf key).any (·.commitId == commitId)

def unit? : Ledger → SeriesKey → Except LedgerError (Option MeasureUnit)
  | resident r, key => .ok (r.unit? key)
  | durable d, key => d.unit? key

def receipt (l : Ledger) (m : Measurement) : Receipt :=
  match l with
  | resident r =>
    { key := m.key
      seriesLength := (r.recordsOf m.key).length + 1
      outOfOrder := (r.recordsOf m.key).any fun old => m.instant < old.instant }
  | durable d =>
    { key := m.key
      seriesLength := (d.rowsOf m.key).length + 1
      outOfOrder := (d.rowsOf m.key).any fun old => m.instant.millis < old.commitMillis }

-- A series records a commit once.
def ensureNew (l : Ledger) (m : Measurement) : Except LedgerError Unit :=
  if l.hasRecord m.key m.commit.id then .error (.duplicateCommit m.tool m.commit.id) else .ok ()

/-- The receipt of a measurement, or why it is refused. -/
def receive (l : Ledger) (m : Measurement) : Except LedgerError Receipt := do
  checked m.validate
  l.connected
  l.ensureNew m
  ensureUnit (← l.unit? m.key) m
  return l.receipt m

/-- The ledger with one more measurement, whether it would be received or not. -/
def put : Ledger → Measurement → Ledger
  | resident r, m => resident (r.push m)
  | durable d, m => durable (d.insert m)

theorem appendRecord_eq (l : Ledger) (m : Measurement) :
    l.appendRecord m = (l.receive m).map fun receipt => (l.put m, receipt) := by
  cases l with
  | resident r =>
    have hnew : (resident r).ensureNew m =
        if (r.recordsOf m.key).any (·.commit.id == m.commit.id) then
          .error (.duplicateCommit m.tool m.commit.id) else .ok () := rfl
    unfold appendRecord Resident.appendRecord receive
    rw [hnew]
    cases checked m.validate with
    | error e => rfl
    | ok _ =>
      simp only [Fallible.ok_bind]
      by_cases hdup : (r.recordsOf m.key).any (·.commit.id == m.commit.id) = true
      · rw [if_pos hdup, if_pos hdup]
        rfl
      · rw [if_neg hdup, if_neg hdup]
        show _ = Except.map _ (ensureUnit (r.unit? m.key) m >>= _)
        cases ensureUnit (r.unit? m.key) m <;> rfl
  | durable d =>
    have hnew : (durable d).ensureNew m =
        if (d.rowsOf m.key).any (·.commitId == m.commit.id) then
          .error (.duplicateCommit m.tool m.commit.id) else .ok () := rfl
    unfold appendRecord Durable.appendRecord receive
    rw [hnew]
    cases checked m.validate with
    | error e => rfl
    | ok _ =>
      show _ = Except.map _ (d.connected >>= _)
      simp only [Fallible.ok_bind]
      cases d.connected with
      | error e => rfl
      | ok _ =>
        simp only [Fallible.ok_bind]
        by_cases hdup : (d.rowsOf m.key).any (·.commitId == m.commit.id) = true
        · rw [if_pos hdup, if_pos hdup]
          rfl
        · rw [if_neg hdup, if_neg hdup]
          show _ = Except.map _ (d.unit? m.key >>= _)
          cases d.unit? m.key with
          | error e => rfl
          | ok unit =>
            simp only [Fallible.ok_bind]
            cases ensureUnit unit m <;> rfl

-- What the log of a ledger admits is recorded.
theorem Holds.appendRecord_of_admits {kind : Kind} {l : Ledger} {log : List Measurement}
    {m : Measurement} (h : Holds kind l log) (hm : kind.Admits log m) :
    ∃ receipt, l.appendRecord m = .ok (l.put m, receipt) ∧ Holds kind (l.put m) (log ++ [m]) := by
  obtain ⟨receipt, hreceipt⟩ := hm.exists_receipt
  obtain ⟨l', heq, hholds⟩ := h.appendRecord m
  rw [hreceipt] at heq
  obtain rfl : l.put m = l' := by
    rw [appendRecord_eq] at heq
    obtain ⟨_, -, hpair⟩ := Fallible.map_eq_ok.1 heq
    exact (Prod.mk.inj hpair).1
  exact ⟨receipt, heq, hholds hm.valid⟩

/-- The ledger with some more measurements, one after another. -/
def putAll (l : Ledger) (ms : List Measurement) : Ledger :=
  ms.foldl put l

theorem putAll_append (l : Ledger) (ms ms' : List Measurement) :
    l.putAll (ms ++ ms') = (l.putAll ms).putAll ms' :=
  List.foldl_append

theorem putAll_resident (r : Resident) (ms : List Measurement) :
    (resident r).putAll ms = resident (ms.foldl Resident.push r) := by
  induction ms generalizing r with
  | nil => rfl
  | cons m ms ih => exact ih (r.push m)

theorem putAll_durable (d : Durable) (ms : List Measurement) :
    (durable d).putAll ms = durable (ms.foldl Durable.insert d) := by
  induction ms generalizing d with
  | nil => rfl
  | cons m ms ih => exact ih (d.insert m)

theorem Holds.putAll {kind : Kind} {l : Ledger} {log ms : List Measurement} (h : Holds kind l log)
    (hms : ∀ m ∈ ms, m.Valid) : Holds kind (l.putAll ms) (log ++ ms) := by
  cases h with
  | resident h =>
    rw [putAll_resident]
    exact .resident (h.foldl_push hms)
  | durable h =>
    rw [putAll_durable]
    exact .durable (h.foldl_insert hms)

end Ledger

theorem Resident.records_foldl_push (r : Resident) (ms : List Measurement) :
    (ms.foldl push r).records = r.records ++ ms := by
  induction ms generalizing r with
  | nil => simp
  | cons m ms ih => simp [ih]

theorem Resident.recordsOf_foldl_push (r : Resident) (ms : List Measurement) (key : SeriesKey) :
    (ms.foldl push r).recordsOf key = r.recordsOf key ++ ms.filter (·.key = key) := by
  rw [recordsOf, records_foldl_push, List.filter_append]
  rfl

theorem Durable.rows_foldl_insert (d : Durable) (ms : List Measurement) :
    (ms.foldl insert d).rows = d.rows ++ ms.map .ofMeasurement := by
  induction ms generalizing d with
  | nil => simp
  | cons m ms ih => simp [ih, insert]

theorem Durable.rowsOf_foldl_insert (d : Durable) (ms : List Measurement) (key : SeriesKey) :
    (ms.foldl insert d).rowsOf key =
      d.rowsOf key ++ (ms.filter (·.key = key)).map .ofMeasurement := by
  rw [rowsOf, rows_foldl_insert, List.filter_append, List.filter_map]
  rfl

theorem Durable.isOpen_foldl_insert (d : Durable) (ms : List Measurement) :
    (ms.foldl insert d).isOpen = d.isOpen := by
  induction ms generalizing d with
  | nil => rfl
  | cons m ms ih => exact ih (d.insert m)

namespace Ledger

theorem connected_putAll (l : Ledger) (ms : List Measurement) :
    (l.putAll ms).connected = l.connected := by
  cases l with
  | resident r =>
    rw [putAll_resident]
    rfl
  | durable d =>
    rw [putAll_durable]
    show Durable.connected _ = Durable.connected d
    unfold Durable.connected
    rw [Durable.isOpen_foldl_insert]

theorem hasRecord_putAll (l : Ledger) (ms : List Measurement) (key : SeriesKey)
    (commitId : String) :
    (l.putAll ms).hasRecord key commitId =
      (l.hasRecord key commitId || (ms.filter (·.key = key)).any (·.commit.id == commitId)) := by
  cases l with
  | resident r =>
    rw [putAll_resident]
    show List.any (Resident.recordsOf _ key) _ = _
    rw [Resident.recordsOf_foldl_push, List.any_append]
    rfl
  | durable d =>
    rw [putAll_durable]
    show List.any (Durable.rowsOf _ key) _ = _
    rw [Durable.rowsOf_foldl_insert, List.any_append, List.any_map]
    rfl

-- A series that has a unit keeps it.
theorem unit?_putAll {l : Ledger} {key : SeriesKey} (h : l.unit? key ≠ .ok none)
    (ms : List Measurement) : (l.putAll ms).unit? key = l.unit? key := by
  cases l with
  | resident r =>
    rw [putAll_resident]
    show Except.ok (Resident.unit? _ key) = Except.ok (r.unit? key)
    have hunit : r.unit? key ≠ none := fun hnone => h (congrArg Except.ok hnone)
    unfold Resident.unit? at hunit ⊢
    rw [Resident.recordsOf_foldl_push]
    cases hrecords : r.recordsOf key with
    | nil => exact absurd (by rw [hrecords]; rfl) hunit
    | cons first rest => rfl
  | durable d =>
    rw [putAll_durable]
    show Durable.unit? _ key = d.unit? key
    have hunit : d.unit? key ≠ .ok none := h
    unfold Durable.unit? at hunit ⊢
    rw [Durable.rowsOf_foldl_insert]
    cases hrows : d.rowsOf key with
    | nil => exact absurd (by rw [hrows]; rfl) hunit
    | cons first rest => rfl

/-- `l'` is what `l` may have grown into. -/
def GrowsInto (l l' : Ledger) : Prop := ∃ ms, l' = l.putAll ms

namespace GrowsInto

variable {l l' l'' : Ledger}

theorem refl (l : Ledger) : l.GrowsInto l := ⟨[], rfl⟩

theorem trans (h : l.GrowsInto l') (h' : l'.GrowsInto l'') : l.GrowsInto l'' := by
  obtain ⟨ms, rfl⟩ := h
  obtain ⟨ms', rfl⟩ := h'
  exact ⟨ms ++ ms', (putAll_append l ms ms').symm⟩

end GrowsInto

variable {l l' : Ledger} {m : Measurement}

theorem receive_eq_ok {receipt : Receipt} (h : l.receive m = .ok receipt) :
    m.Valid ∧ l.connected = .ok () := by
  unfold receive at h
  simp only [Fallible.then_eq_ok, checked_eq_ok, Measurement.validate_eq_ok] at h
  exact ⟨h.1, h.2.1⟩

theorem ensureNew_of_hasRecord (h : l.hasRecord m.key m.commit.id = true) :
    l.ensureNew m = .error (.duplicateCommit m.tool m.commit.id) := by
  rw [ensureNew, if_pos h]

/-- A commit that the series has already is a duplicate. -/
theorem receive_of_hasRecord (hvalid : m.Valid) (hconnected : l.connected = .ok ())
    (h : l.hasRecord m.key m.commit.id = true) :
    l.receive m = .error (.duplicateCommit m.tool m.commit.id) := by
  unfold receive
  rw [checked_eq_ok.2 (Measurement.validate_eq_ok.2 hvalid), hconnected, ensureNew_of_hasRecord h]
  rfl

/-- What was recorded is a duplicate from then on. -/
theorem receive_of_putAll {receipt : Receipt} {ms : List Measurement}
    (h : l.receive m = .ok receipt) (hm : m ∈ ms) (hgrows : (l.putAll ms).GrowsInto l') :
    l'.receive m = .error (.duplicateCommit m.tool m.commit.id) := by
  obtain ⟨rest, rfl⟩ := hgrows
  obtain ⟨hvalid, hconnected⟩ := receive_eq_ok h
  rw [← putAll_append]
  apply receive_of_hasRecord hvalid
  · rw [connected_putAll, hconnected]
  · have hmem : m ∈ (ms ++ rest).filter (·.key = m.key) := by simp [hm]
    have hany : ((ms ++ rest).filter (·.key = m.key)).any (·.commit.id == m.commit.id) = true :=
      List.any_eq_true.2 ⟨m, hmem, beq_self_eq_true m.commit.id⟩
    rw [hasRecord_putAll, hany, Bool.or_true]

/-- What is refused stays refused, for the same reason or as a duplicate. -/
theorem receive_of_growsInto {e : LedgerError} (h : l.receive m = .error e)
    (hgrows : l.GrowsInto l') :
    l'.receive m = .error e ∨ l'.receive m = .error (.duplicateCommit m.tool m.commit.id) := by
  obtain ⟨ms, rfl⟩ := hgrows
  unfold receive at h ⊢
  rw [connected_putAll]
  cases hvalid : checked m.validate with
  | error e' =>
    rw [hvalid] at h
    exact .inl h
  | ok _ =>
    cases hconnected : l.connected with
    | error e' =>
      rw [hvalid, hconnected] at h
      exact .inl h
    | ok _ =>
      simp only [hvalid, hconnected, Fallible.ok_bind] at h ⊢
      by_cases hdup : (l.putAll ms).hasRecord m.key m.commit.id = true
      · rw [ensureNew_of_hasRecord hdup]
        exact .inr rfl
      · -- the commit was new before as well, so the unit is why it was refused
        have hnew : (l.putAll ms).ensureNew m = .ok () := by rw [ensureNew, if_neg hdup]
        have hnew' : l.ensureNew m = .ok () := by
          rw [hasRecord_putAll, Bool.or_eq_true, not_or] at hdup
          rw [ensureNew, if_neg hdup.1]
        have hunit : l.unit? m.key ≠ .ok none := by
          intro hnone
          rw [hnew', hnone] at h
          exact nomatch h
        rw [hnew, unit?_putAll hunit]
        rw [hnew'] at h
        left
        cases hread : l.unit? m.key with
        | error e' =>
          rw [hread] at h
          exact h
        | ok unit =>
          rw [hread] at h
          cases hcheck : ensureUnit unit m with
          | error e' =>
            simp only [Fallible.ok_bind, hcheck] at h ⊢
            exact h
          | ok _ =>
            simp only [Fallible.ok_bind, hcheck] at h
            exact nomatch h

end Ledger

end BenchLedger
