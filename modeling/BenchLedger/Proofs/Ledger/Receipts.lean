import BenchLedger.Proofs.Ingest.Reachable

/-!
# Receipts

The receipt of a record tells the length of its series and whether the series had a record of a
later commit already.  A ledger in memory compares commits by their full time, so that its receipts
tell what reading the series tells.  A durable ledger compares whole milliseconds, while it reads
its series in the order of the full time: what happens within a millisecond or around a leap second
can differ.  It compares the times that commits came with, while it reads those of their texts: so
can what happens to commits whose offset is no whole number of minutes.
-/

namespace BenchLedger

namespace Instant

variable {a b : Instant}

theorem millis_lt_iff (ha : a.OnMillisecond) (hb : b.OnMillisecond) :
    a.millis < b.millis ↔ a < b := by
  obtain ⟨hananos, hawhole⟩ := ha
  obtain ⟨hbnanos, hbwhole⟩ := hb
  rw [lt_def]
  unfold millis ticks
  omega

-- A later instant whose milliseconds are not later is of the same one or behind a leap second.
theorem shares_millis_of_lt (h : a < b) (hmillis : ¬a.millis < b.millis) :
    (a.seconds = b.seconds ∧ a.nanos / 1000000 = b.nanos / 1000000) ∨
      (b.seconds = a.seconds + 1 ∧ 1000000000 ≤ a.nanos) := by
  have hananos := a.nanos_lt
  have hbnanos := b.nanos_lt
  rw [lt_def] at h
  unfold millis at hmillis
  unfold ticks at h
  omega

-- Milliseconds that are later without the instant being later are those of a leap second.
theorem leap_of_millis_lt (h : ¬a < b) (hmillis : a.millis < b.millis) :
    a.seconds = b.seconds + 1 ∧ 1000000000 ≤ b.nanos := by
  have hananos := a.nanos_lt
  have hbnanos := b.nanos_lt
  rw [lt_def] at h
  unfold millis at hmillis
  unfold ticks at h
  omega

end Instant

/-- The receipt of `m`, which made `l'` of `l`, tells what reading its series tells: the length, and
that another record is last because it is of a later commit. -/
def Receipt.Exact (receipt : Receipt) (l l' : Ledger) (m : Measurement) : Prop :=
  ∃ before after, l.series m.key = .ok before ∧ l'.series m.key = .ok after ∧
    receipt.seriesLength = after.size ∧
    (receipt.outOfOrder = true ↔ after.latest?.map (·.commit.id) ≠ some m.commit.id) ∧
    (receipt.outOfOrder = true ↔ ∃ old ∈ before.records, m.instant < old.instant)

namespace Ledger

variable {kind : Kind} {l l' : Ledger} {log : List Measurement} {m : Measurement}
  {receipt : Receipt} {key : SeriesKey}

/-- `m` is of an earlier commit than `old`, as a ledger of that kind compares them for a receipt. -/
def Kind.Precedes : Kind → Measurement → Measurement → Prop
  | resident, m, old => m.instant < old.instant
  | durable, m, old => m.instant.millis < old.instant.millis

/-- Some record of the series of `m` stands so to it. -/
def Meets (log : List Measurement) (m : Measurement) (R : Measurement → Prop) : Prop :=
  ∃ old ∈ log, old.key = m.key ∧ R old

theorem Meets.congr {R R' : Measurement → Prop}
    (h : ∀ old ∈ log, old.key = m.key → (R old ↔ R' old)) : Meets log m R ↔ Meets log m R' :=
  exists_congr fun old => and_congr_right fun hold => and_congr_right fun hkey => h old hold hkey

/-- All records of the series of `m` can be read. -/
def Kind.Readable (kind : Kind) (log : List Measurement) (m : Measurement) : Prop :=
  ∀ old ∈ log, old.key = m.key → ¬kind.Loses old

theorem Kind.outOfOrder_iff (h : kind.receive log m = .ok receipt) :
    receipt.outOfOrder = true ↔ Meets log m (kind.Precedes m) := by
  simp only [Kind.receive, Fallible.then_eq_ok, Fallible.check_eq_ok] at h
  obtain ⟨-, -, -, hreceipt⟩ := h
  obtain rfl := Except.ok.inj hreceipt
  simp only [Meets, List.any_eq_true, List.mem_filter, decide_eq_true_eq, and_assoc]
  cases kind with
  | resident => simp only [decide_eq_true_eq, Kind.Precedes]
  | durable => simp only [decide_eq_true_eq, Kind.Precedes]

-- Of commits that are given back as they came the later one has the later place.
theorem Kind.place_lt_place {a b : Measurement} (ha : kind.KeepsCommit a.commit)
    (hb : kind.KeepsCommit b.commit) : kind.place a < kind.place b ↔ a.instant < b.instant := by
  rw [← not_le, place_le_place (instant_keep hb) (instant_keep ha), Instant.le_def, Instant.lt_def,
    Int.not_le]

namespace Holds

theorem exists_series_iff (h : Holds kind l log) :
    (∃ s, l.series key = .ok s) ↔ ∀ a ∈ log, a.key = key → ¬kind.Loses a := by
  constructor
  · rintro ⟨s, hs⟩
    exact (h.shows_of_series hs).2.2
  · intro hkept
    obtain ⟨s, hs, -⟩ := h.series_of_kept hkept
    exact ⟨s, hs⟩

-- A new record enters its series behind those whose places are not later.
theorem exists_insert (h : Holds kind l log) (h' : Holds kind l' (log ++ [m]))
    {before after : Series} (hbefore : l.series m.key = .ok before)
    (hafter : l'.series m.key = .ok after) :
    ∃ front back, (front ++ back).Perm (log.filter (·.key = m.key)) ∧
      after.records = (front ++ m :: back).map kind.keep ∧
      (∀ a ∈ front, ¬kind.place m < kind.place a) ∧ ∀ a ∈ back, kind.place m < kind.place a := by
  obtain ⟨hkey, ⟨sorted, hsorted, -⟩, -⟩ := h.shows_of_series hbefore
  obtain ⟨hkey', ⟨sorted', hsorted', hrecords'⟩, -⟩ := h'.shows_of_series hafter
  rw [hkey] at hsorted
  rw [hkey', List.filter_append, List.filter_cons_of_pos (by simp), List.filter_nil] at hsorted'
  obtain ⟨front, back, rfl, hfront, hback, hinsert⟩ := hsorted.exists_insert m
  refine ⟨front, back, hsorted.perm, ?_, fun a ha => not_lt.2 (hfront a ha), fun a ha => ?_⟩
  · rw [hrecords', hsorted'.unique hinsert]
  · exact not_le.1 (hback a ha)

end Holds

namespace Records

-- After a record that is let in, another one is last iff one has a later place.
theorem latest?_ne_iff (h : Records kind l log) (h' : Records kind l' (log ++ [m]))
    {before after : Series} (hbefore : l.series m.key = .ok before)
    (hafter : l'.series m.key = .ok after) :
    after.latest?.map (·.commit.id) ≠ some m.commit.id ↔
      Meets log m (kind.place m < kind.place ·) := by
  obtain ⟨front, back, hperm, hinsert, hfront, hback⟩ :=
    h.holds.exists_insert h'.holds hbefore hafter
  have hmem : ∀ a, a ∈ front ++ back ↔ a ∈ log ∧ a.key = m.key := by
    intro a
    rw [hperm.mem_iff, List.mem_filter, decide_eq_true_eq]
  unfold Series.latest?
  rw [hinsert]
  cases back using List.reverseRecOn with
  | nil =>
    have hnone : ¬Meets log m (kind.place m < kind.place ·) := by
      rintro ⟨old, hold, hkey, hlater⟩
      have hold := (hmem old).2 ⟨hold, hkey⟩
      rw [List.append_nil] at hold
      exact hfront old hold hlater
    simp [hnone]
  | append_singleton back last =>
    obtain ⟨hlast, hkey⟩ := (hmem last).1 (by simp)
    have hlater : Meets log m (kind.place m < kind.place ·) :=
      ⟨last, hlast, hkey, hback last (by simp)⟩
    have hid : last.commit.id ≠ m.commit.id :=
      (List.pairwise_append.1 h'.coherent.commits).2.2 last hlast m List.mem_cons_self hkey
    have hgetLast : ((front ++ m :: (back ++ [last])).map kind.keep).getLast? =
        some (kind.keep last) := by
      rw [← List.cons_append, ← List.append_assoc, List.map_append, List.map_singleton,
        List.getLast?_concat]
    simp only [hgetLast, Option.map_some, Kind.commitId_keep, ne_eq, Option.some.injEq, hid,
      not_false_eq_true, hlater]

theorem exists_later_iff (h : Records kind l log) {before : Series}
    (hbefore : l.series m.key = .ok before) :
    (∃ old ∈ before.records, m.instant < old.instant) ↔
      Meets log m fun old => m.instant < (kind.keep old).instant := by
  constructor
  · rintro ⟨old, hold, hlater⟩
    obtain ⟨a, ha, hkey, rfl⟩ := (h.holds.mem_series_iff hbefore).1 hold
    exact ⟨a, ha, hkey, hlater⟩
  · rintro ⟨old, hold, hkey, hlater⟩
    exact ⟨_, (h.holds.mem_series_iff hbefore).2 ⟨old, hold, hkey, rfl⟩, hlater⟩

variable (h : Records kind l log) (hok : l.appendRecord m = .ok (l', receipt))

include h hok

theorem seriesLength_eq {after : Series} (hafter : l'.series m.key = .ok after) :
    receipt.seriesLength = after.size := by
  obtain ⟨-, -, hlength⟩ := Kind.receive_eq_ok (h.holds.appendRecord_ok hok).2
  rw [hlength, Series.size, ((h.appendRecord_ok hok).holds.series_ok hafter).length_eq]
  simp

theorem outOfOrder_iff : receipt.outOfOrder = true ↔ Meets log m (kind.Precedes m) :=
  Kind.outOfOrder_iff (h.holds.appendRecord_ok hok).2

theorem exact_iff :
    receipt.Exact l l' m ↔ kind.Readable (log ++ [m]) m ∧
      (Meets log m (kind.Precedes m) ↔ Meets log m (kind.place m < kind.place ·)) ∧
      (Meets log m (kind.Precedes m) ↔
        Meets log m fun old => m.instant < (kind.keep old).instant) := by
  have h' := h.appendRecord_ok hok
  have hflag := h.outOfOrder_iff hok
  constructor
  · rintro ⟨before, after, hbefore, hafter, -, hlast, hlater⟩
    refine ⟨h'.holds.exists_series_iff.1 ⟨after, hafter⟩, ?_, ?_⟩
    · exact hflag.symm.trans (hlast.trans (h.latest?_ne_iff h' hbefore hafter))
    · exact hflag.symm.trans (hlater.trans (h.exists_later_iff hbefore))
  · rintro ⟨hreadable, hlast, hlater⟩
    obtain ⟨before, hbefore⟩ := h.holds.exists_series_iff.2 fun a ha =>
      hreadable a (List.mem_append_left [m] ha)
    obtain ⟨after, hafter⟩ := h'.holds.exists_series_iff.2 hreadable
    refine ⟨before, after, hbefore, hafter, h.seriesLength_eq hok hafter, ?_, ?_⟩
    · exact hflag.trans (hlast.trans (h.latest?_ne_iff h' hbefore hafter).symm)
    · exact hflag.trans (hlater.trans (h.exists_later_iff hbefore).symm)

/-- Where commits are given back as they came, the ledger's comparison is all that matters. -/
theorem exact_iff_of_keepsCommit
    (hcommits : ∀ old ∈ log ++ [m], old.key = m.key → kind.KeepsCommit old.commit) :
    receipt.Exact l l' m ↔ kind.Readable (log ++ [m]) m ∧
      (Meets log m (kind.Precedes m) ↔ Meets log m (m.instant < ·.instant)) := by
  have hm := hcommits m (List.mem_append_right log List.mem_cons_self) rfl
  have hold := fun old (h : old ∈ log) => hcommits old (List.mem_append_left [m] h)
  have hplace : Meets log m (kind.place m < kind.place ·) ↔ Meets log m (m.instant < ·.instant) :=
    Meets.congr fun old hmem hkey => Kind.place_lt_place hm (hold old hmem hkey)
  have hkeep : (Meets log m fun old => m.instant < (kind.keep old).instant) ↔
      Meets log m (m.instant < ·.instant) :=
    Meets.congr fun old hmem hkey => by rw [Kind.instant_keep (hold old hmem hkey)]
  rw [h.exact_iff hok, hplace, hkeep, and_self_iff]

end Records

/-- In memory every receipt is exact. -/
theorem receipt_exact_of_resident (h : Reachable .resident l)
    (hok : l.appendRecord m = .ok (l', receipt)) : receipt.Exact l l' m := by
  obtain ⟨log, hrecords⟩ := h.exists_log
  refine (hrecords.exact_iff_of_keepsCommit hok fun _ _ _ => trivial).2 ⟨?_, Iff.rfl⟩
  exact fun old _ _ => Kind.not_loses_resident old

/-- Where all times are on whole milliseconds, those of durable ledgers are exact too. -/
theorem Records.receipt_exact_of_onMillisecond (h : Records kind l log)
    (hok : l.appendRecord m = .ok (l', receipt))
    (hcommits : ∀ old ∈ log ++ [m], old.key = m.key →
      kind.KeepsCommit old.commit ∧ old.instant.OnMillisecond ∧ old.recordedAt.OnMillisecond) :
    receipt.Exact l l' m := by
  rw [h.exact_iff_of_keepsCommit hok fun old hold hkey => (hcommits old hold hkey).1]
  constructor
  · intro old hold hkey
    obtain ⟨hcommit, -, hrecorded⟩ := hcommits old hold hkey
    exact Kind.not_loses hcommit.reads hrecorded
  · refine Meets.congr fun old hold hkey => ?_
    have hm := (hcommits m (List.mem_append_right log List.mem_cons_self) rfl).2.1
    cases kind with
    | resident => exact Iff.rfl
    | durable =>
      exact Instant.millis_lt_iff hm (hcommits old (List.mem_append_left [m] hold) hkey).2.1

/-- Where the receipt of a durable ledger takes a record wrongly to be in order, all later commits
are within its millisecond or follow its leap second; where it is wrongly taken to be out of order,
it follows a leap second itself. -/
theorem Records.outOfOrder_durable (h : Records .durable l log)
    (hok : l.appendRecord m = .ok (l', receipt)) :
    (receipt.outOfOrder = false →
      ∀ old ∈ log, old.key = m.key → m.instant < old.instant →
        (m.instant.seconds = old.instant.seconds ∧
          m.instant.nanos / 1000000 = old.instant.nanos / 1000000) ∨
        (old.instant.seconds = m.instant.seconds + 1 ∧ 1000000000 ≤ m.instant.nanos)) ∧
    (receipt.outOfOrder = true → ¬Meets log m (m.instant < ·.instant) →
      Meets log m fun old =>
        m.instant.seconds = old.instant.seconds + 1 ∧ 1000000000 ≤ old.instant.nanos) := by
  have hflag := h.outOfOrder_iff hok
  constructor
  · intro hfalse old hold hkey hlater
    refine Instant.shares_millis_of_lt hlater fun hmillis => ?_
    rw [hflag.2 ⟨old, hold, hkey, hmillis⟩] at hfalse
    contradiction
  · intro htrue hnone
    obtain ⟨old, hold, hkey, hmillis⟩ := hflag.1 htrue
    refine ⟨old, hold, hkey, Instant.leap_of_millis_lt (fun hlater => ?_) hmillis⟩
    exact hnone ⟨old, hold, hkey, hlater⟩

/-- What the receipt of an accepted record tells, and when it is exact: the series can be read, and
what the ledger's receipts compare finds a later commit iff the record is not put last and iff a
commit is read that is later.  If the commits of the series are given back as they came, that is iff
there is a later one. -/
theorem receipt_exact_iff (h : Reachable kind l) (hok : l.appendRecord m = .ok (l', receipt)) :
    (∀ after, l'.series m.key = .ok after → receipt.seriesLength = after.size) ∧
    ∃ log, Records kind l log ∧
      (receipt.outOfOrder = true ↔ Meets log m (kind.Precedes m)) ∧
      (receipt.Exact l l' m ↔ kind.Readable (log ++ [m]) m ∧
        (Meets log m (kind.Precedes m) ↔ Meets log m (kind.place m < kind.place ·)) ∧
        (Meets log m (kind.Precedes m) ↔
          Meets log m fun old => m.instant < (kind.keep old).instant)) ∧
      ((∀ old ∈ log ++ [m], old.key = m.key → kind.KeepsCommit old.commit) →
        (receipt.Exact l l' m ↔ kind.Readable (log ++ [m]) m ∧
          (Meets log m (kind.Precedes m) ↔ Meets log m (m.instant < ·.instant)))) := by
  obtain ⟨log, hrecords⟩ := h.exists_log
  exact ⟨fun after hafter => hrecords.seriesLength_eq hok hafter, log, hrecords,
    hrecords.outOfOrder_iff hok, hrecords.exact_iff hok, hrecords.exact_iff_of_keepsCommit hok⟩

/-- A record at a commit of that many nanoseconds after the start of 1970. -/
def recordAtNanos (commitId : String) (nanos : Nat) : Measurement :=
  { recordAt commitId with
    commit :=
      { (recordAt commitId).commit with
        timestamp := .utc ((Instant.of? 0 nanos).getD .epoch) } }

-- A durable ledger takes the earlier of two records within a millisecond for one in order.
theorem receipt_exact_iff_withinMillisecond :
    ∃ l' receipt,
      (Kind.durable.empty.after (.appendRecord (recordAtNanos "c1" 200000))).appendRecord
        (recordAtNanos "c2" 100000) = .ok (l', receipt) ∧
      ¬receipt.Exact (Kind.durable.empty.after (.appendRecord (recordAtNanos "c1" 200000))) l'
        (recordAtNanos "c2" 100000) := by
  have hreachable : Reachable .durable
      (Kind.durable.empty.after (.appendRecord (recordAtNanos "c1" 200000))) :=
    Reachable.empty.call _
  have hflag : ((Kind.durable.empty.after (.appendRecord (recordAtNanos "c1" 200000))).appendRecord
      (recordAtNanos "c2" 100000)).toOption.map (·.2.outOfOrder) = some false := by
    decide +kernel
  have hlater : ((Kind.durable.empty.after (.appendRecord (recordAtNanos "c1" 200000))).series
      ⟨"cargo", "x"⟩).toOption.any (·.records.any fun old =>
        decide ((recordAtNanos "c2" 100000).instant < old.instant)) = true := by
    decide +kernel
  generalize Kind.durable.empty.after (.appendRecord (recordAtNanos "c1" 200000)) = l at *
  cases hok : l.appendRecord (recordAtNanos "c2" 100000) with
  | error e =>
    rw [hok] at hflag
    contradiction
  | ok result =>
    obtain ⟨l', receipt⟩ := result
    rw [hok] at hflag
    obtain ⟨-, log, hrecords, hprecedes, hexact, -⟩ := receipt_exact_iff hreachable hok
    refine ⟨l', receipt, rfl, fun h => ?_⟩
    have ⟨before, _, hbefore, _⟩ := h
    have hseries : l.series ⟨"cargo", "x"⟩ = .ok before := hbefore
    rw [hseries] at hlater
    obtain ⟨old, hold, hnewer⟩ := List.any_eq_true.1 hlater
    have hmeets := (hrecords.exists_later_iff hbefore).1 ⟨old, hold, of_decide_eq_true hnewer⟩
    have htrue : receipt.outOfOrder = true := hprecedes.2 ((hexact.1 h).2.2.2 hmeets)
    have hfalse : receipt.outOfOrder = false := Option.some.inj hflag
    rw [hfalse] at htrue
    contradiction

end Ledger

end BenchLedger
