import BenchLedger.Proofs.Ledger.Representation

/-!
# A ledger reads as the log of its calls

After any calls, whatever their arguments, a ledger of either kind answers from its log: a series
holds the log's records of that tool and name, stably sorted by the full time of their commits,
and a tool has the names that the log has.  A durable ledger keeps commits as texts, in which an
offset has whole minutes.  A commit whose offset has not is read back with another time, and seldom
not at all.  Such a record cannot be read, nor one that was reported in a leap second at the end of
the calendar, and with it none of its series.
-/

namespace BenchLedger.Ledger

variable {kind : Kind} {l : Ledger} {log : List Measurement}

/-- What a ledger of that kind answers about series and names if it holds the log. -/
structure Kind.ReadsAs (kind : Kind) (l : Ledger) (log : List Measurement) : Prop where
  -- Every record can be read, with the commit that it came with: the series is that of the log.
  series : ∀ key, (∀ m ∈ log, m.key = key → ¬kind.Loses m ∧ kind.KeepsCommit m.commit) →
    ∃ s kept, l.series key = .ok s ∧ s.key = key ∧
      List.Forall₂ kind.Keeps (log.filter (·.key = key)) kept ∧
      Order.StablySorted Measurement.instant kept s.records
  -- Every record can be read, some with a commit of another time.
  altered : ∀ key, (∀ m ∈ log, m.key = key → ¬kind.Loses m) →
    ∃ s, l.series key = .ok s ∧ s.key = key ∧ kind.Shows log s ∧
      ∀ m ∈ log, m.key = key → ¬kind.KeepsCommit m.commit →
        ∃ a ∈ s.records, a.commit.id = m.commit.id ∧ a.instant ≠ m.instant
  -- Some record cannot be read: nor can the series.
  lost : ∀ key, (∃ m ∈ log, m.key = key ∧ kind.Loses m) →
    ∃ m ∈ log, m.key = key ∧
      ∃ what, kind.loss? m = some what ∧ l.series key = .error (.corrupt what)
  names : ∀ tool, ∃ names, l.names tool = .ok names ∧
    Order.Enumerates (fun name => ∃ m ∈ log, m.tool = tool ∧ m.name = name) names

theorem Holds.readsAs (h : Holds kind l log) : kind.ReadsAs l log where
  series key hkept := by
    obtain ⟨s, hs, hkey, hsorted⟩ :=
      h.series_sorted (fun m hm hkey => (hkept m hm hkey).1) fun m hm hkey => (hkept m hm hkey).2
    refine ⟨s, _, hs, hkey, ?_, hsorted⟩
    rw [List.forall₂_map_right_iff, List.forall₂_same]
    intro m hm
    obtain ⟨hlog, hmkey⟩ := List.mem_filter.1 hm
    obtain ⟨hread, hcommit⟩ := hkept m hlog (of_decide_eq_true hmkey)
    exact Kind.keeps_keep (h.valid m hlog) hcommit hread
  altered key hkept := by
    obtain ⟨s, hs, rfl, hshows⟩ := h.series_of_kept hkept
    refine ⟨s, hs, rfl, hshows, fun m hm hkey hcommit => ?_⟩
    have hmem : kind.keep m ∈ s.records :=
      hshows.perm.mem_iff.2 (List.mem_map_of_mem (List.mem_filter.2 ⟨hm, decide_eq_true hkey⟩))
    have hread := Kind.readsCommit_of_not_loses (hkept m hm hkey)
    exact ⟨_, hmem, kind.commitId_keep m, Kind.instant_keep_ne hread hcommit⟩
  lost := by
    rintro _ ⟨m, hm, rfl, hlost⟩
    exact h.series_of_lost hm hlost
  names := h.names

/-- Reading a ledger after any calls is reading their log.  A failed call changes no answer, and
a batch that is accepted adds all of its records. -/
theorem run_readsAs_log (kind : Kind) (calls : List Call) :
    kind.ReadsAs (kind.empty.run calls) (kind.empty.log calls) ∧
    (∀ c e, (kind.empty.run calls).perform c = .error e →
      ∀ q, (kind.empty.run (calls ++ [c])).answer q = (kind.empty.run calls).answer q) ∧
    (∀ tool commit records l,
      (kind.empty.run calls).append tool commit records = .ok l →
        kind.empty.run (calls ++ [.append tool commit records]) = l ∧
        kind.empty.log (calls ++ [.append tool commit records]) =
          kind.empty.log calls ++ records) := by
  have h := (Holds.empty kind).run calls
  rw [List.nil_append] at h
  have hsnoc (c : Call) :
      kind.empty.run (calls ++ [c]) = (kind.empty.run calls).after c := by
    simp [Ledger.run]
  refine ⟨h.readsAs, ?_, ?_⟩
  · intro c e hfail q
    rw [hsnoc, after_of_error hfail]
  · intro tool commit records l hok
    obtain ⟨hafter, haccepted⟩ := accepted_of_ok (c := .append tool commit records) hok
    refine ⟨(hsnoc _).trans hafter, ?_⟩
    rw [log_append, Ledger.log, haccepted, Ledger.log, List.append_nil]
    rfl

/-- A record that was reported in a leap second at the end of the calendar. -/
def endOfCalendar : Measurement :=
  { recordAt "c1" with
    recordedAt := ⟨Time.lastSecond, 1000000000, by decide, by decide⟩ }

theorem valid_endOfCalendar : endOfCalendar.Valid := by
  constructor <;> decide +kernel

-- A durable ledger accepts that record, and its series is lost.
theorem run_readsAs_log_endOfCalendar :
    Kind.durable.empty.log [.appendRecord endOfCalendar] = [endOfCalendar] ∧
    (Kind.durable.empty.run [.appendRecord endOfCalendar]).series ⟨"cargo", "x"⟩ =
      .error (.corrupt "recorded_at 8210266876800000") := by
  have haccept : ∃ l, Kind.durable.empty.perform (.appendRecord endOfCalendar) = .ok l := by
    obtain ⟨l, heq, -⟩ := (Holds.empty .durable).appendRecord endOfCalendar
    refine ⟨l, ?_⟩
    rw [perform, heq, Kind.receive, Measurement.validate_eq_ok.2 valid_endOfCalendar]
    rfl
  have hlog : Kind.durable.empty.log [.appendRecord endOfCalendar] = [endOfCalendar] := by
    obtain ⟨l, hl⟩ := haccept
    rw [Ledger.log, (accepted_of_ok hl).2]
    rfl
  have hmem : endOfCalendar ∈ Kind.durable.empty.log [.appendRecord endOfCalendar] := by
    rw [hlog]
    exact List.mem_singleton_self _
  have hloss : Kind.durable.loss? endOfCalendar = some "recorded_at 8210266876800000" := by
    decide +kernel
  have hlost : Kind.durable.Loses endOfCalendar := by
    rw [Kind.Loses, hloss]
    exact Option.some_ne_none _
  refine ⟨hlog, ?_⟩
  obtain ⟨m, hm, -, what, hwhat, hseries⟩ :=
    (run_readsAs_log .durable [.appendRecord endOfCalendar]).1.lost ⟨"cargo", "x"⟩
      ⟨endOfCalendar, hmem, rfl, hlost⟩
  rw [hlog, List.mem_singleton] at hm
  rw [hm, hloss] at hwhat
  rw [hseries, ← Option.some.inj hwhat]

end BenchLedger.Ledger
