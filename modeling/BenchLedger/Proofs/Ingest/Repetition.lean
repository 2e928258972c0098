import BenchLedger.Proofs.Ingest.Batch

/-!
# Importing a dashboard again

A second import of a dashboard changes nothing.  What the first import stored is a duplicate to the
second, and what it refused is refused again, although the ledger has grown in between.
-/

namespace BenchLedger

/-- What may become of a measurement that is handed in again. -/
structure Status.Repeats (first second : Status) : Prop where
  notStored : second.isStored = false
  duplicate : first.isStored = true ∨ first = .duplicate → second = .duplicate

namespace Status.Repeats

theorem of_not_stored {status : Status} (h : status.isStored = false) : status.Repeats status where
  notStored := h
  duplicate hfirst := hfirst.elim (fun hstored => absurd (h.symm.trans hstored) nofun) id

theorem to_duplicate (first : Status) : first.Repeats .duplicate where
  notStored := rfl
  duplicate _ := rfl

end Status.Repeats

structure Outcome.Repeats (first second : Outcome) : Prop where
  benchmark : second.benchmark = first.benchmark
  status : first.status.Repeats second.status

/-- The second report is on the same entries, in the same order. -/
structure Report.Repeats (first second : Report) : Prop where
  tool : second.tool = first.tool
  commitId : second.commitId = first.commitId
  outcomes : List.Forall₂ Outcome.Repeats first.outcomes second.outcomes

structure ImportSummary.Repeats (first second : ImportSummary) : Prop where
  reports : List.Forall₂ Report.Repeats first.reports second.reports
  skipped : second.skipped = first.skipped

-- Entries that are settled beforehand were rejected.
theorem Slot.not_stored_of_settled {seen : List String}
    {entries : List (Except Rejection Measurement)} {o : Outcome}
    (h : settled o ∈ ofEntries seen entries) : o.status.isStored = false := by
  induction entries generalizing seen with
  | nil => simp [ofEntries] at h
  | cons entry entries ih =>
    rw [ofEntries_cons] at h
    cases List.mem_cons.1 h with
    | inr hrest => exact ih hrest
    | inl hslot =>
      cases entry with
      | error e =>
        obtain rfl := settled.inj hslot
        rfl
      | ok m =>
        rw [ofEntry] at hslot
        by_cases hseen : seen.contains m.name = true
        · rw [if_pos hseen] at hslot
          obtain rfl := settled.inj hslot
          rfl
        · rw [if_neg hseen] at hslot
          cases hslot

namespace Service

variable {s s' : Service} {tool : String} {commit : Commit}

/-- A measurement that was handed in before is not stored again. -/
theorem statusOf_repeats {ms : List Measurement} {m : Measurement} (hm : m ∈ ms)
    (hgrows : (s.taking tool commit ms).ledger.GrowsInto s'.ledger) :
    (s.statusOf tool commit m).Repeats (s'.statusOf tool commit m) := by
  by_cases hproper : m.Proper tool commit.id
  · have hfirst := statusOf_of_proper hproper s
    have hsecond := statusOf_of_proper hproper s'
    cases hreceive : s.ledger.receive m with
    | error e =>
      rw [hreceive] at hfirst
      have hbefore : s.ledger.GrowsInto s'.ledger :=
        Ledger.GrowsInto.trans ⟨s.storedOf tool commit ms, rfl⟩ hgrows
      -- refused as it was, or by now a duplicate
      cases Ledger.receive_of_growsInto hreceive hbefore with
      | inl hsame =>
        rw [hsame] at hsecond
        rw [hfirst, hsecond]
        exact .of_not_stored (isStored_refusal e)
      | inr hduplicate =>
        rw [hduplicate] at hsecond
        rw [hsecond]
        exact .to_duplicate _
    | ok receipt =>
      rw [hreceive] at hfirst
      have hstored : (s.statusOf tool commit m).isStored = true := by
        rw [hfirst]
        exact (judge_spec _ _ _ _).1
      have hmem : m ∈ s.storedOf tool commit ms := List.mem_filter.2 ⟨hm, hstored⟩
      rw [Ledger.receive_of_putAll hreceive hmem hgrows] at hsecond
      rw [hsecond]
      exact .to_duplicate _
  · obtain ⟨reason, hrejected⟩ := ingestMeasurement_of_not_proper hproper
    rw [statusOf, statusOf, hrejected, hrejected]
    exact .of_not_stored rfl

-- Where nothing would be stored, nothing changes.
theorem taking_of_not_stored {ms : List Measurement}
    (h : ∀ m ∈ ms, (s.statusOf tool commit m).isStored = false) : s.taking tool commit ms = s := by
  have hstored : s.storedOf tool commit ms = [] := by
    apply List.filter_eq_nil_iff.2
    intro m hm
    rw [h m hm]
    decide
  have halerts : s.alertsOf tool commit ms = [] := by
    apply List.flatMap_eq_nil_iff.2
    intro m hm
    exact Status.alerts_of_not_stored (h m hm) commit.url
  rw [taking, hstored, halerts, List.append_nil]
  rfl

theorem ingestEntries_repeats {entries : List (Except Rejection Measurement)}
    (hgrows : (s.ingestEntries tool commit entries).2.ledger.GrowsInto s'.ledger) :
    (s.ingestEntries tool commit entries).1.Repeats (s'.ingestEntries tool commit entries).1 ∧
      (s'.ingestEntries tool commit entries).2.ledger = s'.ledger ∧
      (s'.ingestEntries tool commit entries).2.alerts = s'.alerts := by
  rw [ingestEntries_eq] at hgrows
  rw [ingestEntries_eq, ingestEntries_eq]
  have hstatus : ∀ m ∈ Slot.pendingOf [] entries,
      (s.statusOf tool commit m).Repeats (s'.statusOf tool commit m) :=
    fun m hm => statusOf_repeats hm hgrows
  have hunchanged : s'.taking tool commit (Slot.pendingOf [] entries) = s' :=
    taking_of_not_stored fun m hm => (hstatus m hm).notStored
  refine ⟨⟨rfl, rfl, ?_⟩, ?_, ?_⟩
  · show List.Forall₂ _ (List.map _ _) (List.map _ _)
    rw [List.forall₂_map_left_iff, List.forall₂_map_right_iff, List.forall₂_same]
    intro slot hslot
    cases slot with
    | settled o => exact ⟨rfl, .of_not_stored (Slot.not_stored_of_settled hslot)⟩
    | pending m => exact ⟨rfl, hstatus m (List.mem_filterMap.2 ⟨_, hslot, rfl⟩)⟩
  · show (s'.taking tool commit (Slot.pendingOf [] entries)).ledger = s'.ledger
    rw [hunchanged]
  · show (s'.taking tool commit (Slot.pendingOf [] entries)).alerts = s'.alerts
    rw [hunchanged]

theorem growsInto_ingestEntries (s : Service) (tool : String) (commit : Commit)
    (entries : List (Except Rejection Measurement)) :
    s.ledger.GrowsInto (s.ingestEntries tool commit entries).2.ledger := by
  rw [ingestEntries_eq]
  exact ⟨s.storedOf tool commit (Slot.pendingOf [] entries), rfl⟩

theorem growsInto_importRuns (s : Service) (runs : List (String × Run)) :
    s.ledger.GrowsInto (s.importRuns runs).2.ledger := by
  induction runs generalizing s with
  | nil => exact Ledger.GrowsInto.refl s.ledger
  | cons entry runs ih =>
    obtain ⟨suite, run⟩ := entry
    cases h : run.validateHeader with
    | error e =>
      rw [importRuns_cons_error h]
      exact ih s
    | ok _ =>
      rw [importRuns_cons_ok h]
      exact (s.growsInto_ingestEntries run.tool run.commit run.entries).trans (ih _)

/-- Runs that are imported into what a ledger became after them leave it as it is. -/
theorem importRuns_repeats {runs : List (String × Run)}
    (hgrows : (s.importRuns runs).2.ledger.GrowsInto s'.ledger) :
    (s.importRuns runs).1.Repeats (s'.importRuns runs).1 ∧
      (s'.importRuns runs).2.ledger = s'.ledger ∧ (s'.importRuns runs).2.alerts = s'.alerts := by
  induction runs generalizing s s' with
  | nil => exact ⟨⟨.nil, rfl⟩, rfl, rfl⟩
  | cons entry runs ih =>
    obtain ⟨suite, run⟩ := entry
    cases h : run.validateHeader with
    | error e =>
      rw [importRuns_cons_error h] at hgrows
      rw [importRuns_cons_error h, importRuns_cons_error h]
      obtain ⟨hsummary, hledger, halerts⟩ := ih hgrows
      exact ⟨⟨hsummary.reports, congrArg (List.cons _) hsummary.skipped⟩, hledger, halerts⟩
    | ok _ =>
      rw [importRuns_cons_ok h] at hgrows
      rw [importRuns_cons_ok h, importRuns_cons_ok h]
      dsimp only at hgrows ⊢
      have hrun : (s.ingestEntries run.tool run.commit run.entries).2.ledger.GrowsInto s'.ledger :=
        (growsInto_importRuns _ runs).trans hgrows
      obtain ⟨hreport, hledger, halerts⟩ := ingestEntries_repeats hrun
      -- the run left the ledger as it was, so the rest meets what it has grown into as well
      rw [← hledger] at hgrows
      obtain ⟨hsummary, hledgers, halertss⟩ := ih hgrows
      exact ⟨⟨.cons hreport hsummary.reports, hsummary.skipped⟩, hledgers.trans hledger,
        halertss.trans halerts⟩

/-- A dashboard that is imported twice leaves the ledger and the alerts as it did the first time.
Nothing is stored again: what was stored or a duplicate is a duplicate, and the same runs are
skipped for the same reasons. -/
theorem importDashboard_twice (s : Service) (d : Dashboard) :
    let first := s.importDashboard d
    let second := first.2.importDashboard d
    first.1.Repeats second.1 ∧ second.2.ledger = first.2.ledger ∧
      second.2.alerts = first.2.alerts :=
  importRuns_repeats (Ledger.GrowsInto.refl (s.importDashboard d).2.ledger)

end Service

end BenchLedger
