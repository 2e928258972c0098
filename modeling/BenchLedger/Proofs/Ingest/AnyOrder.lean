import BenchLedger.Proofs.Ingest.Batch
import BenchLedger.Proofs.Ledger.Calls

/-!
# The order within a run

The pending measurements of a run may be recorded in any order, each outcome being put at the place
of its entry.  The report is the same, no place stays empty, and the ledger answers every question
as it would if the order of the run had been kept.
-/

namespace BenchLedger

namespace Slot

/-- The outcome that stands before anything is recorded. -/
def outcome? : Slot → Option Outcome
  | settled o => some o
  | pending _ => none

/-- The pending measurements, each with the number of its place. -/
def placed (slots : List Slot) : List (Nat × Measurement) :=
  slots.zipIdx.filterMap fun (slot, i) => slot.pending?.map (i, ·)

/-- Puts outcomes at their places, one after another. -/
def putAt (places : List (Option Outcome)) (results : List (Nat × Outcome)) :
    List (Option Outcome) :=
  results.foldl (fun places (i, o) => places.set i (some o)) places

theorem mem_placed {slots : List Slot} {i : Nat} {m : Measurement} :
    (i, m) ∈ placed slots ↔ slots[i]? = some (pending m) := by
  unfold placed
  constructor
  · intro h
    obtain ⟨⟨slot, j⟩, hmem, hplace⟩ := List.mem_filterMap.1 h
    have hslot := List.mem_zipIdx_iff_getElem?.1 hmem
    cases slot with
    | settled o => exact nomatch hplace
    | pending m' =>
      obtain ⟨rfl, rfl⟩ := Prod.mk.inj (Option.some.inj hplace)
      exact hslot
  · intro h
    exact List.mem_filterMap.2 ⟨(pending m, i), List.mem_zipIdx_iff_getElem?.2 h, rfl⟩

theorem map_snd_placed (slots : List Slot) :
    (placed slots).map (·.2) = slots.filterMap pending? := by
  have hslots : slots.zipIdx.map (·.1) = slots := List.zipIdx_map_fst 0 slots
  have hpending : (placed slots).map (·.2) = (slots.zipIdx.map (·.1)).filterMap pending? := by
    rw [placed, List.map_filterMap, List.filterMap_map]
    apply List.filterMap_congr
    intro place _
    simp [Option.map_map, Function.comp_def]
  rw [hpending, hslots]

theorem perm_pendingOf {entries : List (Except Rejection Measurement)}
    {order : List (Nat × Measurement)} (h : order.Perm (placed (ofEntries [] entries))) :
    (order.map (·.2)).Perm (pendingOf [] entries) ∧ ((order.map (·.2)).map (·.name)).Nodup := by
  have hpending : (order.map (·.2)).Perm (pendingOf [] entries) := by
    rw [pendingOf, ← map_snd_placed]
    exact h.map _
  exact ⟨hpending, (hpending.map _).nodup_iff.2 (nodup_pendingOf [] entries).1⟩

/-- Outcomes that agree with the wanted ones, and are put wherever something else stands, leave the
wanted ones. -/
theorem putAt_eq {places wanted : List (Option Outcome)} {results : List (Nat × Outcome)}
    (hlength : places.length = wanted.length)
    (hresults : ∀ result ∈ results, wanted[result.1]? = some (some result.2))
    (hrest : ∀ i : Nat, places[i]? ≠ wanted[i]? → ∃ result ∈ results, result.1 = i) :
    putAt places results = wanted := by
  induction results generalizing places with
  | nil =>
    apply List.ext_getElem?
    intro i
    by_contra hne
    obtain ⟨result, hmem, _⟩ := hrest i hne
    exact absurd hmem List.not_mem_nil
  | cons result results ih =>
    have hhere := hresults result List.mem_cons_self
    show putAt (places.set result.1 (some result.2)) results = wanted
    apply ih
    · rw [List.length_set, hlength]
    · exact fun later hlater => hresults later (List.mem_cons_of_mem _ hlater)
    · intro i hne
      by_cases hi : result.1 = i
      · subst hi
        have hlt : result.1 < places.length := by
          rw [hlength]
          exact (List.getElem?_eq_some_iff.1 hhere).1
        rw [List.getElem?_set_self hlt] at hne
        exact absurd hhere.symm hne
      · rw [List.getElem?_set_ne hi] at hne
        obtain ⟨later, hmem, hplace⟩ := hrest i hne
        cases List.mem_cons.1 hmem with
        | inl heq => exact absurd (heq ▸ hplace) hi
        | inr hlater => exact ⟨later, hlater, hplace⟩

end Slot

namespace Service

/-- What stands at each place of a report on a run whose pending measurements were recorded in the
given order, and the service after that. -/
def placesInOrder (s : Service) (tool : String) (commit : Commit) (slots : List Slot)
    (order : List (Nat × Measurement)) : List (Option Outcome) × Service :=
  let (outcomes, s) := s.ingestEach tool commit (order.map (·.2))
  (Slot.putAt (slots.map Slot.outcome?) ((order.map (·.1)).zip outcomes), s)

/-- The report on the entries of a run whose pending measurements were recorded in the given order,
with what stands at its places and without those that stayed empty. -/
def ingestInOrder (s : Service) (tool : String) (commit : Commit)
    (entries : List (Except Rejection Measurement)) (order : List (Nat × Measurement)) :
    Report × Service :=
  let (places, s) := s.placesInOrder tool commit (Slot.ofEntries [] entries) order
  let report : Report := ⟨tool, commit.id, places.reduceOption⟩
  (report, { s with totals := Totals.record tool report.tally s.totals })

variable {tool : String} {commit : Commit} {entries : List (Except Rejection Measurement)}
  {order : List (Nat × Measurement)}

/-- In whatever order measurements of different benchmarks are handed in, they leave ledgers that
answer alike, and the same alerts up to their order. -/
theorem taking_of_perm {ms ms' : List Measurement} (hperm : ms.Perm ms')
    (hnames : (ms.map (·.name)).Nodup) (s : Service) (tool : String) (commit : Commit) :
    (s.taking tool commit ms).ledger.Alike (s.taking tool commit ms').ledger ∧
      (s.taking tool commit ms).alerts.Perm (s.taking tool commit ms').alerts := by
  constructor
  · have hstored : (s.storedOf tool commit ms).Perm (s.storedOf tool commit ms') := hperm.filter _
    have hsublist : ((s.storedOf tool commit ms).map (·.name)).Sublist (ms.map (·.name)) :=
      List.filter_sublist.map _
    exact s.ledger.alike_putAll_of_perm hstored (hsublist.nodup hnames)
  · exact (hperm.flatMap_right _).append_left s.alerts

theorem placesInOrder_eq (h : order.Perm (Slot.placed (Slot.ofEntries [] entries))) (s : Service) :
    s.placesInOrder tool commit (Slot.ofEntries [] entries) order =
      ((s.reportOf tool commit entries).outcomes.map some,
        s.taking tool commit (order.map (·.2))) := by
  have hnames := (Slot.perm_pendingOf h).2
  have hresults : (order.map (·.1)).zip ((order.map (·.2)).map (s.outcomeOf tool commit)) =
      order.map fun place => (place.1, s.outcomeOf tool commit place.2) := by
    rw [List.map_map, List.zip_map']
    rfl
  have hplace : ∀ {i : Nat} {m : Measurement}, (i, m) ∈ order ↔
      (Slot.ofEntries [] entries)[i]? = some (.pending m) := by
    intro i m
    rw [h.mem_iff, Slot.mem_placed]
  rw [placesInOrder, ingestEach_eq hnames]
  dsimp only
  rw [hresults]
  congr 1
  unfold reportOf
  apply Slot.putAt_eq
  · simp
  · intro result hresult
    obtain ⟨⟨i, m⟩, hmem, rfl⟩ := List.mem_map.1 hresult
    have hslot := hplace.1 hmem
    simp [hslot, Slot.outcome]
  · -- only at the places of pending measurements does something else stand at first
    intro i hne
    cases hslot : (Slot.ofEntries [] entries)[i]? with
    | none => simp [hslot] at hne
    | some slot =>
      cases slot with
      | settled o => simp [hslot, Slot.outcome, Slot.outcome?] at hne
      | pending m => exact ⟨_, List.mem_map_of_mem (hplace.2 hslot), rfl⟩

/-- The measurements of a run may be recorded in any order.  Each place of the report is filled, in
the order of the entries and under their names; the report and the answers of the ledger do not
depend on the order, and neither do the alerts up to theirs. -/
theorem ingestInOrder_of_perm (h : order.Perm (Slot.placed (Slot.ofEntries [] entries)))
    (s : Service) (tool : String) (commit : Commit) :
    let reordered := s.ingestInOrder tool commit entries order
    let inOrder := s.ingestEntries tool commit entries
    (s.placesInOrder tool commit (Slot.ofEntries [] entries) order).1 =
        inOrder.1.outcomes.map some ∧
      inOrder.1.outcomes.map (·.benchmark) = entries.map entryName ∧
      reordered.1 = inOrder.1 ∧
      (∀ q, reordered.2.ledger.answer q = inOrder.2.ledger.answer q) ∧
      reordered.2.alerts.Perm inOrder.2.alerts := by
  obtain ⟨hpending, hnames⟩ := Slot.perm_pendingOf h
  obtain ⟨hledger, halerts⟩ := taking_of_perm hpending hnames s tool commit
  have hplaces := @placesInOrder_eq tool commit entries order h s
  dsimp only
  rw [ingestInOrder, hplaces, ingestEntries_eq]
  dsimp only
  have hflatten : ((s.reportOf tool commit entries).outcomes.map some).reduceOption =
      (s.reportOf tool commit entries).outcomes := by
    show ((s.reportOf tool commit entries).outcomes.map some).filterMap id = _
    rw [List.filterMap_map]
    exact List.filterMap_some
  rw [hflatten]
  exact ⟨rfl, s.benchmark_reportOf tool commit entries, rfl, hledger.answer, halerts⟩

-- Two benchmarks the other way round, with an entry between them that was not accepted and one
-- behind them whose name is taken.
theorem ingestInOrder_of_perm_exchanged :
    let x := Ledger.recordAt "c1"
    let y := { x with name := "y", value := 2 }
    let entries := [.ok x, .error ⟨"z", .emptyName⟩, .ok y, .ok { x with value := 3 }]
    let s : Service := { ledger := .resident {} }
    [(2, y), (0, x)].Perm (Slot.placed (Slot.ofEntries [] entries)) ∧
      (s.ingestInOrder "cargo" x.commit entries [(2, y), (0, x)]).1 =
        (s.ingestEntries "cargo" x.commit entries).1 := by
  intro x y entries s
  have hperm : [(2, y), (0, x)].Perm (Slot.placed (Slot.ofEntries [] entries)) :=
    List.Perm.swap (0, x) (2, y) []
  exact ⟨hperm, (ingestInOrder_of_perm hperm s "cargo" x.commit).2.2.1⟩

end Service

end BenchLedger
