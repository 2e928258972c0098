import BenchLedger.Dashboard.Document
import BenchLedger.Proofs.Commits
import BenchLedger.Proofs.Json.Numbers
import BenchLedger.Proofs.Order.Arrangement

/-!
# Reading written documents

Of a document that was read the dates have 64 bits, some text writes each timestamp, and each suite
stands once, in the order of names.  Such a document reads back from its JSON as it is if its values
read back from their texts.
-/

namespace BenchLedger

namespace Bench

theorem writable_toJson (b : Bench) : b.toJson.Writable :=
  ⟨trivial, Json.writable_ofFloat b.value, trivial, trivial, trivial⟩

theorem ofJson_toJson {b : Bench} (h : Json.ReadsBack b.value) : ofJson b.toJson = .ok b := by
  obtain ⟨name, value, range, unit⟩ := b
  show shape.decodeMembers default [] [("name", .string name), ("value", .ofFloat value),
    ("range", .string range), ("unit", .string unit)] = _
  rw [Json.Shape.decodeMembers_field (by decide) (by decide) rfl,
    Json.Shape.decodeMembers_field (by decide) (by decide)
      (Json.Shape.set_of_decode h fun _ => rfl),
    Json.Shape.decodeMembers_field (by decide) (by decide) rfl,
    Json.Shape.decodeMembers_field (by decide) (by decide) rfl,
    Json.Shape.decodeMembers_nil (by decide)]

end Bench

namespace Run

/-- The date has 64 bits, and some text writes the timestamp of the commit. -/
structure Representable (r : Run) : Prop where
  date : -0x8000000000000000 ≤ r.date ∧ r.date < 0x8000000000000000
  commit : r.commit.Written

/-- All of the run reads back from its JSON, its values too. -/
structure ReadsBack (r : Run) : Prop extends Representable r where
  values : ∀ b ∈ r.benches, Json.ReadsBack b.value

theorem representable_of_ofJson {j : Json} {r : Run} (h : ofJson j = .ok r) :
    r.Representable := by
  refine Json.Shape.holds_of_decode (P := Representable) ⟨by decide, Commit.written_default⟩ ?_ h
  intro name j r after hr hset
  unfold shape at hset
  dsimp only at hset
  split at hset
  case h_5 => exact Except.ok.inj hset ▸ hr
  all_goals obtain ⟨a, ha, hset⟩ := Fallible.bind_eq_ok.1 hset
  all_goals obtain rfl := Except.ok.inj hset
  case h_1 | h_4 => exact ⟨hr.date, hr.commit⟩
  case h_2 => exact ⟨hr.date, Commit.written_of_ofJson ha⟩
  case h_3 => exact ⟨Json.bounds_of_asInt ha, hr.commit⟩

theorem writable_toJson (r : Run) : r.toJson.Writable :=
  ⟨trivial, r.commit.writable_toJson, Json.writable_ofInt r.date,
    Json.writableItems_map fun b _ => b.writable_toJson, trivial⟩

theorem ofJson_toJson {r : Run} (h : r.ReadsBack) : ofJson r.toJson = .ok r := by
  have hbenches := Json.asList_map fun b hb => Bench.ofJson_toJson (h.values b hb)
  have hcommit := Commit.ofJson_toJson h.commit
  obtain ⟨tool, commit, date, benches⟩ := r
  show shape.decodeMembers default [] [("tool", .string tool), ("commit", commit.toJson),
    ("date", .ofInt date), ("benches", .array (benches.map Bench.toJson))] = _
  rw [Json.Shape.decodeMembers_field (by decide) (by decide) rfl,
    Json.Shape.decodeMembers_field (by decide) (by decide)
      (Json.Shape.set_of_decode hcommit fun _ => rfl),
    Json.Shape.decodeMembers_field (by decide) (by decide)
      (Json.Shape.set_of_decode (Json.asInt_ofInt h.date) fun _ => rfl),
    Json.Shape.decodeMembers_field (by decide) (by decide)
      (Json.Shape.set_of_decode hbenches fun _ => rfl),
    Json.Shape.decodeMembers_nil (by decide)]

end Run

namespace Dashboard

-- Of the entries of one suite the later counts, and each suite has an entry.
theorem map_fst_orderSuites (entries : List (String × List Run)) :
    (orderSuites entries).map (·.1) = Order.sortTexts (entries.map (·.1)) := by
  unfold orderSuites
  rw [List.map_filterMap]
  refine (List.filterMap_congr fun suite hsuite => ?_).trans List.filterMap_some
  obtain ⟨e, he, rfl⟩ := List.mem_map.1 (Order.mem_sortDistinct.1 hsuite)
  cases hfound : entries.reverse.find? (·.1 == e.1) with
  | some e' => simpa using List.find?_some hfound
  | none =>
    have hne := List.find?_eq_none.1 hfound e (List.mem_reverse.2 he)
    exact absurd (beq_self_eq_true e.1) hne

theorem mem_of_mem_orderSuites {entries : List (String × List Run)} {e : String × List Run}
    (h : e ∈ orderSuites entries) : e ∈ entries := by
  obtain ⟨suite, -, hfound⟩ := List.mem_filterMap.1 h
  exact List.mem_reverse.1 (List.mem_of_find?_eq_some hfound)

/-- Suites that are in order stay as they are. -/
theorem orderSuites_of_ascending {entries : List (String × List Run)}
    (h : (entries.map (·.1)).Pairwise (· < ·)) : orderSuites entries = entries := by
  have hnodup : (entries.map (·.1)).Nodup := by
    apply h.imp
    rintro a b hlt rfl
    exact Std.lt_irrefl hlt
  have hsorted : Order.sortTexts (entries.map (·.1)) = entries.map (·.1) :=
    (Order.enumerates_sortTexts _).unique ⟨h, fun _ => Iff.rfl⟩
  unfold orderSuites
  rw [hsorted, List.filterMap_map]
  refine (List.filterMap_congr fun e he => ?_).trans List.filterMap_some
  show entries.reverse.find? (·.1 == e.1) = some e
  cases hfound : entries.reverse.find? (·.1 == e.1) with
  | some e' =>
    have he' := List.mem_reverse.1 (List.mem_of_find?_eq_some hfound)
    rw [List.inj_on_of_nodup_map hnodup he' he (by simpa using List.find?_some hfound)]
  | none =>
    have hne := List.find?_eq_none.1 hfound e (List.mem_reverse.2 he)
    exact absurd (beq_self_eq_true e.1) hne

/-- The suites are in order, and all dates and timestamps can be written. -/
structure Representable (d : Dashboard) : Prop where
  lastUpdate : -0x8000000000000000 ≤ d.lastUpdate ∧ d.lastUpdate < 0x8000000000000000
  ascending : (d.entries.map (·.1)).Pairwise (· < ·)
  runs : ∀ e ∈ d.entries, ∀ r ∈ e.2, r.Representable

theorem representable_of_ofJson {j : Json} {d : Dashboard} (h : ofJson j = .ok d) :
    d.Representable := by
  refine Json.Shape.holds_of_decode (P := Representable)
    ⟨by decide, .nil, fun _ he => absurd he List.not_mem_nil⟩ ?_ h
  intro name j d after hd hset
  unfold shape at hset
  dsimp only at hset
  split at hset
  case h_4 => exact Except.ok.inj hset ▸ hd
  all_goals obtain ⟨a, ha, hset⟩ := Fallible.bind_eq_ok.1 hset
  case h_1 => exact Except.ok.inj hset ▸ ⟨Json.bounds_of_asInt ha, hd.ascending, hd.runs⟩
  case h_2 => exact Except.ok.inj hset ▸ ⟨hd.lastUpdate, hd.ascending, hd.runs⟩
  case h_3 =>
    refine Except.ok.inj hset ▸ ⟨hd.lastUpdate, ?_, fun e he r hr => ?_⟩
    · rw [map_fst_orderSuites]
      exact (Order.enumerates_sortTexts _).ascending
    · obtain ⟨item, hitem⟩ := Json.exists_of_mem_asMembers ha (mem_of_mem_orderSuites he)
      obtain ⟨item', hitem'⟩ := Json.exists_of_mem_asList hitem hr
      exact Run.representable_of_ofJson hitem'

theorem writable_toJson (d : Dashboard) : d.toJson.Writable := by
  refine ⟨Json.writable_ofInt d.lastUpdate, trivial, ?_, trivial⟩
  exact Json.writableMembers_map (fun runs : List Run => .array (runs.map Run.toJson)) fun _ _ =>
    Json.writableItems_map fun r _ => r.writable_toJson

/-- The values of all entries. -/
def values (d : Dashboard) : List Float :=
  d.runs.flatMap fun r => r.2.benches.map (·.value)

theorem readsBack_of_mem {d : Dashboard} (h : d.Representable)
    (hvalues : ∀ x ∈ d.values, Json.ReadsBack x) {e : String × List Run} (he : e ∈ d.entries)
    {r : Run} (hr : r ∈ e.2) : r.ReadsBack := by
  refine ⟨h.runs e he r hr, fun b hb => hvalues b.value ?_⟩
  have hrun : (e.1, r) ∈ d.runs := List.mem_flatMap.2 ⟨e, he, List.mem_map_of_mem hr⟩
  exact List.mem_flatMap.2 ⟨_, hrun, List.mem_map_of_mem hb⟩

theorem ofJson_toJson {d : Dashboard} (h : d.Representable)
    (hvalues : ∀ x ∈ d.values, Json.ReadsBack x) : ofJson d.toJson = .ok d := by
  have hentries := Json.asMembers_map (fun runs : List Run => .array (runs.map Run.toJson))
    fun e he => Json.asList_map fun r hr => Run.ofJson_toJson (readsBack_of_mem h hvalues he hr)
  have hordered := orderSuites_of_ascending h.ascending
  obtain ⟨lastUpdate, repoUrl, entries⟩ := d
  show shape.decodeMembers default [] [("lastUpdate", .ofInt lastUpdate),
    ("repoUrl", .string repoUrl), ("entries", .object (entries.map fun e =>
      (e.1, .array (e.2.map Run.toJson))))] = _
  rw [Json.Shape.decodeMembers_field (by decide) (by decide)
      (Json.Shape.set_of_decode (Json.asInt_ofInt h.lastUpdate) fun _ => rfl),
    Json.Shape.decodeMembers_field (by decide) (by decide) rfl,
    Json.Shape.decodeMembers_field (by decide) (by decide)
      (Json.Shape.set_of_decode hentries fun _ => rfl),
    Json.Shape.decodeMembers_nil (by decide)]
  show Except.ok (⟨lastUpdate, repoUrl, orderSuites entries⟩ : Dashboard) = _
  rw [show orderSuites entries = entries from hordered]

end Dashboard

end BenchLedger
