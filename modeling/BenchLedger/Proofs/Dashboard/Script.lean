import BenchLedger.Proofs.Dashboard.Documents
import BenchLedger.Proofs.Dashboard.Wrapping

/-!
# Reading written scripts

A script is the text of an object between an assignment and a line break, neither of which its
reader takes for a part of it.  So a document that was read from any text reads back from its
script, and its script stays the same, as far as its values read back from their texts.
-/

namespace BenchLedger

namespace Dashboard

-- A written document is in braces.
theorem delimited_indented_toJson (d : Dashboard) : Json.Delimited (d.toJson.indented 0) := by
  rw [toJson, Json.indented, List.cons_append, List.cons_append]
  exact ⟨⟨_, _, rfl, by decide⟩, _, _, List.cons_append.symm, by decide⟩

theorem unwrap_toScript (d : Dashboard) : unwrap d.toScript.toList = d.toJson.indented 0 := by
  have hspace : [' '].all Text.isBlank = true := by decide
  have hbreak : ['\n'].all Text.isBlank = true := by decide
  have hunwrap := unwrap_assigned d.delimited_indented_toJson (u := []) rfl hspace hspace hbreak
    (w := []) rfl 0
  simpa [toScript, closing, Json.renderIndented] using hunwrap

/-- A document that was read reads back from its script, and its script stays the same. -/
theorem read_toScript {t : String} {d : Dashboard} (h : read t = .ok d)
    (hvalues : ∀ x ∈ d.values, Json.ReadsBack x) :
    read d.toScript = .ok d ∧ (read d.toScript).map toScript = .ok d.toScript := by
  rw [read_eq] at h
  have hread : read d.toScript = .ok d := by
    rw [read_eq, unwrap_toScript, ← Json.renderIndented, Json.read_renderIndented d.writable_toJson,
      ofJson_toJson (representable_of_ofJson h) hvalues]
  rw [hread]
  exact ⟨rfl, rfl⟩

-- Suites out of order, and records that are written as arrays without their optional fields.
def unevenScript : String :=
  "window.BENCHMARK_DATA = \x7b\"entries\":\x7b\"b\":[],\"a\":[[\"cargo\",[\"c1\",[\"A\"]," ++
    "[\"B\",null],\"2024-02-29T00:00:00+02:00\",\"t\",\"u\"],1,[[\"x\",1e2,\"\",\"ns\"]]]]\x7d," ++
    "\"repoUrl\":\"\",\"lastUpdate\":1\x7d;"

theorem read_toScript_unevenScript : ∃ d, read unevenScript = .ok d ∧
    d.entries.map (·.1) = ["a", "b"] ∧ (∀ x ∈ d.values, Json.ReadsBack x) ∧
    read d.toScript = .ok d ∧ (read d.toScript).map toScript = .ok d.toScript := by
  have hparts : (read unevenScript).map (fun d => (d.entries.map (·.1), d.values)) =
      .ok (["a", "b"], [100]) := by
    decide +kernel
  obtain ⟨d, hread, hd⟩ := Fallible.map_eq_ok.1 hparts
  obtain ⟨hsuites, hvalues⟩ := Prod.mk.inj hd
  have hback : ∀ x ∈ d.values, Json.ReadsBack x := by
    intro x hx
    rw [hvalues, List.mem_singleton] at hx
    rw [hx]
    decide +kernel
  exact ⟨d, hread, hsuites, hback, read_toScript hread hback⟩

end Dashboard

end BenchLedger
