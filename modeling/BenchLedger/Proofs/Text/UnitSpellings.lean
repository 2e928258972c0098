import BenchLedger.Measurement
import BenchLedger.Proofs.Fallible
import BenchLedger.Proofs.Json.Written
import BenchLedger.Proofs.Text.Units

/-!
# Spellings of units

Two texts write the same unit when they are the same text without the blanks around them, or the
two spellings of a unit that has two.  Neither spelling changes which direction is better, so the
direction of a unit is seen from any text that writes it.
-/

namespace BenchLedger.MeasureUnit

/-- The units with two spellings, the canonical one first. -/
def aliases : List (String × String) :=
  [("us", "µs"), ("bytes", "B"), ("ops/s", "ops/sec")]

/-- The two spellings of one unit, in either order. -/
def AreAliases (s t : String) : Prop :=
  (s, t) ∈ aliases ∨ (t, s) ∈ aliases

instance (s t : String) : Decidable (AreAliases s t) :=
  inferInstanceAs (Decidable (_ ∨ _))

/-- The text of a rate: it ends in `/s` or `/sec`. -/
def IsRate (s : String) : Prop :=
  Text.endsWith s "/s" = true ∨ Text.endsWith s "/sec" = true

instance (s : String) : Decidable (IsRate s) :=
  inferInstanceAs (Decidable (_ ∨ _))

variable {s t : String} {u : MeasureUnit}

-- No text spells two units.
theorem lookup_of_mem_spellings (h : (s, u) ∈ spellings) : spellings.lookup s = some u := by
  have hall : ∀ e ∈ spellings, spellings.lookup e.1 = some e.2 := by decide
  simpa only using hall (s, u) h

/-- A text writes a known unit by a spelling of it, and any other unit by the text itself. -/
theorem read?_eq_some_iff : read? s = some u ↔ Text.trim s ≠ "" ∧
    ((Text.trim s, u) ∈ spellings ∨
      spellings.lookup (Text.trim s) = none ∧ u = other (Text.trim s)) := by
  unfold read?
  dsimp only
  by_cases hblank : Text.trim s = ""
  · simp [hblank]
  rw [if_neg hblank, Option.some.injEq]
  cases hl : spellings.lookup (Text.trim s) with
  | some known =>
    rw [Option.getD_some]
    constructor
    · rintro rfl
      exact ⟨hblank, .inl (mem_spellings_of_lookup hl)⟩
    · rintro ⟨-, hmem | ⟨hnone, -⟩⟩
      · rw [lookup_of_mem_spellings hmem] at hl
        exact (Option.some.inj hl).symm
      · exact absurd hnone (by simp)
  | none =>
    have hnone : (Text.trim s, u) ∉ spellings := by
      intro hmem
      simpa using List.lookup_eq_none_iff.1 hl _ hmem
    rw [Option.getD_none]
    simp [hblank, hnone, eq_comm]

/-- The JSON of a unit that some text writes decodes to that unit. -/
theorem ofJson_text (h : u.Written) : ofJson (.string u.text) = .ok u := by
  obtain ⟨s, hs⟩ := h
  unfold ofJson
  rw [Json.asString, Fallible.ok_bind, read?_text hs]
  rfl

theorem read?_congr (h : Text.trim s = Text.trim t) : read? s = read? t := by
  rw [← read?_trim s, h, read?_trim]

theorem read?_eq_of_mem_aliases {a b : String} (h : (a, b) ∈ aliases) : read? a = read? b := by
  have hall : ∀ pair ∈ aliases, read? pair.1 = read? pair.2 := by decide +kernel
  simpa only using hall (a, b) h

theorem read?_eq_of_areAliases (h : AreAliases (Text.trim s) (Text.trim t)) :
    read? s = read? t := by
  rw [← read?_trim s, ← read?_trim t]
  rcases h with h | h
  · rw [read?_eq_of_mem_aliases h]
  · rw [read?_eq_of_mem_aliases h]

/-- The texts that write a unit are the one that it was read from and its alias. -/
theorem read?_eq_some_iff_trim (h : read? s = some u) :
    read? t = some u ↔
      Text.trim t = Text.trim s ∨ AreAliases (Text.trim t) (Text.trim s) := by
  constructor
  · intro ht
    obtain ⟨-, hs | ⟨-, hs⟩⟩ := read?_eq_some_iff.1 h <;>
      obtain ⟨-, ht | ⟨-, ht⟩⟩ := read?_eq_some_iff.1 ht
    · have hall : ∀ e ∈ spellings, ∀ e' ∈ spellings,
          e.2 = e'.2 → e.1 = e'.1 ∨ AreAliases e.1 e'.1 := by decide
      exact hall (Text.trim t, u) ht (Text.trim s, u) hs rfl
    · exact absurd ht (ne_other_of_mem_spellings hs _)
    · exact absurd hs (ne_other_of_mem_spellings ht _)
    · left
      rw [hs] at ht
      exact (other.inj ht).symm
  · rintro (htrim | haliases)
    · rw [read?_congr htrim, h]
    · rw [read?_eq_of_areAliases haliases, h]

theorem direction_eq_higher_iff (h : read? s = some u) :
    u.direction = .higherIsBetter ↔ IsRate (Text.trim s) := by
  obtain ⟨-, hs | ⟨-, rfl⟩⟩ := read?_eq_some_iff.1 h
  · have hall : ∀ e ∈ spellings, e.2.direction = .higherIsBetter ↔ IsRate e.1 := by decide
    exact hall (Text.trim s, u) hs
  · unfold direction IsRate
    rw [← Bool.or_eq_true]
    dsimp only
    split <;> simp_all

theorem readAs_render_text (h : read? s = some u) :
    Json.readAs ofJson (Json.string u.text).render = .ok u := by
  have hread : Json.read (Json.string u.text).render = .string u.text := Json.read_render trivial
  rw [Json.readAs, hread, ofJson_text ⟨s, h⟩]

/-- Reading a unit fails on blank texts only.  What is read is written and read again as the same
unit, as a text and in JSON; it is read from just those texts that are the same without blanks or
an alias; and more of it is better just when such a text is that of a rate. -/
theorem read?_canonical (s : String) :
    (read? s = none ↔ Text.isAllBlank s = true) ∧
      ∀ u, read? s = some u →
        read? u.text = some u ∧ Json.readAs ofJson (Json.string u.text).render = .ok u ∧
        (∀ t, read? t = some u ↔
          Text.trim t = Text.trim s ∨ AreAliases (Text.trim t) (Text.trim s)) ∧
        (u.direction = .higherIsBetter ↔ IsRate (Text.trim s)) :=
  ⟨read?_eq_none_iff, fun _ h => ⟨read?_text h, readAs_render_text h,
    fun _ => read?_eq_some_iff_trim h, direction_eq_higher_iff h⟩⟩

theorem read?_canonical_operations :
    read? " ops/sec\n" = some operationsPerSecond ∧ read? "ops/s" = some operationsPerSecond ∧
      operationsPerSecond.direction = .higherIsBetter := by
  have hread : read? " ops/sec\n" = some operationsPerSecond := by decide +kernel
  obtain ⟨-, -, htexts, hdirection⟩ := ((read?_canonical " ops/sec\n").2 _ hread)
  exact ⟨hread, (htexts "ops/s").2 (by decide +kernel), hdirection.2 (by decide +kernel)⟩

end BenchLedger.MeasureUnit
