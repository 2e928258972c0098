import BenchLedger.MeasureUnit
import Mathlib.Data.List.DropRight

/-!
# Reading units

Trimming a text twice is trimming it once, so the text of a unit that was read reads back as the
same unit; and a text is no unit just when it is blank.
-/

namespace BenchLedger

namespace Text

private theorem dropTrailingBlanks_eq (cs : List Char) :
    dropTrailingBlanks cs = cs.rdropWhile isBlank := rfl

theorem dropBlanks_strip (cs : List Char) : dropBlanks (strip cs) = strip cs := by
  -- the stripped text is a prefix of one that does not begin with a blank
  have hstart : strip cs <+: dropBlanks cs := List.rdropWhile_prefix isBlank _
  refine List.dropWhile_eq_self_iff.2 fun hpos => ?_
  rw [hstart.getElem hpos]
  exact List.dropWhile_get_zero_not isBlank cs _

theorem strip_strip (cs : List Char) : strip (strip cs) = strip cs := by
  rw [strip, dropBlanks_strip, strip, dropTrailingBlanks_eq, dropTrailingBlanks_eq,
    List.rdropWhile_idempotent]

theorem strip_eq_nil_iff {cs : List Char} : strip cs = [] ↔ cs.all isBlank := by
  unfold strip
  rw [dropTrailingBlanks_eq, List.rdropWhile_eq_nil_iff, List.all_eq_true]
  constructor
  · intro h c hc
    rw [← List.takeWhile_append_dropWhile (p := isBlank) (l := cs), List.mem_append] at hc
    rcases hc with hc | hc
    · exact List.mem_takeWhile_imp hc
    · exact h c hc
  · intro h c hc
    exact h c (List.dropWhile_subset isBlank hc)

theorem trim_trim (s : String) : trim (trim s) = trim s := by
  simp [trim, strip_strip]

theorem trim_eq_empty_iff {s : String} : trim s = "" ↔ isAllBlank s := by
  rw [trim, isAllBlank, ← strip_eq_nil_iff]
  exact String.ofList_eq_empty_iff

end Text

namespace MeasureUnit

/-- A unit that some text writes. -/
def Written (u : MeasureUnit) : Prop := ∃ s, read? s = some u

theorem read?_eq_none_iff {s : String} : read? s = none ↔ Text.isAllBlank s := by
  rw [← Text.trim_eq_empty_iff]
  simp [read?]

theorem read?_trim (s : String) : read? (Text.trim s) = read? s := by
  simp [read?, Text.trim_trim]

theorem mem_spellings_of_lookup {text : String} {u : MeasureUnit}
    (h : spellings.lookup text = some u) : (text, u) ∈ spellings := by
  obtain ⟨before, after, hsplit, -⟩ := List.lookup_eq_some_iff.1 h
  rw [hsplit]
  simp

theorem read?_text_of_mem_spellings {text : String} {u : MeasureUnit}
    (h : (text, u) ∈ spellings) : read? u.text = some u := by
  have hall : ∀ entry ∈ spellings, read? entry.2.text = some entry.2 := by decide +kernel
  exact hall (text, u) h

-- The text of a unit that was read reads back as that unit.
theorem read?_text {s : String} {u : MeasureUnit} (h : read? s = some u) :
    read? u.text = some u := by
  have hs := h
  unfold read? at hs
  simp only at hs
  split at hs
  · contradiction
  -- a known unit is written in one of its spellings, any other as it was read
  cases hl : spellings.lookup (Text.trim s) with
  | some known =>
    rw [hl, Option.getD_some, Option.some.injEq] at hs
    subst hs
    exact read?_text_of_mem_spellings (mem_spellings_of_lookup hl)
  | none =>
    rw [hl, Option.getD_none, Option.some.injEq] at hs
    rw [← hs] at h ⊢
    exact (read?_trim s).trans h

theorem written_iff {u : MeasureUnit} : u.Written ↔ read? u.text = some u :=
  ⟨fun ⟨_, h⟩ => read?_text h, fun h => ⟨u.text, h⟩⟩

theorem ne_other_of_mem_spellings {text : String} {u : MeasureUnit} (h : (text, u) ∈ spellings)
    (s : String) : u ≠ other s := by
  rintro rfl
  simp [spellings] at h

/-- A unit that is not known is written if its text has no blanks around it, is not empty and does
not spell a known unit. -/
theorem written_other_iff {s : String} :
    (other s).Written ↔ Text.trim s = s ∧ s ≠ "" ∧ spellings.lookup s = none := by
  rw [written_iff]
  show read? s = some (other s) ↔ _
  unfold read?
  dsimp only
  constructor
  · intro h
    split at h
    case isTrue => exact nomatch h
    case isFalse hne =>
      cases hl : spellings.lookup (Text.trim s) with
      | some known =>
        rw [hl, Option.getD_some, Option.some.injEq] at h
        exact absurd h (ne_other_of_mem_spellings (mem_spellings_of_lookup hl) s)
      | none =>
        rw [hl, Option.getD_none, Option.some.injEq, other.injEq] at h
        rw [h] at hl hne
        exact ⟨h, hne, hl⟩
  · rintro ⟨htrim, hne, hl⟩
    rw [htrim, if_neg hne, hl, Option.getD_none]

theorem isAllBlank_text {s : String} {u : MeasureUnit} (h : read? s = some u) :
    Text.isAllBlank u.text = false := by
  have hread := read?_text h
  by_contra hblank
  rw [read?_eq_none_iff.2 (by simpa using hblank)] at hread
  contradiction

end MeasureUnit

end BenchLedger
