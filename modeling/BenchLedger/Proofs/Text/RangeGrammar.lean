import BenchLedger.Proofs.Decimal.Literals
import BenchLedger.Proofs.Fallible
import BenchLedger.Proofs.Text.Ranges
import BenchLedger.Run

/-!
# The grammar of ranges

The texts that are read as ranges are those of a number behind an optional plus-minus sign, with
blanks around both, and no others.  A range is the number closest to the one that is written, and a
text that is none is handed back as it is.
-/

namespace BenchLedger

namespace RangeText

open Decimal (Numeral)
open Text (isBlank)

/-- The ways to write plus-minus, one of which is to leave it out. -/
def signs : List String := ["", "±", "+/-", "+-"]

/-- The text of a range: blanks, a sign, blanks, the text of a number, and blanks. -/
structure IsRange (s : String) (number : List Char) (n : Numeral) : Prop where
  literal : n.HasLiteral number
  parts : ∃ u sign v w, s.toList = u ++ (sign ++ (v ++ (number ++ w))) ∧
    sign ∈ signs.map String.toList ∧ u.all isBlank = true ∧ v.all isBlank = true ∧
    w.all isBlank = true

variable {s : String} {cs number rest v : List Char} {n : Numeral}

theorem dropBlanks_number (h : n.HasLiteral number) (hv : v.all isBlank) (rest : List Char) :
    Text.dropBlanks (v ++ (number ++ rest)) = number ++ rest := by
  obtain ⟨c, ds, rfl, hc⟩ := h.eq_cons
  rw [Text.dropBlanks_append_of_all hv]
  exact Text.dropBlanks_cons (Text.isBlank_of_isDigit hc) _

theorem dropSign_number (h : n.HasLiteral number) (rest : List Char) :
    dropSign (number ++ rest) = number ++ rest := by
  obtain ⟨c, ds, rfl, hc⟩ := h.eq_cons
  have hne (d : Char) (hd : d.isDigit = false) : c ≠ d := by
    rintro rfl
    rw [hc] at hd
    exact Bool.noConfusion hd
  rw [List.cons_append, dropSign, Text.after?_eq_none (d := '±') rfl (hne '±' (by decide)),
    Text.after?_eq_none (d := '+') rfl (hne '+' (by decide)),
    Text.after?_eq_none (d := '+') rfl (hne '+' (by decide))]
  rfl

-- Whatever the sign, what is left is the number and what stands behind it.
theorem dropBlanks_dropSign {sign : List Char} (hsign : sign ∈ signs.map String.toList)
    (hv : v.all isBlank) (h : n.HasLiteral number) (rest : List Char) :
    Text.dropBlanks (dropSign (Text.dropBlanks (sign ++ (v ++ (number ++ rest))))) =
      number ++ rest := by
  simp only [signs, List.map_cons, List.map_nil, List.mem_cons, List.not_mem_nil, or_false]
    at hsign
  have hnumber := dropBlanks_number h hv rest
  generalize htail : v ++ (number ++ rest) = tail at hnumber
  have hplusMinus : dropSign ('±' :: tail) = tail := by
    rw [dropSign, show '±' :: tail = "±".toList ++ tail from rfl, Text.after?_append]
  have hslashed : dropSign ('+' :: '/' :: '-' :: tail) = tail := by
    rw [dropSign, Text.after?_eq_none (d := '±') rfl (by decide),
      show '+' :: '/' :: '-' :: tail = "+/-".toList ++ tail from rfl, Text.after?_append]
  have hplain : dropSign ('+' :: '-' :: tail) = tail := by
    rw [dropSign, Text.after?_eq_none (d := '±') rfl (by decide)]
    rfl
  rcases hsign with rfl | rfl | rfl | rfl
  · show Text.dropBlanks (dropSign (Text.dropBlanks tail)) = _
    rw [hnumber, dropSign_number h]
    exact dropBlanks_number h (v := []) rfl rest
  · show Text.dropBlanks (dropSign (Text.dropBlanks ('±' :: tail))) = _
    rw [Text.dropBlanks_cons (by decide), hplusMinus, hnumber]
  · show Text.dropBlanks (dropSign (Text.dropBlanks ('+' :: '/' :: '-' :: tail))) = _
    rw [Text.dropBlanks_cons (by decide), hslashed, hnumber]
  · show Text.dropBlanks (dropSign (Text.dropBlanks ('+' :: '-' :: tail))) = _
    rw [Text.dropBlanks_cons (by decide), hplain, hnumber]

theorem exists_sign (cs : List Char) :
    ∃ sign ∈ signs.map String.toList, cs = sign ++ dropSign cs := by
  unfold dropSign
  split
  case h_1 rest h => exact ⟨_, by simp [signs], Text.eq_append_of_after? h⟩
  case h_2 =>
    split
    case h_1 rest h => exact ⟨_, by simp [signs], Text.eq_append_of_after? h⟩
    case h_2 =>
      cases h : Text.after? "+-" cs with
      | none => exact ⟨[], by simp [signs], rfl⟩
      | some rest => exact ⟨_, by simp [signs], Text.eq_append_of_after? h⟩

theorem exists_blanks (cs : List Char) :
    ∃ u, u.all isBlank = true ∧ cs = u ++ Text.dropBlanks cs :=
  ⟨cs.takeWhile isBlank, List.all_takeWhile, List.takeWhile_append_dropWhile.symm⟩

theorem read?_of_isRange (h : IsRange s number n) : read? s = some (n.value false) := by
  obtain ⟨hliteral, u, sign, v, w, heq, hsign, hu, hv, hw⟩ := h
  rw [read?, heq, Text.dropBlanks_append_of_all hu, dropBlanks_dropSign hsign hv hliteral,
    hliteral.read?_append (Decimal.blankBehind_of_all hw)]
  exact if_pos hw

theorem isRange_of_read? {x : Float} (h : read? s = some x) :
    ∃ number n, IsRange s number n := by
  obtain ⟨u, hu, hs⟩ := exists_blanks s.toList
  obtain ⟨sign, hsign, hbehind⟩ := exists_sign (Text.dropBlanks s.toList)
  obtain ⟨v, hv, hnumber⟩ := exists_blanks (dropSign (Text.dropBlanks s.toList))
  unfold read? at h
  dsimp only at h
  split at h
  case h_1 n w hread =>
    split at h
    case isTrue hw =>
      obtain ⟨number, htext, hliteral⟩ := Numeral.hasLiteral_of_read? hread
      rw [htext] at hnumber
      rw [hnumber] at hbehind
      rw [hbehind] at hs
      exact ⟨number, n, hliteral, u, sign, v, w, hs, hsign, hu, hv, hw⟩
    case isFalse => cases h
  case h_2 => cases h

end RangeText

-- No number of a measurement is found malformed once it was read.
theorem Measurement.validate_ne_malformedRange (m : Measurement) (text : String) :
    m.validate ≠ .error (.malformedRange text) := by
  unfold validate
  iterate 7 refine Fallible.check_ne_error (by simp) ?_
  unfold Commit.validate
  split <;> simp [throw, throwThe, MonadExceptOf.throw, pure, Except.pure]

namespace Run

variable {r : Run} {b : Bench} {t : Instant}

theorem measurement_of_malformed (hrecordedAt : r.recordedAt = .ok t)
    (hrange : RangeText.read? b.range = none) :
    r.measurement b = .error (.malformedRange b.range) := by
  rw [measurement, hrecordedAt, Fallible.ok_bind, hrange]
  rfl

/-- An entry has a malformed range if its text is none, and the failure holds that text. -/
theorem measurement_eq_malformedRange (hrecordedAt : r.recordedAt = .ok t) {text : String} :
    r.measurement b = .error (.malformedRange text) ↔
      text = b.range ∧ RangeText.read? b.range = none := by
  constructor
  · intro h
    cases hrange : RangeText.read? b.range with
    | none =>
      rw [measurement_of_malformed hrecordedAt hrange] at h
      exact ⟨(Invalid.malformedRange.inj (Except.error.inj h)).symm, rfl⟩
    | some range =>
      rw [measurement, hrecordedAt, Fallible.ok_bind, hrange] at h
      dsimp only at h
      split at h
      case h_1 unit _ =>
        cases hvalid : Measurement.validate ⟨r.tool, r.commit, b.name, b.value, range, unit, t⟩ with
        | ok _ =>
          rw [hvalid] at h
          cases h
        | error e =>
          rw [hvalid] at h
          obtain rfl := Except.error.inj h
          exact absurd hvalid (Measurement.validate_ne_malformedRange _ _)
      case h_2 => cases h
  · rintro ⟨rfl, hrange⟩
    exact measurement_of_malformed hrecordedAt hrange

end Run

/-- The texts that are read as ranges are those of the grammar.  Such a range is the number closest
to the one that is written, it has no sign, and any reader of numbers finds the same one; every
other text is named in the failure of its entry as it is. -/
theorem RangeText.read?_grammar (s : String) :
    ((read? s).isSome = true ↔ ∃ number n, IsRange s number n) ∧
      (∀ number n, IsRange s number n →
        ∃ x, read? s = some x ∧ Decimal.readLiteral? number = some x ∧
          Decimal.IsClosest x n.decimal ∧ Decimal.isNegative x = false) ∧
      ∀ (r : Run) (b : Bench) (t : Instant) (text : String), b.range = s → r.recordedAt = .ok t →
        (r.measurement b = .error (.malformedRange text) ↔
          text = s ∧ ¬∃ number n, IsRange s number n) := by
  have hsome : (read? s).isSome = true ↔ ∃ number n, IsRange s number n := by
    constructor
    · intro h
      obtain ⟨x, hx⟩ := Option.isSome_iff_exists.1 h
      exact isRange_of_read? hx
    · rintro ⟨number, n, h⟩
      rw [read?_of_isRange h]
      rfl
  refine ⟨hsome, ?_, ?_⟩
  · intro number n h
    exact ⟨n.value false, read?_of_isRange h, h.literal.readLiteral?, n.isClosest_value,
      n.isNegative_value false⟩
  · rintro r b t text rfl hrecordedAt
    rw [Run.measurement_eq_malformedRange hrecordedAt, ← hsome, Option.not_isSome_iff_eq_none]

-- A number with leading zeros between blanks, and one that lacks the digits behind its point.
theorem RangeText.read?_grammar_padded :
    (∃ x, read? " +/-\u2003007.50E-1 " = some x ∧ Decimal.IsClosest x (750 * 10 ^ (-3 : ℤ)) ∧
      Decimal.isNegative x = false) ∧
      (⟨"cargo", default, 0, []⟩ : Run).measurement ⟨"x", 1, "± 1.", "ns"⟩ =
        .error (.malformedRange "± 1.") := by
  have hdigits (ds : List Char) (hne : ds ≠ []) (hall : ds.all Char.isDigit = true) :
      Decimal.IsDigits ds := ⟨hne, List.all_eq_true.1 hall⟩
  have hrange : IsRange " +/-\u2003007.50E-1 " "007.50E-1".toList
      ⟨['0', '0', '7'], ['5', '0'], -1⟩ :=
    { literal :=
        { whole := hdigits _ (by decide) (by decide)
          parts := ⟨['.', '5', '0'], ['E', '-', '1'], rfl,
            .point (hdigits _ (by decide) (by decide)),
            .power (.inr rfl) .minus (hdigits ['1'] (by decide) (by decide))⟩ }
      parts := ⟨[' '], "+/-".toList, ['\u2003'], [' '], by decide, by decide, by decide,
        by decide, by decide⟩ }
  constructor
  · obtain ⟨x, hread, -, hclosest, hsign⟩ := (read?_grammar _).2.1 _ _ hrange
    exact ⟨x, hread, hclosest, hsign⟩
  · obtain ⟨t, hrecordedAt⟩ : ∃ t, (⟨"cargo", default, 0, []⟩ : Run).recordedAt = .ok t := ⟨_, rfl⟩
    have hnone : ¬∃ number n, IsRange "± 1." number n := by
      rw [← (read?_grammar "± 1.").1]
      decide +kernel
    exact ((read?_grammar "± 1.").2.2 _ ⟨"x", 1, "± 1.", "ns"⟩ t _ rfl hrecordedAt).2 ⟨rfl, hnone⟩

end BenchLedger
