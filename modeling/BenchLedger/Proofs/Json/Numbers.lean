import BenchLedger.Json.Decode
import BenchLedger.Proofs.Json.Parts
import BenchLedger.Proofs.Json.Written

/-!
# Numbers in JSON

All numbers can be written, and whole numbers of 64 bits read back as the same number.  A number
with a fraction need not: its text may be read as a number next to it.  What is read as a number is
finite.
-/

namespace BenchLedger.Json

open Decimal (Numeral IsDigits IsWhole IsPlaces IsPower EndsNumber endsNumber_cons)

section Reading

variable {ds rest : List Char}

theorem EndsLexeme.endsNumber (h : EndsLexeme rest) : EndsNumber rest :=
  fun c hc => (h c hc).1

theorem readWhole_append (h : IsWhole ds) (hrest : EndsNumber rest) :
    readWhole (ds ++ rest) = some (ds, rest) := by
  by_cases hzero : ∃ es, ds = '0' :: es
  · obtain ⟨es, rfl⟩ := hzero
    obtain rfl := h.leading es rfl
    cases rest with
    | nil => rfl
    | cons c rest =>
      show (if c.isDigit then none else some (['0'], c :: rest)) = _
      rw [hrest c (by simp), if_neg Bool.false_ne_true]
  · rw [readWhole]
    · rw [h.spanDigits_append hrest]
      split
      case h_1 heq => exact absurd (Prod.mk.inj heq).1 h.ne_nil
      case h_2 heq => rw [← heq]
    · -- the equation for other digits asks that no zero leads
      intro c cs hcs
      cases ds with
      | nil => exact h.ne_nil rfl
      | cons d ds => exact hzero ⟨ds, by rw [(List.cons.inj hcs).1]⟩

theorem readPlaces_append {places : List Char} (h : IsPlaces places ds) (hrest : EndsNumber rest)
    (hpoint : ∀ c ∈ rest.head?, c ≠ '.') : readPlaces (places ++ rest) = some (places, rest) := by
  cases h with
  | none =>
    cases rest with
    | nil => rfl
    | cons c rest =>
      rw [List.nil_append, readPlaces]
      intro _ heq
      exact hpoint c (by simp) (List.cons.inj heq).1
  | point h =>
    rw [List.cons_append, readPlaces, h.spanDigits_append hrest]
    split
    case h_1 heq => exact absurd (Prod.mk.inj heq).1 h.ne_nil
    case h_2 heq =>
      obtain ⟨rfl, rfl⟩ := Prod.mk.inj heq
      rfl

theorem readExponent_append {power : List Char} {e : ℤ} (h : IsPower power e)
    (hrest : EndsLexeme rest) : readExponent (power ++ rest) = some (power, rest) := by
  cases h with
  | none =>
    cases rest with
    | nil => rfl
    | cons c rest =>
      obtain ⟨-, -, he, hE⟩ := hrest c (by simp)
      simp [readExponent, he, hE]
  | plus h | minus h =>
    simp only [List.cons_append, readExponent, beq_self_eq_true, Bool.true_or, if_true,
      h.spanDigits_append hrest.endsNumber]
    split
    case h_1 heq => exact absurd (Prod.mk.inj heq).1 h.ne_nil
    case h_2 heq =>
      obtain ⟨rfl, rfl⟩ := Prod.mk.inj heq
      rfl

theorem ends_power_append {power : List Char} {e : ℤ} (h : IsPower power e)
    (hrest : EndsLexeme rest) :
    EndsNumber (power ++ rest) ∧ ∀ c ∈ (power ++ rest).head?, c ≠ '.' := by
  cases h with
  | none => exact ⟨hrest.endsNumber, fun c hc => (hrest c hc).2.1⟩
  | plus | minus => exact ⟨endsNumber_cons (by decide), by simp⟩

end Reading

/-- The text of a numeral with its sign. -/
def signed (negative : Bool) (cs : List Char) : List Char :=
  (if negative then ['-'] else []) ++ cs

section Signed

variable {n : Numeral} {cs : List Char} (negative : Bool)

theorem readNumber_signed {rest : List Char} (h : n.HasText cs) (hrest : EndsLexeme rest) :
    readNumber (signed negative cs ++ rest) = some (signed negative cs, rest) := by
  obtain ⟨c, ds, rfl, hc⟩ := h.eq_cons
  obtain ⟨hwhole, places, power, heq, hplaces, hpower⟩ := h
  obtain ⟨hends, hpoint⟩ := ends_power_append hpower hrest
  have hread : readWhole (c :: (ds ++ rest)) = some (n.whole, places ++ (power ++ rest)) := by
    rw [← List.cons_append, heq, List.append_assoc, List.append_assoc]
    exact readWhole_append hwhole (hplaces.endsNumber_append hends)
  have hsign : c ≠ '-' := by
    rintro rfl
    revert hc
    decide
  cases negative with
  | false =>
    show readNumber (c :: (ds ++ rest)) = some (c :: ds, rest)
    rw [readNumber]
    · simp only [hread, Option.bind_eq_bind, Option.bind_some,
        readPlaces_append hplaces hends hpoint, readExponent_append hpower hrest, Option.pure_def]
      rw [heq, List.nil_append, List.append_assoc]
    · intro _ hminus
      exact hsign (List.cons.inj hminus).1
  | true =>
    show readNumber ('-' :: c :: (ds ++ rest)) = some ('-' :: c :: ds, rest)
    simp only [readNumber, hread, Option.bind_eq_bind, Option.bind_some,
      readPlaces_append hplaces hends hpoint, readExponent_append hpower hrest, Option.pure_def]
    rw [heq, List.append_assoc, List.append_assoc, List.singleton_append]

/-- The text of a numeral, with its sign, is what a reader finds as one number. -/
theorem isLexeme_signed (h : n.HasText cs) : IsLexeme (signed negative cs) := by
  refine ⟨?_, fun rest hrest => readNumber_signed negative h hrest⟩
  obtain ⟨c, ds, rfl, hc⟩ := h.eq_cons
  cases negative with
  | false => simp [signed, isNumberStart, hc]
  | true => rfl

theorem lexemeValue_signed (h : n.HasText cs) :
    lexemeValue (signed negative cs) = (Parts.ofNumeral n).value negative := by
  have hread := h.read?
  obtain ⟨c, ds, rfl, hc⟩ := h.eq_cons
  cases negative with
  | false =>
    show lexemeValue (c :: ds) = _
    rw [lexemeValue]
    · rw [hread]
    · rintro _ hminus
      rw [(List.cons.inj hminus).1] at hc
      exact absurd hc (by decide)
  | true =>
    show lexemeValue ('-' :: c :: ds) = _
    rw [lexemeValue, hread]

end Signed

section Floats

variable {x : Float}

theorem ofFloat_eq_number (h : x.isFinite = true) :
    ∃ lexeme, ofFloat x = .number lexeme ∧ IsLexeme lexeme := by
  obtain ⟨n, cs, hwrite, htext, -⟩ := numberLayout.write_of_isFinite h
  refine ⟨signed (Decimal.isNegative x) cs, ?_, isLexeme_signed _ htext⟩
  rw [ofFloat, if_pos h, hwrite, signed]

theorem writable_ofFloat (x : Float) : Writable (ofFloat x) := by
  cases h : x.isFinite with
  | true =>
    obtain ⟨lexeme, heq, hlexeme⟩ := ofFloat_eq_number h
    rw [heq]
    exact hlexeme
  | false =>
    rw [ofFloat, h]
    trivial

/-- What is read as a number is finite. -/
theorem isFinite_of_asFloat {j : Json} (h : j.asFloat = .ok x) : x.isFinite = true := by
  unfold asFloat at h
  split at h
  · dsimp only at h
    split at h
    · obtain rfl := Except.ok.inj h
      assumption
    · cases h
  · cases h

/-- The number is read from its own text. -/
def ReadsBack (x : Float) : Prop :=
  (ofFloat x).asFloat = .ok x

instance (x : Float) : Decidable (ReadsBack x) :=
  inferInstanceAs (Decidable (_ = _))

theorem ReadsBack.isFinite (h : ReadsBack x) : x.isFinite = true :=
  isFinite_of_asFloat h

theorem readsBack_iff :
    ReadsBack x ↔ x.isFinite = true ∧ lexemeValue (numberLayout.write x) = x := by
  unfold ReadsBack ofFloat
  cases hfinite : x.isFinite with
  | false => simp [asFloat]
  | true =>
    rw [if_pos rfl, asFloat, and_iff_right rfl]
    constructor
    · intro h
      split at h
      · exact Except.ok.inj h
      · cases h
    · intro h
      rw [h, hfinite]
      rfl

/-- Numbers whose texts have few digits and a small power of ten read back. -/
theorem readsBack_of_hasText (hfinite : x.isFinite = true) {n : Numeral} {cs : List Char}
    (hwrite : numberLayout.write x = signed (Decimal.isNegative x) cs) (htext : n.HasText cs)
    (hvalue : n.value (Decimal.isNegative x) = x)
    (hdigits : Decimal.digitsValue (n.whole ++ n.fraction) < 2 ^ 53)
    (hpower : (n.power - n.fraction.length).natAbs ≤ 22) : ReadsBack x := by
  refine readsBack_iff.2 ⟨hfinite, ?_⟩
  rw [hwrite, lexemeValue_signed _ htext, Parts.value_ofNumeral hdigits hpower, hvalue]

example : ReadsBack 3.25 := by decide +kernel
example : ¬ReadsBack 51.248178375505404 := by decide +kernel

theorem isKeepable_ofFloat (levels : ℕ) (h : ReadsBack x) :
    (ofFloat x).isKeepable levels = true := by
  obtain ⟨hfinite, hread⟩ := readsBack_iff.1 h
  rw [ofFloat, if_pos hfinite, isKeepable, hread, hfinite]

end Floats

section WholeNumbers

open Decimal (digitsOf intText)

theorem toList_intText (n : ℤ) :
    (intText n).toList = signed (decide (n < 0)) (digitsOf n.natAbs) := by
  cases n with
  | ofNat k => simp [intText, Decimal.natText, signed]
  | negSucc k => simp [intText, Decimal.natText, signed]

theorem writable_ofInt (n : ℤ) : Writable (ofInt n) := by
  show IsLexeme (intText n).toList
  rw [toList_intText]
  exact isLexeme_signed _ (Decimal.Numeral.hasText_digitsOf _)

theorem writable_ofNat (n : ℕ) : Writable (ofNat n) :=
  isLexeme_signed false (Decimal.Numeral.hasText_digitsOf n)

theorem lexemeInt?_digitsOf (n : ℕ) : lexemeInt? (digitsOf n) = some (n : ℤ) := by
  have hall : (digitsOf n).all Char.isDigit = true :=
    List.all_eq_true.2 fun _ => Decimal.isDigit_of_mem_digitsOf
  rw [lexemeInt?]
  · rw [hall, if_pos rfl, Decimal.digitsValue_digitsOf]
  · intro cs hcs
    have hminus : '-' ∈ digitsOf n := by simp [hcs]
    exact absurd (Decimal.isDigit_of_mem_digitsOf hminus) (by decide)

theorem lexemeInt?_intText (n : ℤ) : lexemeInt? (intText n).toList = some n := by
  rw [toList_intText]
  cases n with
  | ofNat k =>
    rw [decide_eq_false (show ¬Int.ofNat k < 0 from Int.not_lt.2 (Int.natCast_nonneg k))]
    exact lexemeInt?_digitsOf k
  | negSucc k =>
    rw [decide_eq_true (Int.negSucc_lt_zero k)]
    show lexemeInt? ('-' :: digitsOf (k + 1)) = _
    have hall : (digitsOf (k + 1)).all Char.isDigit = true :=
      List.all_eq_true.2 fun _ => Decimal.isDigit_of_mem_digitsOf
    have hne : digitsOf (k + 1) ≠ ['0'] := by
      intro hzero
      have hvalue := Decimal.digitsValue_digitsOf (k + 1)
      rw [hzero] at hvalue
      exact absurd hvalue (show (0 : ℕ) ≠ k + 1 by omega)
    rw [lexemeInt?, hall, if_pos (by simpa using hne), Decimal.digitsValue_digitsOf]
    rfl

theorem asInt_ofInt {n : ℤ} (h : -0x8000000000000000 ≤ n ∧ n < 0x8000000000000000) :
    (ofInt n).asInt = .ok n := by
  simp only [asInt, ofInt, lexemeInt?_intText, if_pos h]

theorem asNat_ofNat {n : ℕ} (h : n < 0x10000000000000000) : (ofNat n).asNat = .ok n := by
  have hrange : 0 ≤ (n : ℤ) ∧ (n : ℤ) < 0x10000000000000000 := by omega
  simp only [asNat, ofNat, lexemeInt?_digitsOf, if_pos hrange, Int.toNat_natCast]

theorem bounds_of_asInt {j : Json} {n : ℤ} (h : j.asInt = .ok n) :
    -0x8000000000000000 ≤ n ∧ n < 0x8000000000000000 := by
  unfold asInt at h
  split at h
  · split at h
    · split at h
      · obtain rfl := Except.ok.inj h
        assumption
      · cases h
    · cases h
  · cases h

theorem isKeepable_ofNat (levels : ℕ) {n : ℕ} (h : n < 0x10000000000000000) :
    (ofNat n).isKeepable levels = true := by
  have hvalue := lexemeValue_signed false (Decimal.Numeral.hasText_digitsOf n)
  have hfinite := Parts.isFinite_value_digitsOf false h
  rwa [← hvalue] at hfinite

theorem isKeepable_ofInt (levels : ℕ) {n : ℤ}
    (h : -0x8000000000000000 ≤ n ∧ n < 0x8000000000000000) :
    (ofInt n).isKeepable levels = true := by
  have hvalue := lexemeValue_signed (decide (n < 0)) (Decimal.Numeral.hasText_digitsOf n.natAbs)
  have hfinite := Parts.isFinite_value_digitsOf (decide (n < 0))
    (show n.natAbs < 2 ^ 64 by omega)
  rwa [← hvalue, ← toList_intText] at hfinite

end WholeNumbers

end BenchLedger.Json
