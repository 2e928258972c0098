import BenchLedger.Proofs.Decimal.Bits
import BenchLedger.Proofs.Decimal.Digits
import BenchLedger.Proofs.Decimal.Shortest

/-!
# Texts of numerals

The text of a numeral falls into its whole digits, its places behind the point and its power of
ten, each of which a reader takes up to its end.  Numerals are read as numbers up to infinity, and
one that writes the fewest digits of a finite number is read as that number.
-/

namespace BenchLedger.Decimal

/-- One digit or more. -/
structure IsDigits (ds : List Char) : Prop where
  ne_nil : ds ≠ []
  digits : ∀ c ∈ ds, c.isDigit

/-- Digits before a point: no zero stands before others. -/
structure IsWhole (ds : List Char) : Prop extends IsDigits ds where
  leading : ∀ cs, ds = '0' :: cs → cs = []

/-- The text of the digits behind the point; without digits there is no point. -/
inductive IsPlaces : List Char → List Char → Prop
  | none : IsPlaces [] []
  | point {ds : List Char} (h : IsDigits ds) : IsPlaces ('.' :: ds) ds

/-- The text of a power of ten, with its sign; where there is none, the power is zero. -/
inductive IsPower : List Char → ℤ → Prop
  | none : IsPower [] 0
  | plus {ds : List Char} (h : IsDigits ds) : IsPower ('e' :: '+' :: ds) (digitsValue ds)
  | minus {ds : List Char} (h : IsDigits ds) : IsPower ('e' :: '-' :: ds) (-digitsValue ds)

theorem IsDigits.spanDigits_append {ds rest : List Char} (h : IsDigits ds)
    (hrest : EndsNumber rest) : spanDigits (ds ++ rest) = (ds, rest) :=
  spanDigits_append_of_isDigit h.digits hrest

theorem IsDigits.spanDigits {ds : List Char} (h : IsDigits ds) : spanDigits ds = (ds, []) := by
  have hspan := h.spanDigits_append endsNumber_nil
  rwa [List.append_nil] at hspan

theorem isDigits_of_spanDigits {cs ds rest : List Char} (h : spanDigits cs = (ds, rest))
    (hne : ds ≠ []) : cs = ds ++ rest ∧ IsDigits ds := by
  have hjoin := spanDigits_append cs
  rw [h] at hjoin
  have hds : cs.takeWhile Char.isDigit = ds := congrArg Prod.fst h
  exact ⟨hjoin.symm, hne, fun c hc => List.mem_takeWhile_imp (hds ▸ hc)⟩

theorem isDigits_digitsOf (n : ℕ) : IsDigits (digitsOf n) :=
  ⟨digitsOf_ne_nil n, fun _ => isDigit_of_mem_digitsOf⟩

theorem isWhole_digitsOf (n : ℕ) : IsWhole (digitsOf n) := by
  refine ⟨isDigits_digitsOf n, ?_⟩
  induction n using Nat.strong_induction_on with
  | _ n ih =>
    intro cs hcs
    unfold digitsOf at hcs ih
    by_cases hlt : n < 10
    · rw [Nat.toDigits_of_lt_base hlt] at hcs
      exact (List.cons.inj hcs).2.symm
    · -- a leading zero would lead the digits of a tenth, which is not zero
      rw [not_lt] at hlt
      rw [Nat.toDigits_of_base_le (by norm_num) hlt] at hcs
      obtain ⟨ds, hds⟩ : ∃ ds, Nat.toDigits 10 (n / 10) = '0' :: ds := by
        cases htenth : Nat.toDigits 10 (n / 10) with
        | nil => exact absurd htenth Nat.toDigits_ne_nil
        | cons c ds =>
          rw [htenth] at hcs
          exact ⟨ds, by rw [(List.cons.inj hcs).1]⟩
      have hvalue : Nat.ofDigitChars 10 (Nat.toDigits 10 (n / 10)) 0 = n / 10 :=
        Nat.ofDigitChars_ten_toDigits
      rw [hds, ih (n / 10) (by omega) ds hds] at hvalue
      exact absurd (show 0 = n / 10 from hvalue) (by omega)

theorem IsPlaces.endsNumber_append {places fraction rest : List Char} (h : IsPlaces places fraction)
    (hrest : EndsNumber rest) : EndsNumber (places ++ rest) := by
  cases h with
  | none => exact hrest
  | point h => exact endsNumber_cons (by decide)

theorem IsPower.endsNumber {power : List Char} {e : ℤ} (h : IsPower power e) :
    EndsNumber power := by
  cases h with
  | none => exact endsNumber_nil
  | plus | minus => exact endsNumber_cons (by decide)

theorem IsPower.head_ne_point {power : List Char} {e : ℤ} (h : IsPower power e) :
    ∀ c ∈ power.head?, c ≠ '.' := by
  cases h <;> simp

-- The reader of places stops at what is neither a digit nor a point.
theorem IsPlaces.readFraction_append {places fraction rest : List Char}
    (h : IsPlaces places fraction) (hends : EndsNumber rest) (hpoint : ∀ c ∈ rest.head?, c ≠ '.') :
    readFraction (places ++ rest) = (fraction, rest) := by
  cases h with
  | none =>
    rw [List.nil_append, readFraction]
    rintro cs rfl
    exact hpoint '.' rfl rfl
  | point h =>
    rw [List.cons_append, readFraction, h.spanDigits_append hends]
    split
    case h_1 heq => exact absurd (Prod.mk.inj heq).1 h.ne_nil
    case h_2 heq => exact heq.symm

theorem IsPower.readPower {power : List Char} {e : ℤ} (h : IsPower power e) :
    readPower power = (e, []) := by
  cases h with
  | none => rfl
  | plus h | minus h =>
    simp only [Decimal.readPower, readSign, beq_self_eq_true, Bool.true_or, if_true, h.spanDigits]
    split
    case h_1 heq => exact absurd (Prod.mk.inj heq).1 h.ne_nil
    case h_2 heq =>
      obtain ⟨rfl, rfl⟩ := Prod.mk.inj heq
      rfl

namespace Numeral

variable {n : Numeral} {cs : List Char}

/-- The text writes the numeral. -/
structure HasText (n : Numeral) (cs : List Char) : Prop where
  whole : IsWhole n.whole
  parts : ∃ places power, cs = n.whole ++ (places ++ power) ∧ IsPlaces places n.fraction ∧
    IsPower power n.power

/-- The decimal that the numeral writes. -/
def decimal (n : Numeral) : ℚ :=
  digitsValue (n.whole ++ n.fraction) * 10 ^ (n.power - n.fraction.length)

theorem HasText.read? (h : n.HasText cs) : read? cs = some (n, []) := by
  obtain ⟨hwhole, places, power, rfl, hplaces, hpower⟩ := h
  unfold Numeral.read?
  rw [hwhole.spanDigits_append (hplaces.endsNumber_append hpower.endsNumber)]
  split
  case h_1 heq => exact absurd (Prod.mk.inj heq).1 hwhole.ne_nil
  case h_2 heq =>
    obtain ⟨rfl, rfl⟩ := Prod.mk.inj heq
    rw [hplaces.readFraction_append hpower.endsNumber hpower.head_ne_point]
    dsimp only
    rw [hpower.readPower]

-- The text of a numeral starts with a digit.
theorem HasText.eq_cons (h : n.HasText cs) : ∃ c ds, cs = c :: ds ∧ c.isDigit := by
  obtain ⟨hwhole, places, power, rfl, -, -⟩ := h
  cases hw : n.whole with
  | nil => exact absurd hw hwhole.ne_nil
  | cons c ds => exact ⟨c, _, rfl, hwhole.digits c (by simp [hw])⟩

theorem hasText_digitsOf (k : ℕ) : HasText ⟨digitsOf k, [], 0⟩ (digitsOf k) :=
  ⟨isWhole_digitsOf k, [], [], by simp, .none, .none⟩

end Numeral

theorem nearestDecimalIndex_le (digits : ℕ) (exponent : ℤ) :
    nearestDecimalIndex digits exponent ≤ infinityIndex := by
  unfold nearestDecimalIndex nearestIndex
  dsimp only
  split_ifs
  · exact Nat.zero_le _
  · exact Nat.zero_le _
  · exact le_rfl
  · exact Nat.zero_le _
  · exact min_le_right _ _

namespace Numeral

variable (n : Numeral)

theorem isNegative_value (negative : Bool) : isNegative (n.value negative) = negative :=
  isNegative_ofIndex negative (nearestDecimalIndex_le _ _)

variable {n}

/-- A numeral of the same decimal as the fewest digits of a finite number is read as the number. -/
theorem value_of_decimal {x : Float} (hfinite : x.isFinite = true)
    (h : n.decimal = (shortest x).digits * 10 ^ (shortest x).exponent) :
    n.value (isNegative x) = x := by
  have hindex := nearestDecimalIndex_of_shortest (magnitudeIndex_lt_of_isFinite hfinite) h
  rw [value, nearest, hindex, ofIndex_magnitudeIndex]

end Numeral

end BenchLedger.Decimal
