import BenchLedger.Decimal.Layout
import BenchLedger.Proofs.Decimal.Numerals

/-!
# Reading written numbers

Whatever the layout, the text of a finite number is a sign and a numeral of the same decimal as its
fewest digits, with zeros where it has no digits.  So the number reads back from its text.
-/

namespace BenchLedger.Decimal

theorem digitsValue_append (ds es : List Char) :
    digitsValue (ds ++ es) = digitsValue ds * 10 ^ es.length + digitsValue es := by
  rw [digitsValue_eq_ofDigitChars, Nat.ofDigitChars_append, Nat.ofDigitChars_eq_ofDigitChars_zero,
    mul_comm]
  rfl

theorem digitsValue_zeros (z : ℕ) : digitsValue (List.replicate z '0') = 0 := by
  rw [digitsValue_eq_ofDigitChars, Nat.ofDigitChars_replicate_zero, Nat.mul_zero]

theorem isDigits_zeros {z : ℕ} (h : z ≠ 0) : IsDigits (List.replicate z '0') := by
  refine ⟨by simpa using h, fun c hc => ?_⟩
  rw [List.eq_of_mem_replicate hc]
  decide

theorem IsDigits.append {ds es : List Char} (h : IsDigits ds) (hes : ∀ c ∈ es, c.isDigit) :
    IsDigits (ds ++ es) :=
  ⟨List.append_ne_nil_of_left_ne_nil h.ne_nil es, List.forall_mem_append.2 ⟨h.digits, hes⟩⟩

-- A single digit may be zero.
theorem isWhole_singleton {c : Char} (h : c.isDigit) : IsWhole [c] :=
  ⟨⟨by simp, by simpa using h⟩, fun _ hcs => (List.cons.inj hcs).2.symm⟩

/-- Digits that start like those of a positive number have no leading zero. -/
theorem isWhole_of_prefix {n : ℕ} {ds es : List Char} (hn : n ≠ 0) (h : IsDigits (ds ++ es))
    (hne : ds ≠ []) (hds : ∃ fs, ds ++ fs = digitsOf n) : IsWhole (ds ++ es) := by
  refine ⟨h, fun cs hcs => ?_⟩
  obtain ⟨fs, hfs⟩ := hds
  obtain ⟨ds', rfl⟩ : ∃ ds', ds = '0' :: ds' := by
    cases ds with
    | nil => exact absurd rfl hne
    | cons c ds => exact ⟨ds, by rw [(List.cons.inj hcs).1]⟩
  have hdigits : ds' ++ fs = [] := (isWhole_digitsOf n).leading _ hfs.symm
  have hvalue := digitsValue_digitsOf n
  rw [← hfs, List.cons_append, hdigits] at hvalue
  exact absurd hvalue.symm hn

/-- Digits with zeros before them, so many that one digit at least stands before the point. -/
def filled (places n : ℕ) : List Char :=
  List.replicate (places + 1 - (digitsOf n).length) '0' ++ digitsOf n

theorem digitsValue_filled (places n : ℕ) : digitsValue (filled places n) = n := by
  rw [filled, digitsValue_append, digitsValue_zeros, Nat.zero_mul, Nat.zero_add,
    digitsValue_digitsOf]

theorem isDigit_of_mem_filled {places n : ℕ} : ∀ c ∈ filled places n, c.isDigit := by
  refine List.forall_mem_append.2 ⟨fun c hc => ?_, (isDigits_digitsOf n).digits⟩
  rw [List.eq_of_mem_replicate hc]
  decide

-- The point stands either right behind the first of the zeros, or among the digits themselves.
theorem exists_split_filled {places : ℕ} (n : ℕ) (h : places ≠ 0) :
    ∃ whole fraction, whole ++ fraction = filled places n ∧ IsWhole whole ∧ IsDigits fraction ∧
      fraction.length = places := by
  have hlength : (filled places n).length =
      places + 1 - (digitsOf n).length + (digitsOf n).length := by
    rw [filled, List.length_append, List.length_replicate]
  obtain ⟨k, hk⟩ : ∃ k, k = (filled places n).length - places := ⟨_, rfl⟩
  have hplaced : ((filled places n).drop k).length = places := by
    rw [List.length_drop]
    omega
  have hwhole : ((filled places n).take k).length = k := by
    rw [List.length_take]
    omega
  have hne : (filled places n).take k ≠ [] := by
    rw [← List.length_pos_iff]
    omega
  have hdigits : ∀ c ∈ (filled places n).take k, c.isDigit :=
    fun c hc => isDigit_of_mem_filled c (List.mem_of_mem_take hc)
  refine ⟨_, _, List.take_append_drop k _, ?_, ⟨?_, ?_⟩, hplaced⟩
  · by_cases hone : k = 1
    · obtain ⟨c, hc⟩ := List.length_eq_one_iff.1 (hwhole.trans hone)
      rw [hc]
      exact isWhole_singleton (hdigits c (by simp [hc]))
    · -- more than one digit is left only where no zeros were filled in, and zero has but one
      have hfill : filled places n = digitsOf n := by
        rw [filled, show places + 1 - (digitsOf n).length = 0 by omega, List.replicate_zero,
          List.nil_append]
      have hn : n ≠ 0 := by
        rintro rfl
        rw [show (digitsOf 0).length = 1 from rfl] at hlength
        omega
      have hprefix : ∃ fs, (filled places n).take k ++ fs = digitsOf n :=
        ⟨_, (List.take_append_drop k _).trans hfill⟩
      have hall : IsDigits ((filled places n).take k ++ []) := by
        rw [List.append_nil]
        exact ⟨hne, hdigits⟩
      have hwhole := isWhole_of_prefix hn hall hne hprefix
      rwa [List.append_nil] at hwhole
  · rw [← List.length_pos_iff]
    omega
  · exact fun c hc => isDigit_of_mem_filled c (List.mem_of_mem_drop hc)

namespace Scaled

variable (d : Scaled)

/-- The decimal that the digits and the power of ten write. -/
def decimal : ℚ :=
  d.digits * 10 ^ d.exponent

theorem hasText_positional_of_nonneg (h : 0 ≤ d.exponent) (pointed : Bool) :
    ∃ n : Numeral, n.HasText (d.positional pointed) ∧ n.decimal = d.decimal := by
  obtain ⟨z, hz⟩ : ∃ z, z = if d.digits = 0 then 0 else d.exponent.toNat := ⟨_, rfl⟩
  have hwhole : IsWhole (digitsOf d.digits ++ List.replicate z '0') := by
    by_cases hzero : d.digits = 0
    · rw [hz, if_pos hzero, List.replicate_zero, List.append_nil]
      exact isWhole_digitsOf d.digits
    · refine isWhole_of_prefix hzero ((isDigits_digitsOf _).append fun c hc => ?_)
        (digitsOf_ne_nil _) ⟨[], List.append_nil _⟩
      rw [List.eq_of_mem_replicate hc]
      decide
  have hvalue : ((digitsValue (digitsOf d.digits ++ List.replicate z '0') : ℕ) : ℚ) =
      d.decimal := by
    rw [digitsValue_append, digitsValue_digitsOf, digitsValue_zeros, List.length_replicate, hz,
      add_zero, decimal]
    split
    case isTrue hzero => simp [hzero]
    case isFalse =>
      lift d.exponent to ℕ using h with e
      simp
  unfold positional
  dsimp only
  rw [if_pos h, ← hz]
  cases pointed with
  | false =>
    refine ⟨⟨digitsOf d.digits ++ List.replicate z '0', [], 0⟩,
      ⟨hwhole, [], [], by simp, .none, .none⟩, ?_⟩
    rw [Numeral.decimal, List.append_nil, hvalue]
    simp
  | true =>
    refine ⟨⟨digitsOf d.digits ++ List.replicate z '0', ['0'], 0⟩,
      ⟨hwhole, ['.', '0'], [], by simp, .point (isDigits_zeros one_ne_zero), .none⟩, ?_⟩
    rw [Numeral.decimal, digitsValue_append, show digitsValue ['0'] = 0 from rfl, add_zero,
      Nat.cast_mul, hvalue]
    simp

theorem hasText_positional_of_neg (h : d.exponent < 0) (pointed : Bool) :
    ∃ n : Numeral, n.HasText (d.positional pointed) ∧ n.decimal = d.decimal := by
  obtain ⟨places, hplaces⟩ : ∃ places : ℕ, places = (-d.exponent).toNat := ⟨_, rfl⟩
  have hpos : places ≠ 0 := by omega
  obtain ⟨whole, fraction, hjoin, hwhole, hfraction, hlength⟩ := exists_split_filled d.digits hpos
  refine ⟨⟨whole, fraction, 0⟩, ⟨hwhole, '.' :: fraction, [], ?_, .point hfraction, .none⟩, ?_⟩
  · have hsplit : (filled places d.digits).length - places = whole.length := by
      rw [← hjoin, List.length_append]
      omega
    unfold positional
    dsimp only
    rw [if_neg (not_le.2 h), ← hplaces]
    rw [← filled, hsplit, ← hjoin, List.take_left, List.drop_left, List.append_nil]
  · rw [Numeral.decimal, decimal]
    dsimp only
    rw [hjoin, digitsValue_filled, hlength]
    congr 2
    omega

theorem hasText_scientific :
    ∃ n : Numeral, n.HasText d.scientific ∧ n.decimal = d.decimal := by
  obtain ⟨c, cs, hds⟩ := List.exists_cons_of_ne_nil (digitsOf_ne_nil d.digits)
  have hdigits := (isDigits_digitsOf d.digits).digits
  rw [hds] at hdigits
  obtain ⟨hc, hcs⟩ := List.forall_mem_cons.1 hdigits
  obtain ⟨e, he⟩ : ∃ e, e = d.exponent + cs.length := ⟨_, rfl⟩
  have hpower : IsPower ('e' :: (if 0 ≤ e then '+' else '-') :: digitsOf e.natAbs) e := by
    split
    case isTrue hnonneg =>
      have hplus := IsPower.plus (isDigits_digitsOf e.natAbs)
      rwa [digitsValue_digitsOf, Int.natAbs_of_nonneg hnonneg] at hplus
    case isFalse hneg =>
      have hminus := IsPower.minus (isDigits_digitsOf e.natAbs)
      rwa [digitsValue_digitsOf, Int.ofNat_natAbs_of_nonpos (by omega), neg_neg] at hminus
  have hlength : d.exponent + (digitsOf d.digits).length - 1 = e := by
    rw [hds, List.length_cons]
    omega
  refine ⟨⟨[c], cs, e⟩, ⟨isWhole_singleton hc, if cs = [] then [] else '.' :: cs,
    'e' :: (if 0 ≤ e then '+' else '-') :: digitsOf e.natAbs, ?_, ?_, hpower⟩, ?_⟩
  · unfold scientific
    dsimp only
    rw [hlength, hds]
    cases cs <;> rfl
  · split
    case isTrue hnil => rw [hnil]; exact .none
    case isFalse hne => exact .point ⟨hne, hcs⟩
  · rw [Numeral.decimal]
    dsimp only
    rw [List.singleton_append, ← hds, digitsValue_digitsOf, decimal, he, add_sub_cancel_right]

/-- In any layout, digits and power of ten are written as a numeral of their decimal. -/
theorem hasText_layOut (l : Layout) :
    ∃ n : Numeral, n.HasText (d.layOut l) ∧ n.decimal = d.decimal := by
  unfold layOut
  split
  · by_cases h : 0 ≤ d.exponent
    · exact d.hasText_positional_of_nonneg h l.pointed
    · exact d.hasText_positional_of_neg (not_le.1 h) l.pointed
  · exact d.hasText_scientific

end Scaled

/-- The text of a finite number is its sign and a numeral that is read as the number. -/
theorem Layout.write_of_isFinite (l : Layout) {x : Float} (h : x.isFinite = true) :
    ∃ (n : Numeral) (cs : List Char), l.write x = (if isNegative x then ['-'] else []) ++ cs ∧
      n.HasText cs ∧ n.value (isNegative x) = x := by
  obtain ⟨n, htext, hdecimal⟩ := (shortest x).hasText_layOut l
  obtain ⟨hnan, hinf⟩ := isNaN_and_isInf_of_isFinite h
  refine ⟨n, _, ?_, htext, Numeral.value_of_decimal h hdecimal⟩
  rw [write, hnan, hinf]
  rfl

/-- A finite number that is not negative reads back from its plain text. -/
theorem read?_write_plain {x : Float} (hfinite : x.isFinite = true)
    (hneg : isNegative x = false) :
    ∃ n, Numeral.read? (plain.write x) = some (n, []) ∧ n.value false = x := by
  obtain ⟨n, cs, hwrite, htext, hvalue⟩ := plain.write_of_isFinite hfinite
  rw [hneg] at hwrite hvalue
  refine ⟨n, ?_, hvalue⟩
  rw [hwrite]
  exact htext.read?

end BenchLedger.Decimal
