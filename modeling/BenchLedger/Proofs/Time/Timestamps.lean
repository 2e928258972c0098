import BenchLedger.Proofs.Decimal.Digits
import BenchLedger.Proofs.Text.Trimming
import BenchLedger.Proofs.Time.Calendar
import BenchLedger.Time.Reader
import BenchLedger.Time.Writer

/-!
# Reading written timestamps

The text of a timestamp shows date, time of day, fraction and zone, which are read one after the
other, each leaving exactly the text of the next.  What is read is the local time with the offset in
minutes that the text shows, and with an additional second where a leap second is not the last of
its minute.
-/

namespace BenchLedger

namespace Time

open Decimal

theorem readNumber_padded {width n : Nat} (hpos : 0 < width) (h : n < Nat.pow 10 width)
    (rest : List Char) : readNumber width (padded width n ++ rest) = some (n, rest) := by
  have hdrop := Text.dropBlanks_append_of_isDigit (padded_ne_nil width n)
    (fun _ => isDigit_of_mem_padded) rest
  have hlen := length_padded hpos h
  have htake : (padded width n ++ rest).take width = padded width n := by
    rw [List.take_append_of_le_length (by omega), List.take_of_length_le (by omega)]
  have hdigits : (padded width n ++ []).takeWhile Char.isDigit = padded width n :=
    takeWhile_isDigit_append (fun _ => isDigit_of_mem_padded) endsNumber_nil
  rw [List.append_nil] at hdigits
  have hempty : (padded width n).isEmpty = false := by simp [padded_ne_nil]
  simp only [readNumber, hdrop, htake, hdigits, hempty, Bool.false_eq_true, if_false,
    digitsValue_padded, List.drop_left]

theorem readMark_cons {c : Char} (h : Text.isBlank c = false) (rest : List Char) :
    readMark c (c :: rest) = some rest := by
  simp [readMark, Text.dropBlanks_cons h]

private theorem spanDigits_padded {width n : Nat} {rest : List Char} (h : EndsNumber rest) :
    spanDigits (padded width n ++ rest) = (padded width n, rest) :=
  spanDigits_append_of_isDigit (fun _ => isDigit_of_mem_padded) h

-- A digit is no sign, so a year without one is read as a number of four digits.
private theorem readYear_of_isDigit {d : Char} (hd : d.isDigit) (cs : List Char) :
    readYear (d :: cs) = (readNumber 4 (d :: cs)).map fun (n, rest) => ((n : Int), rest) := by
  unfold readYear
  rw [Text.dropBlanks_cons (Text.isBlank_of_isDigit hd)]
  -- the two first cases are those of a sign
  split
  · rename_i h
    rw [(List.cons.inj h).1] at hd
    contradiction
  · rename_i h
    rw [(List.cons.inj h).1] at hd
    contradiction
  · rfl

theorem readYear_yearText (year : Int) {rest : List Char} (hrest : EndsNumber rest) :
    readYear (yearText year ++ rest) = some (year, rest) := by
  unfold yearText
  by_cases hshort : 0 ≤ year ∧ year ≤ 9999
  · rw [if_pos hshort]
    have hfour : year.toNat < Nat.pow 10 4 := by
      show year.toNat < 10000
      omega
    have hread : readNumber 4 (padded 4 year.toNat ++ rest) = some (year.toNat, rest) :=
      readNumber_padded (by decide) hfour rest
    have hdigit : ∀ c ∈ padded 4 year.toNat, c.isDigit := fun _ => isDigit_of_mem_padded
    have hne := padded_ne_nil 4 year.toNat
    generalize padded 4 year.toNat = ds at hread hdigit hne ⊢
    cases ds with
    | nil => exact absurd rfl hne
    | cons d ds =>
      rw [List.cons_append, readYear_of_isDigit (hdigit d (by simp)), ← List.cons_append, hread]
      show some ((year.toNat : Int), rest) = some (year, rest)
      rw [Int.toNat_of_nonneg hshort.1]
  · rw [if_neg hshort]
    have hne := padded_ne_nil 4 year.natAbs
    by_cases hneg : year < 0
    · rw [if_pos hneg, List.cons_append]
      unfold readYear
      rw [Text.dropBlanks_cons (by decide)]
      simp only [spanDigits_padded hrest, digitsValue_padded]
      exact congrArg (fun y => some (y, rest)) (by omega)
    · rw [if_neg hneg, List.cons_append]
      unfold readYear
      rw [Text.dropBlanks_cons (by decide)]
      simp only [spanDigits_padded hrest, digitsValue_padded]
      exact congrArg (fun y => some (y, rest)) (by omega)

/-- The next text is neither a point nor a digit, so a fraction ends before it. -/
def EndsFraction (rest : List Char) : Prop :=
  EndsNumber rest ∧ ∀ cs, rest ≠ '.' :: cs

private theorem readNanos_padded {width n : Nat} (hpos : 0 < width) (hwidth : width ≤ 9)
    (h : n < Nat.pow 10 width) {rest : List Char} (hrest : EndsFraction rest) :
    readNanos ('.' :: padded width n ++ rest) = some (n * Nat.pow 10 (9 - width), rest) := by
  have hlen := length_padded hpos h
  have htake : (padded width n).take 9 = padded width n := List.take_of_length_le (by omega)
  have hne := padded_ne_nil width n
  have hvalue := digitsValue_padded width n
  rw [List.cons_append]
  simp only [readNanos, spanDigits_padded hrest.1]
  generalize padded width n = ds at hlen htake hne hvalue
  cases ds with
  | nil => exact absurd rfl hne
  | cons d ds => simp only [htake, hvalue, hlen]

theorem readNanos_fractionText (nanos : Nat) {rest : List Char} (hrest : EndsFraction rest) :
    readNanos (fractionText nanos ++ rest) = some (nanos % 1000000000, rest) := by
  unfold fractionText
  generalize hn : nanos % 1000000000 = n
  have hlt : n < 1000000000 := by omega
  clear hn
  show readNanos ((if n = 0 then [] else _) ++ rest) = some (n, rest)
  by_cases h0 : n = 0
  · rw [if_pos h0, h0, List.nil_append]
    unfold readNanos
    split
    · exact absurd rfl (hrest.2 _)
    · rfl
  rw [if_neg h0]
  by_cases h6 : n % 1000000 = 0
  · have hthree : n / 1000000 < Nat.pow 10 3 := by
      show n / 1000000 < 1000
      omega
    rw [if_pos h6, readNanos_padded (by decide) (by decide) hthree hrest]
    show some (n / 1000000 * 1000000, rest) = some (n, rest)
    rw [Nat.div_mul_cancel (Nat.dvd_of_mod_eq_zero h6)]
  rw [if_neg h6]
  by_cases h3 : n % 1000 = 0
  · have hsix : n / 1000 < Nat.pow 10 6 := by
      show n / 1000 < 1000000
      omega
    rw [if_pos h3, readNanos_padded (by decide) (by decide) hsix hrest]
    show some (n / 1000 * 1000, rest) = some (n, rest)
    rw [Nat.div_mul_cancel (Nat.dvd_of_mod_eq_zero h3)]
  · rw [if_neg h3, readNanos_padded (by decide) (by decide) hlt hrest]
    show some (n * 1, rest) = some (n, rest)
    rw [Nat.mul_one]

private theorem readPair_padded {n : Nat} (h : n < 100) (rest : List Char) :
    readPair (padded 2 n ++ rest) = some (n, rest) := by
  have hlen : (padded 2 n).length = 2 := length_padded (by decide) h
  have hdigit : ∀ c ∈ padded 2 n, c.isDigit := fun _ => isDigit_of_mem_padded
  have hvalue := digitsValue_padded 2 n
  generalize padded 2 n = ds at hlen hdigit hvalue
  match ds, hlen with
  | [a, b], _ =>
    simp only [List.cons_append, List.nil_append, readPair, hdigit a (by simp),
      hdigit b (by simp), Bool.and_self, if_true, hvalue]

private theorem dropSeparators_padded (n : Nat) :
    (':' :: padded 2 n).dropWhile (fun c => c == ':' || Text.isBlank c) = padded 2 n := by
  have hdigit : ∀ c ∈ padded 2 n, c.isDigit := fun _ => isDigit_of_mem_padded
  rw [List.dropWhile_cons_of_pos (by decide)]
  generalize padded 2 n = ds at hdigit
  cases ds with
  | nil => rfl
  | cons d ds =>
    have hd := hdigit d (by simp)
    have hcolon : d ≠ ':' := by
      rintro rfl
      contradiction
    exact List.dropWhile_cons_of_neg (by simp [hcolon, Text.isBlank_of_isDigit hd])

private theorem asciiLower_ne_utc {c : Char} (h : c.toLower ≠ 'u') (cs : List Char) :
    Text.asciiLower (String.ofList (c :: cs)) ≠ "utc" := by
  intro heq
  have hlist := congrArg String.toList heq
  simp [Text.asciiLower] at hlist
  exact h hlist.1

private theorem readZone_sign {sign : Char} (h : sign = '+' ∨ sign = '-') {hours minutes : Nat}
    (hhours : hours < 100) (hminutes : minutes < 60) :
    readZone (sign :: padded 2 hours ++ ':' :: padded 2 minutes) =
      some (if sign = '+' then ((hours * 60 + minutes : Nat) : Int)
        else -((hours * 60 + minutes : Nat) : Int), []) := by
  have hpair := readPair_padded (n := minutes) (by omega) []
  rw [List.append_nil] at hpair
  have hutc : sign.toLower ≠ 'u' := by
    rcases h with rfl | rfl <;> decide
  have hz : (sign == 'Z' || sign == 'z') = false := by
    rcases h with rfl | rfl <;> decide
  have hsign : (sign == '+' || sign == '-' || sign == '\u2212') = true := by
    rcases h with rfl | rfl <;> decide
  unfold readZone
  rw [List.cons_append]
  simp only [hz, List.take_succ_cons, beq_iff_eq, asciiLower_ne_utc hutc, hsign, Bool.false_eq_true,
    if_false, if_true, readPair_padded hhours, dropSeparators_padded, hpair, hminutes,
    Option.bind_eq_bind, Option.bind_some]
  rfl

/-- The minutes that the text of an offset shows. -/
def shownMinutes (offset : Int) : Int :=
  if offset < 0 then -(roundedMinutes offset : Int) else roundedMinutes offset

theorem readZone_zoneText {offset : Int} (h : -86400 < offset ∧ offset < 86400) :
    readZone (zoneText offset) = some (shownMinutes offset, []) := by
  unfold zoneText shownMinutes
  by_cases h0 : offset = 0
  · rw [if_pos h0, h0]
    rfl
  have hhours : roundedMinutes offset / 60 < 100 := by
    unfold roundedMinutes
    omega
  rw [if_neg h0, offsetText]
  by_cases hneg : offset < 0
  · rw [if_pos hneg, decide_eq_true hneg, if_pos rfl,
      readZone_sign (.inr rfl) hhours (Nat.mod_lt _ (by decide))]
    rw [if_neg (by decide)]
    exact congrArg (fun n => some (n, ([] : List Char))) (by omega)
  · rw [if_neg hneg, decide_eq_false hneg, if_neg Bool.false_ne_true,
      readZone_sign (.inl rfl) hhours (Nat.mod_lt _ (by decide)), if_pos rfl]
    exact congrArg (fun n => some (n, ([] : List Char))) (by omega)

private theorem exists_zoneText_eq_cons (offset : Int) :
    ∃ c cs, zoneText offset = c :: cs ∧ (c = 'Z' ∨ c = '+' ∨ c = '-') := by
  unfold zoneText offsetText
  split
  · exact ⟨_, _, rfl, .inl rfl⟩
  split
  · exact ⟨_, _, rfl, .inr (.inr rfl)⟩
  · exact ⟨_, _, rfl, .inr (.inl rfl)⟩

theorem endsFraction_zoneText (offset : Int) : EndsFraction (zoneText offset) := by
  obtain ⟨c, cs, h, hc⟩ := exists_zoneText_eq_cons offset
  rw [h]
  constructor
  · apply endsNumber_cons
    rcases hc with rfl | rfl | rfl <;> decide
  · intro cs' heq
    rw [(List.cons.inj heq).1] at hc
    revert hc
    decide

theorem dropBlanks_zoneText (offset : Int) :
    Text.dropBlanks (zoneText offset) = zoneText offset := by
  obtain ⟨c, cs, h, hc⟩ := exists_zoneText_eq_cons offset
  rw [h]
  apply Text.dropBlanks_cons
  rcases hc with rfl | rfl | rfl <;> decide

end Time

namespace Timestamp

private theorem bind_eq {α β : Type} {x : Option α} {a : α} {f : α → Option β} {y : Option β}
    (hx : x = some a) (h : f a = y) : (x >>= f) = y := by
  rw [hx]
  exact h

-- The timestamp of the parts that are read one after the other.
private theorem read?_of_parts {s : String} {year : Int} {month day hour minute second nanos : Nat}
    {offset : Int} {cs₁ cs₂ cs₃ cs₄ cs₅ cs₆ cs₇ cs₈ cs₉ cs₁₀ cs₁₁ : List Char}
    (hyear : Time.readYear s.toList = some (year, cs₁))
    (hdash₁ : Time.readMark '-' cs₁ = some cs₂) (hmonth : Time.readNumber 2 cs₂ = some (month, cs₃))
    (hdash₂ : Time.readMark '-' cs₃ = some cs₄)
    (hday : Time.readNumber 2 cs₄ = some (day, 'T' :: cs₅))
    (hhour : Time.readNumber 2 cs₅ = some (hour, cs₆)) (hcolon₁ : Time.readMark ':' cs₆ = some cs₇)
    (hminute : Time.readNumber 2 cs₇ = some (minute, cs₈))
    (hcolon₂ : Time.readMark ':' cs₈ = some cs₉)
    (hsecond : Time.readNumber 2 cs₉ = some (second, cs₁₀))
    (hnanos : Time.readNanos cs₁₀ = some (nanos, cs₁₁))
    (hzone : Time.readZone (Text.dropBlanks cs₁₁) = some (offset, []))
    (hvalid : (Time.Date.mk year month day).isValid = true)
    (hclock : hour < 24 ∧ minute < 60 ∧ second ≤ 60) :
    read? s =
      (Instant.of? ((Time.Date.mk year month day).dayNumber * 86400 +
          ((hour * 3600 + minute * 60 + min second 59 : Nat) : Int) - offset * 60)
        (nanos + if second = 60 then 1000000000 else 0)).bind (of? · offset) := by
  have hseparator : ('T' == 'T' || 'T' == 't' || 'T' == ' ') = true := by decide
  refine bind_eq hyear (bind_eq hdash₁ (bind_eq hmonth (bind_eq hdash₂ (bind_eq hday ?_))))
  refine (if_pos hseparator).trans (bind_eq rfl ?_)
  refine bind_eq hhour (bind_eq hcolon₁ (bind_eq hminute ?_))
  refine bind_eq hcolon₂ (bind_eq hsecond (bind_eq hnanos (bind_eq hzone ?_)))
  apply if_pos
  simp only [hvalid, hclock, Bool.and_eq_true, decide_eq_true_eq, and_true]
  rfl

/-- The second that a text adds: a leap second inside a minute is shown as the second after it. -/
def carried (t : Timestamp) : Nat :=
  if 1000000000 ≤ t.instant.nanos ∧ t.localSeconds % 60 ≠ 59 then 1 else 0

/-- The timestamp that the text of a timestamp is read as. -/
def reread? (t : Timestamp) : Option Timestamp :=
  (Instant.of? (t.localSeconds + t.carried - Time.shownMinutes t.offset * 60)
    (t.instant.nanos - t.carried * 1000000000)).bind (of? · (Time.shownMinutes t.offset))

theorem read?_text (t : Timestamp) : read? t.text = t.reread? := by
  have hnanos := t.instant.nanos_lt
  generalize hdate : Time.Date.ofDayNumber (t.localSeconds / 86400) = date
  have hvalid := Time.Date.isValid_ofDayNumber (t.localSeconds / 86400)
  have hnumber := Time.Date.dayNumber_ofDayNumber (t.localSeconds / 86400)
  rw [hdate] at hvalid hnumber
  obtain ⟨hmonth, hday⟩ := Time.Date.lt_of_isValid hvalid
  generalize hof : (t.localSeconds % 86400).toNat = ofDay
  have htwo {n : Nat} (h : n < 100) (rest : List Char) :
      Time.readNumber 2 (Decimal.padded 2 n ++ rest) = some (n, rest) :=
    Time.readNumber_padded (by decide) h rest
  have hdash : Text.isBlank '-' = false := by decide
  have hcolon : Text.isBlank ':' = false := by decide
  have hsecond : ofDay % 60 + t.instant.nanos / 1000000000 ≤ 60 := by omega
  -- the parts of the text, each with its successor behind it
  have htext : t.text.toList = Time.yearText date.year ++ '-' :: (Decimal.padded 2 date.month ++
      '-' :: (Decimal.padded 2 date.day ++ 'T' :: (Decimal.padded 2 (ofDay / 3600) ++
      ':' :: (Decimal.padded 2 (ofDay / 60 % 60) ++
      ':' :: (Decimal.padded 2 (ofDay % 60 + t.instant.nanos / 1000000000) ++
      (Time.fractionText t.instant.nanos ++ Time.zoneText t.offset)))))) := by
    unfold text chars Time.clockText Time.dateText
    rw [hdate, hof, String.toList_ofList]
    simp only [List.append_assoc, List.cons_append]
  rw [read?_of_parts (by rw [htext]; exact Time.readYear_yearText _ (Decimal.endsNumber_cons rfl))
    (Time.readMark_cons hdash _) (htwo hmonth _) (Time.readMark_cons hdash _) (htwo hday _)
    (htwo (by omega) _) (Time.readMark_cons hcolon _) (htwo (by omega) _)
    (Time.readMark_cons hcolon _) (htwo (by omega) _)
    (Time.readNanos_fractionText _ (Time.endsFraction_zoneText t.offset))
    (by rw [Time.dropBlanks_zoneText, Time.readZone_zoneText t.offset_lt]) hvalid
    ⟨by omega, by omega, hsecond⟩]
  have hseconds : date.dayNumber * 86400 + ((ofDay / 3600 * 3600 + ofDay / 60 % 60 * 60 +
      min (ofDay % 60 + t.instant.nanos / 1000000000) 59 : Nat) : Int) =
      t.localSeconds + t.carried := by
    rw [hnumber]
    unfold carried
    split <;> omega
  have hfraction : (t.instant.nanos % 1000000000 +
      if ofDay % 60 + t.instant.nanos / 1000000000 = 60 then 1000000000 else 0) =
      t.instant.nanos - t.carried * 1000000000 := by
    unfold carried
    split <;> split <;> omega
  rw [hseconds, hfraction]
  rfl

end Timestamp

end BenchLedger
