import BenchLedger.Proofs.Decimal.Layouts
import BenchLedger.Proofs.Time.Timestamps

/-!
# Timestamps that their texts keep

Some text is read as a timestamp just when its offset is a whole number of minutes and no leap
second stands inside a minute of its clock.  Such a timestamp is read from its own text.  The text
of any other is read as another instant, or not at all.
-/

namespace BenchLedger

namespace Instant

theorem of?_eq_some {seconds : ℤ} {nanos : ℕ} {t : Instant} :
    of? seconds nanos = some t ↔ t.seconds = seconds ∧ t.nanos = nanos := by
  constructor
  · intro h
    unfold of? at h
    split at h
    · obtain rfl := Option.some.inj h
      exact ⟨rfl, rfl⟩
    · exact absurd h.symm (Option.some_ne_none _)
  · rintro ⟨rfl, rfl⟩
    exact dif_pos ⟨t.seconds_mem, t.nanos_lt⟩

end Instant

theorem Decimal.digitsValue_lt {ds : List Char} (h : ∀ c ∈ ds, c.isDigit) :
    digitsValue ds < 10 ^ ds.length := by
  induction ds with
  | nil => exact Nat.one_pos
  | cons c ds ih =>
    rw [List.forall_mem_cons] at h
    have hrest := ih h.2
    have hfirst : digitsValue [c] ≤ 9 := by
      have hdigit := h.1
      show 10 * 0 + (c.toNat - 48) ≤ 9
      simp only [Char.isDigit, Bool.and_eq_true, decide_eq_true_eq] at hdigit
      have hnine : c.toNat ≤ 57 := hdigit.2
      omega
    rw [← List.singleton_append, digitsValue_append, List.length_append, List.length_singleton,
      pow_add, pow_one]
    nlinarith

namespace Time

-- Digits of a fraction up to the ninth write less than a second.
theorem readNanos_lt {cs rest : List Char} {nanos : ℕ} (h : readNanos cs = some (nanos, rest)) :
    nanos < 1000000000 := by
  unfold readNanos at h
  split at h
  case h_2 =>
    obtain rfl := (Prod.mk.inj (Option.some.inj h)).1
    decide
  case h_1 cs =>
    have hdigits : ∀ c ∈ (Decimal.spanDigits cs).1, c.isDigit :=
      fun _ hc => List.mem_takeWhile_imp hc
    split at h
    · exact absurd h.symm (Option.some_ne_none _)
    case h_2 ds rest _ hspan =>
      rw [hspan] at hdigits
      obtain rfl := (Prod.mk.inj (Option.some.inj h)).1
      have hkept : Decimal.digitsValue (ds.take 9) < 10 ^ (ds.take 9).length :=
        Decimal.digitsValue_lt fun c hc => hdigits c (List.mem_of_mem_take hc)
      have hlength : (ds.take 9).length ≤ 9 := List.length_take_le 9 ds
      show Decimal.digitsValue (ds.take 9) * 10 ^ (9 - (ds.take 9).length) < 1000000000
      calc Decimal.digitsValue (ds.take 9) * 10 ^ (9 - (ds.take 9).length)
          < 10 ^ (ds.take 9).length * 10 ^ (9 - (ds.take 9).length) :=
            Nat.mul_lt_mul_of_pos_right hkept (Nat.pow_pos (by norm_num))
        _ = 1000000000 := by
          rw [← pow_add, Nat.add_sub_cancel' hlength]
          norm_num

theorem shownMinutes_mul {offset : ℤ} (h : offset % 60 = 0) :
    shownMinutes offset * 60 = offset := by
  unfold shownMinutes roundedMinutes
  split <;> omega

end Time

namespace Timestamp

variable {t t' : Timestamp}

/-- Some text is read as the timestamp. -/
def Written (t : Timestamp) : Prop :=
  ∃ s, read? s = some t

/-- The offset is a whole number of minutes, and a leap second is the last of a minute. -/
structure Whole (t : Timestamp) : Prop where
  offset : t.offset % 60 = 0
  leap : 1000000000 ≤ t.instant.nanos → t.localSeconds % 60 = 59

theorem of?_eq_some {instant : Instant} {minutes : ℤ} :
    of? instant minutes = some t ↔ t.instant = instant ∧ t.offset = minutes * 60 := by
  constructor
  · intro h
    unfold of? at h
    split at h
    · obtain rfl := Option.some.inj h
      exact ⟨rfl, rfl⟩
    · exact absurd h.symm (Option.some_ne_none _)
  · obtain ⟨instant', offset, hlt, hmem⟩ := t
    rintro ⟨rfl, rfl⟩
    exact dif_pos ⟨hlt, hmem⟩

theorem whole_of_read? {s : String} (h : read? s = some t) : t.Whole := by
  unfold read? at h
  obtain ⟨⟨year, cs₁⟩, -, h⟩ := Option.bind_eq_some_iff.1 h
  obtain ⟨cs₂, -, h⟩ := Option.bind_eq_some_iff.1 h
  obtain ⟨⟨month, cs₃⟩, -, h⟩ := Option.bind_eq_some_iff.1 h
  obtain ⟨cs₄, -, h⟩ := Option.bind_eq_some_iff.1 h
  obtain ⟨⟨day, cs₅⟩, -, h⟩ := Option.bind_eq_some_iff.1 h
  -- date and time must be separated
  dsimp only at h
  split at h
  case h_2 => exact absurd h.symm (Option.some_ne_none _)
  split at h
  case isFalse => exact absurd h.symm (Option.some_ne_none _)
  obtain ⟨cs₆, -, h⟩ := Option.bind_eq_some_iff.1 h
  obtain ⟨⟨hour, cs₇⟩, -, h⟩ := Option.bind_eq_some_iff.1 h
  obtain ⟨cs₈, -, h⟩ := Option.bind_eq_some_iff.1 h
  obtain ⟨⟨minute, cs₉⟩, -, h⟩ := Option.bind_eq_some_iff.1 h
  obtain ⟨cs₁₀, -, h⟩ := Option.bind_eq_some_iff.1 h
  obtain ⟨⟨second, cs₁₁⟩, -, h⟩ := Option.bind_eq_some_iff.1 h
  obtain ⟨⟨nanos, cs₁₂⟩, hnanos, h⟩ := Option.bind_eq_some_iff.1 h
  obtain ⟨⟨minutes, cs₁₃⟩, -, h⟩ := Option.bind_eq_some_iff.1 h
  have hlt := Time.readNanos_lt hnanos
  split at h
  case isFalse => exact absurd h.symm (Option.some_ne_none _)
  obtain ⟨instant, hinstant, ht⟩ := Option.bind_eq_some_iff.1 h
  obtain ⟨hseconds, hnanos⟩ := Instant.of?_eq_some.1 hinstant
  obtain ⟨rfl, hoffset⟩ := of?_eq_some.1 ht
  constructor
  · omega
  · intro hleap
    unfold localSeconds
    split at hnanos <;> omega

theorem reread?_eq_some :
    t.reread? = some t' ↔
      t'.instant.seconds = t.localSeconds + t.carried - Time.shownMinutes t.offset * 60 ∧
      t'.instant.nanos = t.instant.nanos - t.carried * 1000000000 ∧
      t'.offset = Time.shownMinutes t.offset * 60 := by
  rw [reread?, Option.bind_eq_some_iff]
  constructor
  · rintro ⟨instant, hinstant, ht⟩
    obtain ⟨rfl, hoffset⟩ := of?_eq_some.1 ht
    obtain ⟨hseconds, hnanos⟩ := Instant.of?_eq_some.1 hinstant
    exact ⟨hseconds, hnanos, hoffset⟩
  · rintro ⟨hseconds, hnanos, hoffset⟩
    exact ⟨t'.instant, Instant.of?_eq_some.2 ⟨hseconds, hnanos⟩, of?_eq_some.2 ⟨rfl, hoffset⟩⟩

theorem Whole.reread? (h : t.Whole) : t.reread? = some t := by
  have hcarried : t.carried = 0 := if_neg fun hleap => hleap.2 (h.leap hleap.1)
  have hoffset := Time.shownMinutes_mul h.offset
  rw [reread?_eq_some, hcarried, hoffset]
  unfold localSeconds
  omega

theorem written_iff_whole : t.Written ↔ t.Whole :=
  ⟨fun ⟨_, h⟩ => whole_of_read? h, fun h => ⟨t.text, (read?_text t).trans h.reread?⟩⟩

/-- A timestamp that some text is read as is read from its own text. -/
theorem Written.reread? (h : t.Written) : t.reread? = some t :=
  (written_iff_whole.1 h).reread?

theorem written_of_reread? (h : t.reread? = some t') : t'.Written :=
  ⟨t.text, (read?_text t).trans h⟩

instance (t : Timestamp) : Decidable t.Written :=
  decidable_of_iff (t.offset % 60 = 0 ∧ (1000000000 ≤ t.instant.nanos → t.localSeconds % 60 = 59))
    ⟨fun h => written_iff_whole.2 ⟨h.1, h.2⟩,
      fun h => ⟨(written_iff_whole.1 h).1, (written_iff_whole.1 h).2⟩⟩

/-- What the text of a timestamp is read as is another instant, unless it is the timestamp. -/
theorem instant_ne_of_not_written (h : ¬t.Written) (hread : t.reread? = some t') :
    t'.instant ≠ t.instant := by
  obtain ⟨hseconds, hnanos, -⟩ := reread?_eq_some.1 hread
  intro heq
  rw [heq] at hseconds hnanos
  -- a second that was carried would be missing from the nanoseconds
  have hcarried : t.carried = 0 := by
    unfold carried at hnanos ⊢
    split at hnanos
    · omega
    · exact if_neg ‹_›
  refine h (written_iff_whole.2 ⟨?_, fun hleap => ?_⟩)
  · unfold localSeconds at hseconds
    omega
  · by_contra hinside
    exact absurd ((if_pos ⟨hleap, hinside⟩ : t.carried = 1).symm.trans hcarried) (by decide)

-- A clock that is an hour and half a minute ahead, and one that is a day behind but a second.
example : (reread? ⟨.epoch, 3630, by decide, by decide⟩).map (·.instant.seconds) = some (-30) := by
  decide
example : reread? ⟨.epoch, -86399, by decide, by decide⟩ = none := by decide

end Timestamp

end BenchLedger
