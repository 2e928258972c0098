import BenchLedger.Time.Instant

/-!
# Instants in milliseconds

The number of milliseconds of an instant gives an instant back, except inside a leap second at the
very end of the calendar: that number is the one of the second after it, which does not exist.
-/

namespace BenchLedger.Instant

/-- Inside a leap second behind the last second of the calendar. -/
def PastCalendar (t : Instant) : Prop :=
  t.seconds = Time.lastSecond ∧ 1000000000 ≤ t.nanos

instance (t : Instant) : Decidable t.PastCalendar :=
  inferInstanceAs (Decidable (_ ∧ _))

/-- On a whole millisecond and not in a leap second. -/
def OnMillisecond (t : Instant) : Prop :=
  t.nanos < 1000000000 ∧ t.nanos % 1000000 = 0

instance (t : Instant) : Decidable t.OnMillisecond :=
  inferInstanceAs (Decidable (_ ∧ _))

theorem OnMillisecond.not_pastCalendar {t : Instant} (h : t.OnMillisecond) : ¬t.PastCalendar :=
  fun hpast => Nat.not_lt.2 hpast.2 h.1

theorem ofMillis?_eq_none_iff {n : Int} :
    ofMillis? n = none ↔ n / 1000 < Time.firstSecond ∨ Time.lastSecond < n / 1000 := by
  have hnanos : (n % 1000).toNat * 1000000 < 1000000000 := by omega
  unfold ofMillis? of?
  split
  case isTrue h =>
    simp only [reduceCtorEq, false_iff]
    omega
  case isFalse h =>
    simp only [true_iff]
    omega

theorem ofMillis?_millis_eq_none_iff {t : Instant} :
    ofMillis? t.millis = none ↔ t.PastCalendar := by
  have hmem := t.seconds_mem
  have hnanos := t.nanos_lt
  rw [ofMillis?_eq_none_iff]
  unfold millis PastCalendar
  constructor
  · intro h
    -- the milliseconds of a leap second are those of the second after it
    have hdiv : (t.seconds * 1000 + ((t.nanos / 1000000 : Nat) : Int)) / 1000 =
        t.seconds + ((t.nanos / 1000000000 : Nat) : Int) := by
      omega
    omega
  · rintro ⟨hlast, hleap⟩
    right
    omega

theorem ofMillis?_millis {t : Instant} (h : t.OnMillisecond) : ofMillis? t.millis = some t := by
  obtain ⟨hnanos, hwhole⟩ := h
  have hseconds : t.millis / 1000 = t.seconds := by
    unfold millis
    omega
  have hrest : (t.millis % 1000).toNat * 1000000 = t.nanos := by
    unfold millis
    omega
  unfold ofMillis?
  rw [hseconds, hrest]
  exact dif_pos ⟨t.seconds_mem, t.nanos_lt⟩

theorem onMillisecond_of_ofMillis? {n : Int} {t : Instant} (h : ofMillis? n = some t) :
    t.OnMillisecond := by
  unfold ofMillis? of? at h
  split at h
  · obtain rfl := Option.some.inj h
    unfold OnMillisecond
    dsimp only
    omega
  · contradiction

end BenchLedger.Instant
