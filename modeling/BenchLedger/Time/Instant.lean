import BenchLedger.Time.Calendar

/-!
Instants of universal time with nanoseconds, and timestamps that remember the offset of the clock
that wrote them. An instant inside a leap second counts on from the second before it, so that it
lies between that second and the next; nothing is asked of where in its minute that second stands.
-/

namespace BenchLedger

-- First and last second that an instant or a local clock can show: the years -262143 to 262142.
def Time.firstSecond : Int := -8334601228800

def Time.lastSecond : Int := 8210266876799

structure Instant where
  -- Seconds since the start of 1970, leap seconds not counted.
  seconds : Int
  -- Nanoseconds of the second, a thousand million more inside a leap second.
  nanos : Nat
  seconds_mem : Time.firstSecond ≤ seconds ∧ seconds ≤ Time.lastSecond := by decide
  nanos_lt : nanos < 2000000000 := by decide
  deriving DecidableEq, Repr

namespace Instant

def epoch : Instant where
  seconds := 0
  nanos := 0

instance : Inhabited Instant := ⟨epoch⟩

def of? (seconds : Int) (nanos : Nat) : Option Instant :=
  if h : (Time.firstSecond ≤ seconds ∧ seconds ≤ Time.lastSecond) ∧ nanos < 2000000000 then
    some ⟨seconds, nanos, h.1, h.2⟩
  else none

def ticks (t : Instant) : Int :=
  t.seconds * 2000000000 + t.nanos

theorem ticks_inj {a b : Instant} : a.ticks = b.ticks ↔ a = b := by
  constructor
  · intro h
    have ha := a.nanos_lt
    have hb := b.nanos_lt
    cases a
    cases b
    simp only [ticks] at h ha hb
    simp only [Instant.mk.injEq]
    omega
  · rintro rfl
    rfl

instance : LE Instant := ⟨fun a b => a.ticks ≤ b.ticks⟩

instance : LT Instant := ⟨fun a b => a.ticks < b.ticks⟩

instance (a b : Instant) : Decidable (a ≤ b) :=
  inferInstanceAs (Decidable (a.ticks ≤ b.ticks))

instance (a b : Instant) : Decidable (a < b) :=
  inferInstanceAs (Decidable (a.ticks < b.ticks))

theorem le_def {a b : Instant} : a ≤ b ↔ a.ticks ≤ b.ticks := Iff.rfl

theorem lt_def {a b : Instant} : a < b ↔ a.ticks < b.ticks := Iff.rfl

-- Whole milliseconds since the start of 1970, rounded down.
def millis (t : Instant) : Int :=
  t.seconds * 1000 + (t.nanos / 1000000 : Nat)

def ofMillis? (n : Int) : Option Instant :=
  of? (n / 1000) ((n % 1000).toNat * 1000000)

def truncated (t : Instant) : Instant :=
  (ofMillis? t.millis).getD t

end Instant

/-- An instant and the offset of the clock that wrote it. -/
structure Timestamp where
  instant : Instant
  -- Seconds that the clock is ahead of universal time.
  offset : Int
  offset_lt : -86400 < offset ∧ offset < 86400 := by decide
  local_mem : Time.firstSecond ≤ instant.seconds + offset ∧
    instant.seconds + offset ≤ Time.lastSecond
  deriving DecidableEq, Repr

namespace Timestamp

/-- The timestamp of an instant on a clock that is so many minutes ahead. -/
def of? (instant : Instant) (minutes : Int) : Option Timestamp :=
  if h : (-86400 < minutes * 60 ∧ minutes * 60 < 86400) ∧
      Time.firstSecond ≤ instant.seconds + minutes * 60 ∧
      instant.seconds + minutes * 60 ≤ Time.lastSecond then
    some ⟨instant, minutes * 60, h.1, h.2⟩
  else none

def utc (t : Instant) : Timestamp where
  instant := t
  offset := 0
  local_mem := by simpa using t.seconds_mem

instance : Inhabited Timestamp := ⟨utc .epoch⟩

-- Seconds of the local clock since it showed the start of 1970.
def localSeconds (t : Timestamp) : Int :=
  t.instant.seconds + t.offset

end Timestamp

end BenchLedger
