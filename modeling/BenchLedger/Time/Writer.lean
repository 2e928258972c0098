import BenchLedger.Decimal.Layout
import BenchLedger.Time.Instant

/-!
Timestamps as text by RFC 3339: the fraction of the second in 0, 3, 6 or 9 digits, `Z` for an
offset of zero, and a sign before years that do not have four digits. The text shows the local time
to the nanosecond, but the offset in minutes only, to which it is rounded.
-/

namespace BenchLedger.Time

open Decimal (padded digitsOf)

def yearText (year : Int) : List Char :=
  if 0 ≤ year ∧ year ≤ 9999 then padded 4 year.toNat
  else (if year < 0 then '-' else '+') :: padded 4 year.natAbs

def dateText (d : Date) : List Char :=
  yearText d.year ++ '-' :: padded 2 d.month ++ '-' :: padded 2 d.day

-- Date and time of day of a clock, without fraction; `between` separates the two.
def clockText (seconds : Int) (nanos : Nat) (between : Char) : List Char :=
  let ofDay := (seconds % 86400).toNat
  let second := ofDay % 60 + nanos / 1000000000
  dateText (.ofDayNumber (seconds / 86400)) ++ between :: padded 2 (ofDay / 3600) ++
    ':' :: padded 2 (ofDay / 60 % 60) ++ ':' :: padded 2 second

-- The fewest digits, in steps of three, that show the nanoseconds exactly.
def fractionText (nanos : Nat) : List Char :=
  let n := nanos % 1000000000
  if n = 0 then []
  else if n % 1000000 = 0 then '.' :: padded 3 (n / 1000000)
  else if n % 1000 = 0 then '.' :: padded 6 (n / 1000)
  else '.' :: padded 9 n

-- Minutes of an offset without its sign, half a minute being rounded up.
def roundedMinutes (offset : Int) : Nat :=
  (offset.natAbs + 30) / 60

def offsetText (behind : Bool) (minutes : Nat) : List Char :=
  (if behind then '-' else '+') :: padded 2 (minutes / 60) ++ ':' :: padded 2 (minutes % 60)

-- The offset is in seconds.
def zoneText (offset : Int) : List Char :=
  if offset = 0 then ['Z'] else offsetText (decide (offset < 0)) (roundedMinutes offset)

end Time

namespace Timestamp

def chars (t : Timestamp) : List Char :=
  Time.clockText t.localSeconds t.instant.nanos 'T' ++ Time.fractionText t.instant.nanos ++
    Time.zoneText t.offset

def text (t : Timestamp) : String :=
  String.ofList t.chars

def tableText (t : Timestamp) : String :=
  String.ofList
    (Time.clockText t.localSeconds t.instant.nanos ' ' ++
      ' ' :: Time.offsetText (decide (t.offset < 0)) (Time.roundedMinutes t.offset))

end Timestamp

namespace Instant

def text (t : Instant) : String :=
  (Timestamp.utc t).text

def spacedText (t : Instant) : String :=
  String.ofList (Time.clockText t.seconds t.nanos ' ' ++ Time.fractionText t.nanos) ++ " UTC"

end Instant

end BenchLedger
