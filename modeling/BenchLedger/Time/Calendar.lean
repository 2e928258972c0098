/-!
The calendar of the Gregorian reform, extended to all years, as a numbering of days with day 0 on
1 January 1970. Years are counted from March, so that a leap day is the last of its year.
-/

namespace BenchLedger.Time

structure Date where
  year : Int
  month : Nat
  day : Nat
  deriving DecidableEq, Repr

def isLeapYear (year : Int) : Bool :=
  year % 4 = 0 && (year % 100 ≠ 0 || year % 400 = 0)

def daysInMonth (year : Int) (month : Nat) : Nat :=
  if month = 2 then if isLeapYear year then 29 else 28
  else if month = 4 ∨ month = 6 ∨ month = 9 ∨ month = 11 then 30
  else 31

def Date.isValid (d : Date) : Bool :=
  1 ≤ d.month && d.month ≤ 12 && 1 ≤ d.day && d.day ≤ daysInMonth d.year d.month

-- Days before a month in a year that begins in March.
def daysBeforeMonth (fromMarch : Nat) : Nat :=
  (153 * fromMarch + 2) / 5

def Date.dayNumber (d : Date) : Int :=
  let year := if d.month ≤ 2 then d.year - 1 else d.year
  let ofCycle := year % 400
  let ofYear : Int := daysBeforeMonth ((d.month + 9) % 12) + d.day - 1
  year / 400 * 146097 + (ofCycle * 365 + ofCycle / 4 - ofCycle / 100 + ofYear) - 719468

def Date.ofDayNumber (n : Int) : Date :=
  let cycle := (n + 719468) / 146097
  let ofCycle := ((n + 719468) % 146097).toNat
  let year := (ofCycle - ofCycle / 1460 + ofCycle / 36524 - ofCycle / 146096) / 365
  let ofYear := ofCycle - (365 * year + year / 4 - year / 100)
  let fromMarch := (5 * ofYear + 2) / 153
  let month := if fromMarch < 10 then fromMarch + 3 else fromMarch - 9
  { year := cycle * 400 + year + (if month ≤ 2 then 1 else 0)
    month
    day := ofYear - daysBeforeMonth fromMarch + 1 }

example : (Date.mk 1970 1 1).dayNumber = 0 := by decide
example : (Date.mk 2022 6 26).dayNumber = 19169 := by decide
example : Date.ofDayNumber 19169 = ⟨2022, 6, 26⟩ := by decide
example : Date.ofDayNumber (-719529) = ⟨-1, 12, 31⟩ := by decide
example : Date.ofDayNumber 11016 = ⟨2000, 2, 29⟩ := by decide

end BenchLedger.Time
