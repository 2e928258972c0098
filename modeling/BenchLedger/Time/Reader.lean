import BenchLedger.Decimal.Numeral
import BenchLedger.Text.Blank
import BenchLedger.Time.Instant

/-!
Reading timestamps by a relaxed RFC 3339: blanks may stand before numbers and separators, numbers
may lack leading zeros, date and time may be separated by a blank, and the zone may be `UTC`.
-/

namespace BenchLedger.Time

open Decimal (digitsValue spanDigits)

def readNumber (width : Nat) (cs : List Char) : Option (Nat × List Char) :=
  let cs := Text.dropBlanks cs
  let ds := (cs.take width).takeWhile Char.isDigit
  if ds.isEmpty then none else some (digitsValue ds, cs.drop ds.length)

-- Four digits at most, or a sign and any number of digits.
def readYear (cs : List Char) : Option (Int × List Char) :=
  match Text.dropBlanks cs with
  | '-' :: rest =>
    match spanDigits rest with
    | ([], _) => none
    | (ds, rest) => some (-(digitsValue ds : Int), rest)
  | '+' :: rest =>
    match spanDigits rest with
    | ([], _) => none
    | (ds, rest) => some (digitsValue ds, rest)
  | cs => (readNumber 4 cs).map fun (n, rest) => (n, rest)

def readMark (c : Char) (cs : List Char) : Option (List Char) :=
  match Text.dropBlanks cs with
  | d :: rest => if d == c then some rest else none
  | [] => none

-- The fraction of a second in nanoseconds; digits after the ninth are dropped.
def readNanos : List Char → Option (Nat × List Char)
  | '.' :: cs =>
    match spanDigits cs with
    | ([], _) => none
    | (ds, rest) =>
      let kept := ds.take 9
      some (digitsValue kept * Nat.pow 10 (9 - kept.length), rest)
  | cs => some (0, cs)

def readPair : List Char → Option (Nat × List Char)
  | a :: b :: rest =>
    if a.isDigit && b.isDigit then some (digitsValue [a, b], rest) else none
  | _ => none

def readZone (cs : List Char) : Option (Int × List Char) :=
  match cs with
  | [] => none
  | sign :: rest =>
    if sign == 'Z' || sign == 'z' then some (0, rest)
    else if Text.asciiLower (String.ofList (cs.take 3)) == "utc" then some (0, cs.drop 3)
    else if sign == '+' || sign == '-' || sign == '\u2212' then do
      let (hours, rest) ← readPair rest
      let (minutes, rest) ← readPair (rest.dropWhile fun c => c == ':' || Text.isBlank c)
      if minutes < 60 then
        let total : Int := (hours * 60 + minutes : Nat)
        return (if sign == '+' then total else -total, rest)
      else none
    else none

end Time

/-- The timestamp that a text of the relaxed form writes. The sixtieth second is a leap second. -/
def Timestamp.read? (s : String) : Option Timestamp := do
  let (year, cs) ← Time.readYear s.toList
  let cs ← Time.readMark '-' cs
  let (month, cs) ← Time.readNumber 2 cs
  let cs ← Time.readMark '-' cs
  let (day, cs) ← Time.readNumber 2 cs
  let cs ← match cs with
    | c :: rest => if c == 'T' || c == 't' || c == ' ' then some rest else none
    | [] => none
  let (hour, cs) ← Time.readNumber 2 cs
  let cs ← Time.readMark ':' cs
  let (minute, cs) ← Time.readNumber 2 cs
  let cs ← Time.readMark ':' cs
  let (second, cs) ← Time.readNumber 2 cs
  let (nanos, cs) ← Time.readNanos cs
  let (offset, cs) ← Time.readZone (Text.dropBlanks cs)
  let date : Time.Date := ⟨year, month, day⟩
  if (Text.dropBlanks cs).isEmpty && date.isValid && hour < 24 && minute < 60 && second ≤ 60 then
    let ofDay : Nat := hour * 3600 + minute * 60 + min second 59
    let seconds := date.dayNumber * 86400 + ofDay - offset * 60
    let instant ← Instant.of? seconds (nanos + if second = 60 then 1000000000 else 0)
    Timestamp.of? instant offset
  else none

def Instant.read? (s : String) : Option Instant :=
  (Timestamp.read? s).map (·.instant)

end BenchLedger
