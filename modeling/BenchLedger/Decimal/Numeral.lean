import BenchLedger.Decimal.Layout

/-!
Decimal numerals without a sign: digits, optionally a point and digits, optionally a power of ten.
A reader takes the longest numeral at the start of a text.
-/

namespace BenchLedger.Decimal

-- The number that a list of decimal digits writes.
def digitsValue (cs : List Char) : Nat :=
  cs.foldl (fun n c => 10 * n + (c.toNat - 48)) 0

-- The longest list of digits at the start, and the rest.
def spanDigits (cs : List Char) : List Char × List Char :=
  (cs.takeWhile Char.isDigit, cs.dropWhile Char.isDigit)

theorem spanDigits_append (cs : List Char) : (spanDigits cs).1 ++ (spanDigits cs).2 = cs :=
  List.takeWhile_append_dropWhile

/-- The parts of a numeral as written. -/
structure Numeral where
  whole : List Char
  fraction : List Char
  power : Int
  deriving DecidableEq, Repr

def Numeral.value (n : Numeral) (negative : Bool) : Float :=
  nearest negative (digitsValue (n.whole ++ n.fraction)) (n.power - n.fraction.length)

-- A point counts only before a digit.
def readFraction : List Char → List Char × List Char
  | '.' :: cs =>
    match spanDigits cs with
    | ([], _) => ([], '.' :: cs)
    | (ds, rest) => (ds, rest)
  | cs => ([], cs)

-- The sign of a power of ten: `true` for minus.
def readSign : List Char → Bool × List Char
  | '+' :: cs => (false, cs)
  | '-' :: cs => (true, cs)
  | cs => (false, cs)

-- The letter `e` counts only where a power follows it.
def readPower (cs : List Char) : Int × List Char :=
  match cs with
  | c :: rest =>
    if c == 'e' || c == 'E' then
      let (negative, afterSign) := readSign rest
      match spanDigits afterSign with
      | ([], _) => (0, cs)
      | (ds, rest) => (if negative then -(digitsValue ds : Int) else digitsValue ds, rest)
    else (0, cs)
  | [] => (0, [])

def Numeral.read? (cs : List Char) : Option (Numeral × List Char) :=
  match spanDigits cs with
  | ([], _) => none
  | (whole, rest) =>
    let (fraction, rest) := readFraction rest
    let (power, rest) := readPower rest
    some (⟨whole, fraction, power⟩, rest)

end BenchLedger.Decimal
