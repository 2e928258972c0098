import BenchLedger.Configuration.Entry
import BenchLedger.Time.Writer
import BenchLedger.Toml.Text

/-!
Numbers, truth values and dates of TOML. Underscores may stand between two digits.
-/

namespace BenchLedger.Toml

/-- Digits of some kind, with single underscores between them, which are left out. -/
def readDigits (isDigit : Char → Bool) : List Char → Option (List Char × List Char)
  | [] => none
  | c :: '_' :: rest =>
    if isDigit c then (readDigits isDigit rest).map fun (ds, rest) => (c :: ds, rest) else none
  | c :: rest =>
    if isDigit c then
      match readDigits isDigit rest with
      | some (ds, rest) => some (c :: ds, rest)
      | none => some ([c], rest)
    else none

def readDecimals : List Char → Option (List Char × List Char) :=
  readDigits Char.isDigit

-- Whole digits of a number; a zero at the start stands alone.
def readWhole : List Char → Option (List Char × List Char)
  | '0' :: rest => some (['0'], rest)
  | cs => readDecimals cs

-- A sign, which counts as digits do in the text of a number.
def readSign : List Char → List Char × List Char
  | '+' :: rest => (['+'], rest)
  | '-' :: rest => (['-'], rest)
  | cs => ([], cs)

def readFraction? : List Char → Option (List Char × List Char)
  | '.' :: rest => (readDecimals rest).map fun (ds, rest) => ('.' :: ds, rest)
  | cs => some ([], cs)

def readPower? : List Char → Option (List Char × List Char)
  | c :: rest =>
    if c == 'e' || c == 'E' then
      let (sign, rest) := readSign rest
      (readDecimals rest).map fun (ds, rest) => (c :: sign ++ ds, rest)
    else some ([], c :: rest)
  | [] => some ([], [])

def readInfinity? (cs : List Char) : Option (Entry × List Char) :=
  let (sign, rest) := readSign cs
  (Text.after? "inf" rest).map fun rest =>
    (.decimal (Decimal.ofIndex (sign == ['-']) Decimal.infinityIndex), rest)

def readNotANumber? (cs : List Char) : Option (Entry × List Char) :=
  let (sign, rest) := readSign cs
  (Text.after? "nan" rest).map fun rest =>
    (.decimal (Decimal.ofIndex (sign == ['-']) (Decimal.infinityIndex + Nat.pow 2 51)), rest)

-- Whole numbers have 64 bits with sign.
def whole? (n : Int) : Option Entry :=
  if -0x8000000000000000 ≤ n ∧ n < 0x8000000000000000 then some (.whole n) else none

def readBased? (base : Nat) (cs : List Char) : Option (Entry × List Char) := do
  let isDigit (c : Char) : Bool := (Json.hexValue? c).any (· < base)
  let (digits, rest) ← readDigits isDigit cs
  let n := digits.foldl (fun n d => base * n + (Json.hexValue? d).getD 0) 0
  return (← whole? n, rest)

-- A decimal number; it is whole if it has neither fraction nor power.
def readDecimal? (cs : List Char) : Option (Entry × List Char) := do
  let (sign, rest) := readSign cs
  let (whole, rest) ← readWhole rest
  let (fraction, rest) ← readFraction? rest
  let (power, rest) ← readPower? rest
  if (fraction ++ power).isEmpty then
    let n : Int := Decimal.digitsValue whole
    return (← whole? (if sign == ['-'] then -n else n), rest)
  else
    let x ← Decimal.readLiteral? (sign ++ whole ++ fraction ++ power)
    if x.isInf && sign != ['-'] then none else some (.decimal x, rest)

def readFixed? (width : Nat) (cs : List Char) : Option (Nat × List Char) :=
  let digits := cs.take width
  if digits.length = width && digits.all Char.isDigit then
    some (Decimal.digitsValue digits, cs.drop width)
  else none

def readMark? (mark : Char) : List Char → Option (List Char)
  | c :: rest => if c == mark then some rest else none
  | [] => none

def readDate? (cs : List Char) : Option (Time.Date × List Char) := do
  let (year, rest) ← readFixed? 4 cs
  let (month, rest) ← readFixed? 2 (← readMark? '-' rest)
  let (day, rest) ← readFixed? 2 (← readMark? '-' rest)
  let date : Time.Date := ⟨year, month, day⟩
  if date.isValid then some (date, rest) else none

-- The digits of a fraction of a second that count: nine at most, without zeros at the end.
def secondFraction (digits : List Char) : List Char :=
  match ((digits.take 9).reverse.dropWhile (· == '0')).reverse with
  | [] => []
  | ds => '.' :: ds

def readTime? (cs : List Char) : Option (List Char × List Char) := do
  let (hour, rest) ← readFixed? 2 cs
  let (minute, rest) ← readFixed? 2 (← readMark? ':' rest)
  let (second, rest) ← readFixed? 2 (← readMark? ':' rest)
  let (fraction, rest) ← match rest with
    | '.' :: rest =>
      match Decimal.spanDigits rest with
      | ([], _) => none
      | (digits, rest) => some (secondFraction digits, rest)
    | rest => some ([], rest)
  if hour ≤ 23 && minute ≤ 59 && second ≤ 60 then
    let two := Decimal.padded 2
    some (two hour ++ ':' :: two minute ++ ':' :: two second ++ fraction, rest)
  else none

-- The text of an offset from UTC, empty if none is given.
def readOffset? (cs : List Char) : Option (List Char × List Char) :=
  match cs with
  | 'Z' :: rest => some (['Z'], rest)
  | 'z' :: rest => some (['Z'], rest)
  | c :: rest =>
    if c == '+' || c == '-' then do
      let (hours, rest) ← readFixed? 2 rest
      let (minutes, rest) ← readFixed? 2 (← readMark? ':' rest)
      if hours ≤ 23 && minutes ≤ 59 then
        let minutes := 60 * hours + minutes
        some (Time.offsetText (c == '-' && minutes ≠ 0) minutes, rest)
      else none
    else some ([], cs)
  | [] => some ([], [])

def readTimeOfDate? : List Char → Option (List Char × List Char)
  | c :: rest =>
    if c == 'T' || c == 't' || c == ' ' then do
      let (time, rest) ← readTime? rest
      let (offset, rest) ← readOffset? rest
      return ('T' :: time ++ offset, rest)
    else none
  | [] => none

/-- A date, a time of day, or both; the entry is its text in one fixed form. -/
def readMoment? (cs : List Char) : Option (Entry × List Char) :=
  let textOf (chars rest : List Char) : Option (Entry × List Char) :=
    some (.text (String.ofList chars), rest)
  match readDate? cs with
  | some (date, rest) =>
    match readTimeOfDate? rest with
    | some (time, rest) => textOf (Time.dateText date ++ time) rest
    | none => textOf (Time.dateText date) rest
  | none => do
    let (time, rest) ← readTime? cs
    textOf time rest

-- A value that is neither a string nor a container.
def readScalar (cs : List Char) : Option (Entry × List Char) :=
  if let some rest := Text.after? "true" cs then some (.flag true, rest)
  else if let some rest := Text.after? "false" cs then some (.flag false, rest)
  else if let some rest := Text.after? "0x" cs then readBased? 16 rest
  else if let some rest := Text.after? "0o" cs then readBased? 8 rest
  else if let some rest := Text.after? "0b" cs then readBased? 2 rest
  else readInfinity? cs <|> readNotANumber? cs <|> readMoment? cs <|> readDecimal? cs

end BenchLedger.Toml
