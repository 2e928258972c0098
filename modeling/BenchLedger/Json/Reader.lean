import BenchLedger.Json.Value
import BenchLedger.Text.Blank

/-!
Reading JSON from text by the strict grammar. A text that breaks off or goes wrong is read up to
that place, which the value then shows as `cut`; so a decoder can tell whether something else was
wrong before it.
-/

namespace BenchLedger.Json

def isSpace (c : Char) : Bool :=
  c == ' ' || c == '\n' || c == '\t' || c == '\r'

def skipSpace (cs : List Char) : List Char :=
  cs.dropWhile isSpace

def hexValue? (c : Char) : Option Nat :=
  if '0' ≤ c ∧ c ≤ '9' then some (c.toNat - 48)
  else if 'a' ≤ c ∧ c ≤ 'f' then some (c.toNat - 87)
  else if 'A' ≤ c ∧ c ≤ 'F' then some (c.toNat - 55)
  else none

def hexUnit? (a b c d : Char) : Option Nat := do
  let a ← hexValue? a
  let b ← hexValue? b
  let c ← hexValue? c
  let d ← hexValue? d
  return ((a * 16 + b) * 16 + c) * 16 + d

def shortEscape? : Char → Option Char
  | '"' => some '"'
  | '\\' => some '\\'
  | '/' => some '/'
  | 'b' => some '\x08'
  | 'f' => some '\x0c'
  | 'n' => some '\n'
  | 'r' => some '\r'
  | 't' => some '\t'
  | _ => none

-- The code points and surrogate units up to the closing quote, and what follows it.
def readUnits : List Char → Option (List Nat × List Char)
  | [] => none
  | '"' :: cs => some ([], cs)
  | '\\' :: 'u' :: a :: b :: c :: d :: cs =>
    match hexUnit? a b c d, readUnits cs with
    | some unit, some (units, rest) => some (unit :: units, rest)
    | _, _ => none
  | '\\' :: e :: cs =>
    match shortEscape? e, readUnits cs with
    | some c, some (units, rest) => some (c.toNat :: units, rest)
    | _, _ => none
  | c :: cs =>
    if c.toNat < 32 || c == '\\' then none
    else (readUnits cs).map fun (units, rest) => (c.toNat :: units, rest)

def isHighSurrogate (n : Nat) : Bool := 0xD800 ≤ n && n < 0xDC00

def isLowSurrogate (n : Nat) : Bool := 0xDC00 ≤ n && n < 0xE000

-- Surrogate pairs become one character; a half without its partner has no character.
def pairUp : List Nat → Option (List Char)
  | [] => some []
  | high :: low :: units =>
    if isHighSurrogate high && isLowSurrogate low then
      (pairUp units).map (Char.ofNat (0x10000 + (high - 0xD800) * 0x400 + (low - 0xDC00)) :: ·)
    else if isHighSurrogate high || isLowSurrogate high then none
    else (pairUp (low :: units)).map (Char.ofNat high :: ·)
  | [n] =>
    if isHighSurrogate n || isLowSurrogate n then none else some [Char.ofNat n]

def readString (cs : List Char) : Option (Json × List Char) :=
  (readUnits cs).map fun (units, rest) =>
    match pairUp units with
    | some text => (.string (String.ofList text), rest)
    | none => (.unpaired, rest)

-- The part of a number before its point: no leading zeros.
def readWhole : List Char → Option (List Char × List Char)
  | '0' :: c :: cs => if c.isDigit then none else some (['0'], c :: cs)
  | cs =>
    match Decimal.spanDigits cs with
    | ([], _) => none
    | (ds, rest) => some (ds, rest)

-- A point must have digits behind it.
def readPlaces : List Char → Option (List Char × List Char)
  | '.' :: cs =>
    match Decimal.spanDigits cs with
    | ([], _) => none
    | (ds, rest) => some ('.' :: ds, rest)
  | cs => some ([], cs)

-- The letter `e` must have a power behind it.
def readExponent : List Char → Option (List Char × List Char)
  | c :: cs =>
    if c == 'e' || c == 'E' then
      let (sign, digits) := match cs with
        | '+' :: ds => (['+'], ds)
        | '-' :: ds => (['-'], ds)
        | ds => ([], ds)
      match Decimal.spanDigits digits with
      | ([], _) => none
      | (ds, rest) => some (c :: sign ++ ds, rest)
    else some ([], c :: cs)
  | [] => some ([], [])

def readNumber (cs : List Char) : Option (List Char × List Char) := do
  let (sign, cs) := match cs with
    | '-' :: cs => (['-'], cs)
    | cs => ([], cs)
  let (whole, cs) ← readWhole cs
  let (places, cs) ← readPlaces cs
  let (power, cs) ← readExponent cs
  return (sign ++ whole ++ places ++ power, cs)

def isNumberStart (c : Char) : Bool :=
  c == '-' || c.isDigit

-- A value that is a single token.
def readScalar (cs : List Char) : Json × Option (List Char) :=
  match cs with
  | '"' :: rest =>
    match readString rest with
    | some (j, rest) => (j, some rest)
    | none => (.cut, none)
  | cs =>
    if cs.head?.any isNumberStart then
      match readNumber cs with
      | some (lexeme, rest) => (.number lexeme, some rest)
      | none => (.cut, none)
    else if let some rest := Text.after? "null" cs then (.null, some rest)
    else if let some rest := Text.after? "true" cs then (.bool true, some rest)
    else if let some rest := Text.after? "false" cs then (.bool false, some rest)
    else (.cut, none)

mutual

/-- A value and the text behind it, which is absent where the text was cut. Each nested container
takes one of the `fuel`. -/
def readValue : Nat → List Char → Json × Option (List Char)
  | 0, _ => (.cut, none)
  | fuel + 1, cs =>
    match skipSpace cs with
    | '[' :: rest =>
      match skipSpace rest with
      | ']' :: rest => (.array [], some rest)
      | rest =>
        let (items, rest) := readItems fuel rest
        (.array items, rest)
    | '\x7b' :: rest =>
      match skipSpace rest with
      | '\x7d' :: rest => (.object [], some rest)
      | rest =>
        let (members, rest) := readMembers fuel rest
        (.object members, rest)
    | rest => readScalar rest

def readItems : Nat → List Char → List Json × Option (List Char)
  | 0, _ => ([.cut], none)
  | fuel + 1, cs =>
    match readValue fuel cs with
    | (j, none) => ([j], none)
    | (j, some rest) =>
      match skipSpace rest with
      | ']' :: rest => ([j], some rest)
      | ',' :: rest =>
        let (js, rest) := readItems fuel rest
        (j :: js, rest)
      | _ => ([j, .cut], none)

def readMembers : Nat → List Char → List (String × Json) × Option (List Char)
  | 0, _ => ([("", .cut)], none)
  | fuel + 1, cs =>
    match skipSpace cs with
    | '"' :: rest =>
      match readString rest with
      | some (.string key, rest) =>
        match skipSpace rest with
        | ':' :: rest =>
          match readValue fuel rest with
          | (j, none) => ([(key, j)], none)
          | (j, some rest) =>
            match skipSpace rest with
            | '\x7d' :: rest => ([(key, j)], some rest)
            | ',' :: rest =>
              let (ms, rest) := readMembers fuel rest
              ((key, j) :: ms, rest)
            | _ => ([(key, j), ("", .cut)], none)
        | _ => ([(key, .cut)], none)
      | _ => ([("", .cut)], none)
    | _ => ([("", .cut)], none)

end

-- The value at the start of a text, and whether only blanks follow it.
def readLeading (s : String) : Json × Bool :=
  let cs := s.toList
  match readValue (2 * cs.length + 2) cs with
  | (j, some rest) => (j, (skipSpace rest).isEmpty)
  | (j, none) => (j, false)

/-- The value that a whole text writes; `cut` if anything but blanks follows it. -/
def read (s : String) : Json :=
  match readLeading s with
  | (j, true) => j
  | (_, false) => .cut

end BenchLedger.Json
