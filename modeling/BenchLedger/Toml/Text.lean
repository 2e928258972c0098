import BenchLedger.Json.Reader

/-!
Strings and keys of TOML. Basic strings stand in quotation marks and have escapes, literal strings
stand in apostrophes and have none; tripled marks allow line ends inside.
-/

namespace BenchLedger.Toml

def isBlank (c : Char) : Bool :=
  c == ' ' || c == '\t'

def skipBlanks (cs : List Char) : List Char :=
  cs.dropWhile isBlank

-- Characters that a line may hold: no controls but the tab.
def isInLine (c : Char) : Bool :=
  c == '\t' || (0x20 ≤ c.toNat && c.toNat != 0x7F)

def readLineEnd? : List Char → Option (List Char)
  | '\n' :: rest => some rest
  | '\r' :: '\n' :: rest => some rest
  | _ => none

-- The character with a code in hexadecimal digits, unless it is half of a surrogate pair.
def charOfHex? (digits : List Char) : Option Char := do
  let values ← digits.mapM Json.hexValue?
  let n := values.foldl (fun n d => 16 * n + d) 0
  if n.isValidChar then some (Char.ofNat n) else none

def readEscape : List Char → Option (Char × List Char)
  | 'b' :: rest => some ('\x08', rest)
  | 't' :: rest => some ('\t', rest)
  | 'n' :: rest => some ('\n', rest)
  | 'f' :: rest => some ('\x0c', rest)
  | 'r' :: rest => some ('\r', rest)
  | '"' :: rest => some ('"', rest)
  | '\\' :: rest => some ('\\', rest)
  | 'u' :: rest =>
    if rest.length < 4 then none else (charOfHex? (rest.take 4)).map (·, rest.drop 4)
  | 'U' :: rest =>
    if rest.length < 8 then none else (charOfHex? (rest.take 8)).map (·, rest.drop 8)
  | _ => none

/-- A backslash at the end of a line takes away the line end and all blanks and line ends behind
it. -/
def skipLineEnds? (cs : List Char) : Option (List Char) :=
  (readLineEnd? (skipBlanks cs)).map fun rest =>
    rest.dropWhile fun c => isBlank c || c == '\n' || c == '\r'

-- A string within one line, up to its closing `mark`; every character takes one of the `fuel`.
def readLine (mark : Char) (escapes : Bool) : Nat → List Char → Option (List Char × List Char)
  | 0, _ => none
  | _, [] => none
  | fuel + 1, c :: rest =>
    if c == mark then some ([], rest)
    else if escapes && c == '\\' then do
      let (c, rest) ← readEscape rest
      let (text, rest) ← readLine mark escapes fuel rest
      return (c :: text, rest)
    else if isInLine c then do
      let (text, rest) ← readLine mark escapes fuel rest
      return (c :: text, rest)
    else none

/-- A string over several lines, up to three closing marks; one or two marks more belong to its
text. -/
def readLines (mark : Char) (escapes : Bool) : Nat → List Char → Option (List Char × List Char)
  | 0, _ => none
  | _, [] => none
  | fuel + 1, c :: rest =>
    let more (c : Char) (rest : List Char) : Option (List Char × List Char) := do
      let (text, rest) ← readLines mark escapes fuel rest
      return (c :: text, rest)
    if c == mark then
      let marks := (rest.takeWhile (· == mark)).length + 1
      if marks < 3 then more c rest
      else if marks ≤ 5 then some (List.replicate (marks - 3) mark, rest.drop (marks - 1))
      else none
    else if escapes && c == '\\' then
      match skipLineEnds? rest with
      | some rest => readLines mark escapes fuel rest
      | none => do
        let (c, rest) ← readEscape rest
        more c rest
    else
      match readLineEnd? (c :: rest) with
      | some rest => more '\n' rest
      | none => if isInLine c then more c rest else none

-- A line end right behind the opening marks is not part of the text.
def dropFirstLineEnd (cs : List Char) : List Char :=
  (readLineEnd? cs).getD cs

def readString (cs : List Char) : Option (String × List Char) :=
  let fuel := cs.length + 1
  let chars := match cs with
    | '"' :: '"' :: '"' :: rest => readLines '"' true fuel (dropFirstLineEnd rest)
    | '"' :: rest => readLine '"' true fuel rest
    | '\'' :: '\'' :: '\'' :: rest => readLines '\'' false fuel (dropFirstLineEnd rest)
    | '\'' :: rest => readLine '\'' false fuel rest
    | _ => none
  chars.map fun (text, rest) => (String.ofList text, rest)

def isBareKeyChar (c : Char) : Bool :=
  c.isAlphanum || c == '_' || c == '-'

-- One name of a key: bare, or in quotation marks or apostrophes.
def readName (cs : List Char) : Option (String × List Char) :=
  let fuel := cs.length + 1
  match cs with
  | '"' :: rest => (readLine '"' true fuel rest).map fun (t, rest) => (String.ofList t, rest)
  | '\'' :: rest => (readLine '\'' false fuel rest).map fun (t, rest) => (String.ofList t, rest)
  | cs =>
    match cs.takeWhile isBareKeyChar with
    | [] => none
    | name => some (String.ofList name, cs.dropWhile isBareKeyChar)

-- A key: names with points between them, and blanks around these.
def readKey : Nat → List Char → Option (List String × List Char)
  | 0, _ => none
  | fuel + 1, cs => do
    let (name, rest) ← readName (skipBlanks cs)
    match skipBlanks rest with
    | '.' :: rest =>
      let (names, rest) ← readKey fuel rest
      return (name :: names, rest)
    | rest => return ([name], rest)

end BenchLedger.Toml
