import BenchLedger.Text.Blank

/-!
Variables of the environment, and files that set further ones. A file has one variable a line,
`NAME=value`; quotation marks and apostrophes keep blanks and line ends, and `$NAME` stands for the
value of a variable. A variable that is set already keeps its value, and the first line that is not
well-formed ends the file.
-/

namespace BenchLedger

abbrev Variables := List (String × String)

namespace Variables

/-- Where in a line a character stands, as far as it decides where the line ends. -/
inductive Quoting where
  | bare
  -- Behind a blank.
  | blank
  -- Behind a backslash.
  | escape
  | apostrophes
  | apostrophesEscape
  | marks
  | marksEscape
  deriving DecidableEq, Repr

-- The state behind a character; there is none where a comment starts.
def Quoting.next (q : Quoting) (c : Char) : Option Quoting :=
  let open? : Quoting :=
    if c == '\\' then .escape
    else if c == '"' then .marks
    else if c == '\'' then .apostrophes
    else .bare
  match q with
  | .bare =>
    if Text.isBlank c && c != '\n' && c != '\r' then some .blank else some open?
  | .blank => if c == '#' then none else some open?
  | .escape => some .bare
  | .apostrophes =>
    some (if c == '\\' then .apostrophesEscape else if c == '\'' then .bare else .apostrophes)
  | .apostrophesEscape => some .apostrophes
  | .marks => some (if c == '\\' then .marksEscape else if c == '"' then .bare else .marks)
  | .marksEscape => some .marks

def nextLine (cs : List Char) : List Char :=
  (cs.dropWhile (· != '\n')).drop 1

/-- The first line without its end and comment, and the text behind it; a line that is quoted goes
on over line ends. -/
def takeLine : Quoting → List Char → Option (List Char × List Char)
  | .bare, [] => some ([], [])
  | _, [] => none
  | q, c :: cs =>
    match q.next c with
    | none => some ([], nextLine cs)
    | some q =>
      if q = .bare && c == '\n' then some ([], cs)
      else (takeLine q cs).map fun (line, rest) => (c :: line, rest)

/-- Where in a value a character stands. -/
inductive Mode where
  | text
  -- Behind a backslash.
  | escape
  | apostrophes
  -- Behind the value.
  | ending
  -- In the name of a variable.
  | name (read : List Char)
  -- In the name of a variable in braces.
  | braced (read : List Char)

/-- The value that the rest of a line writes, with `valueOf` for the variables in it; `marked`
stands for being in quotation marks. -/
def readValue (valueOf : String → List Char) (marked : Bool) :
    Mode → List Char → Option (List Char)
  | .apostrophes, [] => none
  | .braced _, [] => none
  | .name n, [] => if marked then none else some (valueOf (String.ofList n))
  | _, [] => if marked then none else some []
  | .ending, c :: cs =>
    if c == ' ' || c == '\t' then readValue valueOf marked .ending cs
    else if c == '#' then some []
    else none
  | .escape, c :: cs =>
    if c == 'n' then (readValue valueOf marked .text cs).map ('\n' :: ·)
    else if ['\\', '\'', '"', '$', ' '].contains c then
      (readValue valueOf marked .text cs).map (c :: ·)
    else none
  | .apostrophes, c :: cs =>
    if c == '\'' then readValue valueOf marked .text cs
    else (readValue valueOf marked .apostrophes cs).map (c :: ·)
  | .name n, c :: cs =>
    if c.isAlphanum then readValue valueOf marked (.name (n ++ [c])) cs
    else if c == '\x7b' && n.isEmpty then readValue valueOf marked (.braced []) cs
    else
      let value := valueOf (String.ofList n)
      if c == '$' then (readValue valueOf marked (.name []) cs).map (value ++ ·)
      else (readValue valueOf marked .text cs).map (value ++ c :: ·)
  | .braced n, c :: cs =>
    if c == '\x7d' then
      (readValue valueOf marked .text cs).map (valueOf (String.ofList n) ++ ·)
    else readValue valueOf marked (.braced (n ++ [c])) cs
  | .text, c :: cs =>
    if c == '$' then readValue valueOf marked (.name []) cs
    else if c == '\\' then readValue valueOf marked .escape cs
    else if c == '"' then readValue valueOf (!marked) .text cs
    else if marked then (readValue valueOf marked .text cs).map (c :: ·)
    else if c == '\'' then readValue valueOf marked .apostrophes cs
    else if c == ' ' || c == '\t' then readValue valueOf marked .ending cs
    else (readValue valueOf marked .text cs).map (c :: ·)

def readName? (cs : List Char) : Option (List Char × List Char) :=
  let isPart (c : Char) : Bool := c.isAlphanum || c == '_' || c == '.'
  if cs.head?.any fun c => c.isAlpha || c == '_' then
    some (cs.takeWhile isPart, Text.dropBlanks (cs.dropWhile isPart))
  else none

-- The name and the text behind the equals sign; the word `export` may stand before the name.
def readAssignment? (cs : List Char) : Option (List Char × List Char) := do
  let (name, rest) ← readName? cs
  match rest with
  | '=' :: rest => return (name, Text.dropBlanks rest)
  | rest =>
    if name == "export".toList then
      let (name, rest) ← readName? rest
      let rest ← Text.after? "=" rest
      return (name, Text.dropBlanks rest)
    else none

def valueOf (vars : Variables) (name : String) : List Char :=
  ((vars.lookup name).getD "").toList

def readLine? (vars : Variables) (line : List Char) : Option Variables :=
  match Text.strip line with
  | [] => some vars
  | cs => do
    if cs.head? == some '#' then return vars
    let (name, rest) ← readAssignment? cs
    let value ←
      if rest.head? == some '#' then some [] else readValue vars.valueOf false .text rest
    let name := String.ofList name
    return if (vars.lookup name).isSome then vars else vars ++ [(name, String.ofList value)]

-- The first line is a comment, whatever marks are in it.
def isCommentLine (cs : List Char) : Bool :=
  (Text.dropBlanks (cs.takeWhile (· != '\n'))).head? == some '#'

def readLines (vars : Variables) : Nat → List Char → Variables
  | 0, _ => vars
  | _, [] => vars
  | fuel + 1, cs =>
    if isCommentLine cs then readLines vars fuel (nextLine cs)
    else
      match takeLine .bare cs with
      | none => vars
      | some (line, rest) =>
        match readLine? vars line with
        | none => vars
        | some vars => readLines vars fuel rest

/-- The variables with those added that a file sets. -/
def withFile (vars : Variables) (text : String) : Variables :=
  vars.readLines text.toList.length text.toList

end Variables

end BenchLedger
