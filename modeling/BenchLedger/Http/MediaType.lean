import BenchLedger.Text.Blank

/-!
Media types by their grammar: type, subtype, suffix behind the last plus sign, and parameters, whose
values may stand in quotation marks.
-/

namespace BenchLedger.Http

structure MediaType where
  type : String
  subtype : String
  suffix : Option String
  deriving DecidableEq, Repr

namespace MediaType

-- Characters of names: no blanks, controls and separators.
def isToken (c : Char) : Bool :=
  c.isAlphanum || "!#$%&'*+-.^_`|~".toList.contains c

def isQuotable (c : Char) : Bool :=
  31 < c.toNat && c.toNat != 127

-- What follows a parameter's value in quotation marks: blanks, and then the next parameter.
def afterQuoted (cs : List Char) : Option (List Char) :=
  match cs.dropWhile (· == ' ') with
  | [] => some []
  | ';' :: rest => some rest
  | _ => none

def skipParameter (cs : List Char) : Option (List Char) :=
  match cs.takeWhile isToken, cs.dropWhile isToken with
  | [], _ => none
  | _, '=' :: '"' :: value =>
    match value.takeWhile fun c => isQuotable c && c != '"',
      value.dropWhile fun c => isQuotable c && c != '"' with
    | _ :: _, '"' :: rest => afterQuoted rest
    | _, _ => none
  | _, '=' :: value =>
    match value.takeWhile isToken, value.dropWhile isToken with
    | _, [] => some []
    | _ :: _, ';' :: rest => some rest
    | _, _ => none
  | _, _ => none

-- All that stands behind a semicolon is parameters; each takes one of the `fuel`.
def areParameters : Nat → List Char → Bool
  | 0, _ => false
  | fuel + 1, cs =>
    match cs.dropWhile (· == ' ') with
    | [] => true
    | cs => (skipParameter cs).any (areParameters fuel)

-- The subtype and the suffix of a name; a plus sign at its start is part of the subtype.
def splitSuffix (name : List Char) : List Char × Option (List Char) :=
  let suffix := (name.reverse.takeWhile (· != '+')).reverse
  match name.length - suffix.length with
  | 0 => (name, none)
  | 1 => (name, none)
  | n + 1 => (name.take n, some suffix)

def read? (s : String) : Option MediaType :=
  let cs := s.toList
  match cs.takeWhile isToken, cs.dropWhile isToken with
  | [], _ => none
  | type, '/' :: rest =>
    let name := rest.takeWhile isToken
    let (subtype, suffix) := splitSuffix name
    let found : MediaType :=
      { type := Text.asciiLower (String.ofList type)
        subtype := Text.asciiLower (String.ofList subtype)
        suffix := suffix.map fun cs => Text.asciiLower (String.ofList cs) }
    match rest.dropWhile isToken with
    | [] => some found
    | ';' :: parameters =>
      if !name.isEmpty && areParameters (parameters.length + 1) parameters then some found
      else none
    | _ => none
  | _, _ => none

def isJson (m : MediaType) : Bool :=
  m.type == "application" && (m.subtype == "json" || m.suffix == some "json")

end MediaType

end BenchLedger.Http
