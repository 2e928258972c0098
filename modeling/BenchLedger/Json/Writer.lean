import BenchLedger.Json.Value

/-!
JSON as text, on one line or indented by two spaces. Strings escape the quote, the backslash and
the characters below the space, and nothing else.
-/

namespace BenchLedger.Json

def hexDigit (n : Nat) : Char :=
  if n < 10 then Char.ofNat (48 + n) else Char.ofNat (87 + n)

def escapeChar (c : Char) : List Char :=
  if c = '"' then ['\\', '"']
  else if c = '\\' then ['\\', '\\']
  else if c = '\x08' then ['\\', 'b']
  else if c = '\x0c' then ['\\', 'f']
  else if c = '\n' then ['\\', 'n']
  else if c = '\r' then ['\\', 'r']
  else if c = '\t' then ['\\', 't']
  else if c.toNat < 32 then
    ['\\', 'u', '0', '0', hexDigit (c.toNat / 16), hexDigit (c.toNat % 16)]
  else [c]

def quoted (s : String) : List Char :=
  '"' :: s.toList.flatMap escapeChar ++ ['"']

mutual

def compact : Json → List Char
  | .null => "null".toList
  | .bool true => "true".toList
  | .bool false => "false".toList
  | .number lexeme => lexeme
  | .string s => quoted s
  | .array items => '[' :: compactItems items ++ [']']
  | .object members => '\x7b' :: compactMembers members ++ ['\x7d']
  | .unpaired => []
  | .cut => []

def compactItems : List Json → List Char
  | [] => []
  | [j] => compact j
  | j :: js => compact j ++ ',' :: compactItems js

def compactMembers : List (String × Json) → List Char
  | [] => []
  | [(k, j)] => quoted k ++ ':' :: compact j
  | (k, j) :: ms => quoted k ++ ':' :: compact j ++ ',' :: compactMembers ms

end

def newline (level : Nat) : List Char :=
  '\n' :: List.replicate (2 * level) ' '

mutual

-- One item or member a line, two blanks a level; empty containers stay closed.
def indented (level : Nat) : Json → List Char
  | .array [] => ['[', ']']
  | .array (j :: js) => '[' :: indentedItems level (j :: js) ++ newline level ++ [']']
  | .object [] => ['\x7b', '\x7d']
  | .object (m :: ms) => '\x7b' :: indentedMembers level (m :: ms) ++ newline level ++ ['\x7d']
  | .null => "null".toList
  | .bool true => "true".toList
  | .bool false => "false".toList
  | .number lexeme => lexeme
  | .string s => quoted s
  | .unpaired => []
  | .cut => []

def indentedItems (level : Nat) : List Json → List Char
  | [] => []
  | [j] => newline (level + 1) ++ indented (level + 1) j
  | j :: js => newline (level + 1) ++ indented (level + 1) j ++ ',' :: indentedItems level js

def indentedMembers (level : Nat) : List (String × Json) → List Char
  | [] => []
  | [(k, j)] => newline (level + 1) ++ quoted k ++ ':' :: ' ' :: indented (level + 1) j
  | (k, j) :: ms =>
    newline (level + 1) ++ quoted k ++ ':' :: ' ' :: indented (level + 1) j ++
      ',' :: indentedMembers level ms

end

def render (j : Json) : String :=
  String.ofList j.compact

def renderIndented (j : Json) : String :=
  String.ofList (j.indented 0)

end BenchLedger.Json
