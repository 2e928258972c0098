/-!
Blank characters and the trimming of texts. A character is blank when it has the Unicode property
White_Space; trimming removes blanks at the ends of a text and nowhere else.
-/

namespace BenchLedger.Text

-- The code points with the property White_Space.
def isBlank (c : Char) : Bool :=
  let n := c.toNat
  (9 ≤ n && n ≤ 13) || n == 0x20 || n == 0x85 || n == 0xA0 || n == 0x1680 ||
    (0x2000 ≤ n && n ≤ 0x200A) || n == 0x2028 || n == 0x2029 || n == 0x202F || n == 0x205F ||
    n == 0x3000

theorem isBlank_of_isWhitespace {c : Char} (h : c.isWhitespace) : isBlank c := by
  simp only [Char.isWhitespace, Bool.or_eq_true, decide_eq_true_eq] at h
  rcases h with ((rfl | rfl) | rfl) | rfl <;> decide

def dropBlanks (cs : List Char) : List Char :=
  cs.dropWhile isBlank

def dropTrailingBlanks (cs : List Char) : List Char :=
  (cs.reverse.dropWhile isBlank).reverse

def strip (cs : List Char) : List Char :=
  dropTrailingBlanks (dropBlanks cs)

def trim (s : String) : String :=
  String.ofList (strip s.toList)

/-- A text with nothing but blanks counts as no text at all. -/
def isAllBlank (s : String) : Bool :=
  s.toList.all isBlank

-- The rest of `cs` after the text `word`, if `cs` starts with it.
def after? (word : String) (cs : List Char) : Option (List Char) :=
  if word.toList.isPrefixOf cs then some (cs.drop word.toList.length) else none

def endsWith (s : String) (word : String) : Bool :=
  word.toList.isSuffixOf s.toList

/-- Letters A to Z lose their case and all other characters keep theirs. -/
def asciiLower (s : String) : String :=
  String.ofList (s.toList.map Char.toLower)

theorem dropBlanks_append_of_all {w : List Char} (hw : w.all isBlank) (cs : List Char) :
    dropBlanks (w ++ cs) = dropBlanks cs := by
  induction w with
  | nil => rfl
  | cons c w ih =>
    simp only [List.all_cons, Bool.and_eq_true] at hw
    simp only [List.cons_append, dropBlanks, List.dropWhile_cons, hw.1, if_true]
    exact ih hw.2

end BenchLedger.Text
