import CallAtlas.Text.Category
import CallAtlas.Text.Script

/-!
# Sets of code points

Sets that a class of characters is made of: ranges, the digits, blanks and word characters, named
sets of ASCII characters, and the categories and scripts of all characters.
-/

namespace CallAtlas.Exclude

/-- A set of code points: those in some of the ranges, or those in none. -/
structure CodeSet where
  negated : Bool
  ranges : List (Nat × Nat)
  deriving DecidableEq, Repr

namespace CodeSet

def contains (s : CodeSet) (n : Nat) : Bool :=
  s.ranges.any (fun r => r.1 ≤ n && n ≤ r.2) != s.negated

/-- The code points of one range. -/
def range (low high : Nat) : CodeSet :=
  ⟨false, [(low, high)]⟩

/-- The set of one code point. -/
def single (n : Nat) : CodeSet :=
  range n n

/-- The code points of ranges between characters. -/
def ofChars (ranges : List (Char × Char)) : CodeSet :=
  ⟨false, ranges.map fun r => (r.1.toNat, r.2.toNat)⟩

/-- The code points outside a set. -/
def complement (s : CodeSet) : CodeSet :=
  { s with negated := !s.negated }

/-- The digits. -/
def digits : CodeSet := ofChars [('0', '9')]

/-- Blanks and line ends. -/
def blanks : CodeSet := ofChars [('\t', '\n'), ('\x0c', '\r'), (' ', ' ')]

/-- Letters, digits and the underscore. -/
def wordChars : CodeSet := ofChars [('0', '9'), ('A', 'Z'), ('_', '_'), ('a', 'z')]

/-- Everything but the end of a line. -/
def inLine : CodeSet := complement (ofChars [('\n', '\n')])

/-! ### Named sets -/

/-- The set of ASCII characters with a name. -/
def named? : String → Option CodeSet
  | "alnum" => some (ofChars [('0', '9'), ('A', 'Z'), ('a', 'z')])
  | "alpha" => some (ofChars [('A', 'Z'), ('a', 'z')])
  | "ascii" => some (ofChars [('\x00', '\x7f')])
  | "blank" => some (ofChars [('\t', '\t'), (' ', ' ')])
  | "cntrl" => some (ofChars [('\x00', '\x1f'), ('\x7f', '\x7f')])
  | "digit" => some digits
  | "graph" => some (ofChars [('!', '~')])
  | "lower" => some (ofChars [('a', 'z')])
  | "print" => some (ofChars [(' ', '~')])
  | "punct" => some (ofChars [('!', '/'), (':', '@'), ('[', '\x60'), ('\x7b', '~')])
  | "space" => some (ofChars [('\t', '\r'), (' ', ' ')])
  | "upper" => some (ofChars [('A', 'Z')])
  | "word" => some wordChars
  | "xdigit" => some (ofChars [('0', '9'), ('A', 'F'), ('a', 'f')])
  | _ => none

/-- The largest code point. -/
def lastCode : Nat := 0x10ffff

/-- Joins ranges that follow each other without a gap. -/
def joinRanges : List (Nat × Nat) → List (Nat × Nat)
  | [] => []
  | r :: rs =>
    match joinRanges rs with
    | [] => [r]
    | s :: ss => if r.2 + 1 = s.1 then (r.1, s.2) :: ss else r :: s :: ss

/-- The code points of a category or a wider class. -/
def ofCategory (code : String) : CodeSet :=
  ⟨false, joinRanges (Text.CodeRun.rangesWhere Text.categoryRuns (Text.categoryCovers code))⟩

/-- The code points of a script. -/
def ofScript (code : String) : CodeSet :=
  ⟨false, joinRanges (Text.CodeRun.rangesWhere Text.scriptRuns (· = code))⟩

/-- The codes of categories and wider classes. -/
def categoryCodes : List String :=
  ["C", "Cc", "Cf", "Cn", "Co", "Cs", "L", "LC", "Ll", "Lm", "Lo", "Lt", "Lu", "M", "Mc", "Me", "Mn",
   "N", "Nd", "Nl", "No", "P", "Pc", "Pd", "Pe", "Pf", "Pi", "Po", "Ps", "S", "Sc", "Sk", "Sm", "So",
   "Z", "Zl", "Zp", "Zs"]

/-- What counts of a name: its letters and digits without regard to case. -/
def foldName (s : String) : List Char :=
  (s.toList.filter fun c => c != '_' && c != '-' && c != ' ').map Char.toLower

/-- The code that goes by a name. -/
def codeOf? (names : List (String × String)) (name : List Char) : Option String :=
  (names.find? fun n => foldName n.2 = name).map Prod.fst

/-- The set of a property of characters: a category by its code or its name, a script by its name, or one of
    three sets with names of their own. -/
def property? (name : String) : Option CodeSet :=
  let name := foldName name
  if name = foldName "Any" then some (range 0 lastCode)
  else if name = foldName "Assigned" then some (complement (ofCategory "Cn"))
  else if name = foldName "ASCII" then some (range 0 0x7f)
  else
    ((codeOf? (categoryCodes.map fun c => (c, c)) name).map ofCategory).or
      (((codeOf? Text.scriptNames name).map ofScript).or
        ((codeOf? Text.categoryNames name).map ofCategory))

end CodeSet

end CallAtlas.Exclude
