import CallAtlas.Text.Category
import CallAtlas.Text.LowerCase

/-!
# Printable characters

Which characters stand for themselves inside a quoted text: letters, marks, numbers, punctuation,
symbols and the blank.
-/

namespace CallAtlas.Text

/-- A character that is written as itself. -/
def isPrintable (c : Char) : Bool :=
  if c.toNat < 0x7f then 0x20 ≤ c.toNat
  else (category c.toNat).toList.head?.any fun l => ['L', 'M', 'N', 'P', 'S'].contains l

/-- White space: the ASCII blanks and line ends, and the separators of the other scripts. -/
def isSpace (c : Char) : Bool :=
  let n := c.toNat
  (9 ≤ n && n ≤ 13) || n == 0x20 || n == 0x85 || n == 0xa0 || n == 0x1680
    || (0x2000 ≤ n && n ≤ 0x200a) || n == 0x2028 || n == 0x2029 || n == 0x202f || n == 0x205f
    || n == 0x3000

/-- The text without white space at either end. -/
def trimSpace (cs : List Char) : List Char :=
  ((cs.dropWhile isSpace).reverse.dropWhile isSpace).reverse

/-- A keyword as typed by a person: without white space around it and in lower case. -/
def keyword (s : String) : String :=
  String.ofList ((trimSpace s.toList).map lowerChar)

end CallAtlas.Text
