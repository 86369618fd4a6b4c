/-!
# Splitting texts

Texts are cut at the first or the last occurrence of a character, and joined again. A text is a list,
of characters or of bytes.
-/

namespace CallAtlas.Text

variable {α : Type} [BEq α]

/-- What stands before the first `c`: all of the text if there is none. -/
def beforeFirst (c : α) (cs : List α) : List α :=
  cs.takeWhile (· != c)

/-- The text from the first `c` on, empty if there is none. -/
def fromFirst (c : α) (cs : List α) : List α :=
  cs.dropWhile (· != c)

/-- What stands behind the last `c`: all of the text if there is none. -/
def afterLast (c : α) (cs : List α) : List α :=
  (cs.reverse.takeWhile (· != c)).reverse

/-- The text up to and with the last `c`, empty if there is none. -/
def throughLast (c : α) (cs : List α) : List α :=
  (cs.reverse.dropWhile (· != c)).reverse

/-- What stands before the last `c`, empty if there is none. -/
def beforeLast (c : α) (cs : List α) : List α :=
  (throughLast c cs).dropLast

/-- Every `c` becomes `d`. -/
def swapChar (c d : α) (cs : List α) : List α :=
  cs.map fun x => if x == c then d else x

/-- The text without a leading `c`. -/
def dropLeading (c : α) : List α → List α
  | [] => []
  | x :: xs => if x == c then xs else x :: xs

/-- The parts between occurrences of `c`; there is always one. -/
def splitOn (c : α) : List α → List (List α)
  | [] => [[]]
  | x :: xs =>
    if x == c then [] :: splitOn c xs
    else match splitOn c xs with
      | [] => [[x]]
      | p :: ps => (x :: p) :: ps

/-- What stands behind `p`, if the text starts with it. -/
def dropPrefix? (p cs : List α) : Option (List α) :=
  if p.isPrefixOf cs then some (cs.drop p.length) else none

/-- What stands before `p`, if the text ends with it. -/
def dropSuffix? (p cs : List α) : Option (List α) :=
  if p.isSuffixOf cs then some (cs.take (cs.length - p.length)) else none

end CallAtlas.Text
