/-!
# Markup entities

The four characters that have a meaning in markup are written as entities.
-/

namespace CallAtlas.Text

/-- Replaces every occurrence of one character by a text. -/
def replaceChar (c : Char) (by_ : String) (cs : List Char) : List Char :=
  cs.flatMap fun d => if d == c then by_.toList else [d]

/-- The four replacements one after the other, the ampersand first so that the entities written by the later
    ones stay whole. -/
def escapeChars (cs : List Char) : List Char :=
  replaceChar '"' "&quot;"
    (replaceChar '>' "&gt;" (replaceChar '<' "&lt;" (replaceChar '&' "&amp;" cs)))

/-- A text that can stand inside markup. -/
def escaped (s : String) : String :=
  String.ofList (escapeChars s.toList)

end CallAtlas.Text
