/-!
# Replacing parts of a text

Every occurrence of one text in another is replaced, from the left and without overlaps. A text is a
list, of characters or of bytes.
-/

namespace CallAtlas.Text

/-- Replaces occurrences of `old` behind the next `skip` items, which are left out. -/
def replaceAfter {α : Type} [BEq α] (old new : List α) : (skip : Nat) → List α → List α
  | _, [] => []
  | k + 1, _ :: cs => replaceAfter old new k cs
  | 0, c :: cs =>
    if old.isPrefixOf (c :: cs) then new ++ replaceAfter old new (old.length - 1) cs
    else c :: replaceAfter old new 0 cs

/-- Replaces every occurrence of `old`, which is not empty, by `new`. -/
def replace (old new : String) (cs : List Char) : List Char :=
  replaceAfter old.toList new.toList 0 cs

end CallAtlas.Text
