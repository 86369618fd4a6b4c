import CallAtlas.Repeats

/-!
# Sorted lists of texts

Texts are ordered by code point, which is the order of their UTF-8 bytes.
-/

namespace CallAtlas.Text

/-- Texts in ascending order. -/
def sort (ss : List String) : List String :=
  ss.mergeSort fun a b => decide (a ≤ b)

/-- The distinct texts of a list in ascending order. -/
def sortDistinct (ss : List String) : List String :=
  dropRepeats (sort ss)

end CallAtlas.Text
