/-!
# Runs of code points

A property of characters as a table: the code points in their order, cut into runs with one label.
-/

namespace CallAtlas.Text

/-- Code points that follow each other and have one label. -/
structure CodeRun where
  first : Nat
  last : Nat
  label : String
  deriving DecidableEq, Repr

namespace CodeRun

/-- Reads a table from a code point on, as many runs as there are steps at most. A run is written as its label,
    which has a fixed width, and the number of its code points, which is left out for one. -/
def readFrom (width : Nat) : (steps first : Nat) → List Char → List CodeRun
  | 0, _, _ => []
  | _ + 1, _, [] => []
  | steps + 1, first, c :: cs =>
    let label := (c :: cs).take width
    let digits := ((c :: cs).drop width).takeWhile Char.isDigit
    let count := digits.foldl (fun n d => n * 10 + (d.toNat - '0'.toNat)) 0
    let next := first + (if digits.isEmpty then 1 else count)
    ⟨first, next - 1, String.ofList label⟩
      :: readFrom width steps next ((c :: cs).drop (width + digits.length))

/-- Reads the lines of a table. -/
def readTable (width : Nat) (lines : List String) : List CodeRun :=
  let cs := (String.join lines).toList
  readFrom width cs.length 0 cs

/-- The label of a code point, empty behind the end of the table. -/
def labelOf (runs : List CodeRun) (n : Nat) : String :=
  ((runs.find? (n ≤ ·.last)).map label).getD ""

/-- The ranges of code points whose label has a property. -/
def rangesWhere (runs : List CodeRun) (p : String → Bool) : List (Nat × Nat) :=
  (runs.filter (p ·.label)).map fun r => (r.first, r.last)

end CodeRun

end CallAtlas.Text
