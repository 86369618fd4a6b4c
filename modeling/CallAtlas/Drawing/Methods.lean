import CallAtlas.Drawing.Blocks
import CallAtlas.Drawing.FileName
import CallAtlas.Drawing.Flow
import CallAtlas.Facts.Naming
import CallAtlas.Program.Build

/-!
# Drawings of methods

Each method with code has a drawing of its control flow and a file for it.
-/

namespace CallAtlas.Drawing

open CallGraph (Flow)
open Program (Body)

/-- Which methods are drawn, and how. -/
structure MethodChoice where
  naming : Naming
  /-- The name of a method has this in it. -/
  filter : String := ""
  /-- The least number of blocks of a method. -/
  minBlocks : Int := 1
  /-- Blocks show their instructions, not only their calls. -/
  instructions : Bool := false
  deriving DecidableEq, Repr

/-- A drawing of a method and its file. -/
structure MethodFile where
  name : String
  file : Text.RawText
  text : String
  deriving DecidableEq, Repr

/-- Whether a text has another one in it. -/
def hasPart (part : List Char) : List Char → Bool
  | [] => part.isEmpty
  | c :: cs => part.isPrefixOf (c :: cs) || hasPart part cs

/-- The methods that the calls of a body lead to, by their position. -/
def calleeTable (naming : Naming) (b : Body) : Std.HashMap Int (List String) :=
  lastTable (b.sites.map fun s => (s.site.offset, s.callees.map naming.name))

namespace MethodChoice

/-- Whether a method is drawn. -/
def admits (c : MethodChoice) (b : Body) : Bool :=
  !b.instructions.isEmpty && hasPart c.filter.toList (c.naming.name b.declaration).toList
    && decide (c.minBlocks ≤ (Bytecode.blocks b.instructions).length)

/-- The drawing of a method. -/
def draw (c : MethodChoice) (b : Body) : String :=
  let name := c.naming.name b.declaration
  let table := calleeTable c.naming b
  let calls (offset : Int) := table[offset]?
  if c.instructions then methodText .standard name calls b.instructions
  else (flowDrawing name [Flow.ofInstructions name b.instructions calls]).text

/-- The drawings of methods and their files. -/
def files (c : MethodChoice) (bodies : List Body) : List MethodFile :=
  let drawn := bodies.filter c.admits
  let names := drawn.map fun b => c.naming.name b.declaration
  (drawn.zip (names.zip (fileNames names))).map fun (b, name, file) => ⟨name, file, c.draw b⟩

end MethodChoice

end CallAtlas.Drawing
