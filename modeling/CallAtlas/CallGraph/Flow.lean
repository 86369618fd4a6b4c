import CallAtlas.Bytecode.ControlFlow

/-!
# Calls in the flow of control

The basic blocks of a method with the calls that each of them makes.
-/

namespace CallAtlas.CallGraph

open Bytecode

/-- A call made by the instruction with a number. -/
structure BlockCall where
  index : Nat
  callee : String
  deriving DecidableEq, Repr

/-- A basic block and its calls. -/
structure FlowBlock where
  block : Block
  calls : List BlockCall
  deriving DecidableEq, Repr

/-- A method's blocks. -/
structure Flow where
  name : String
  blocks : List FlowBlock
  deriving DecidableEq, Repr

/-- The calls of the `n`-th instruction: to the methods recorded at its position, or under its own name if a
    record without methods is there. -/
def callsOf (calls : Int → Option (List String)) (n : Nat) (i : Instruction) : List BlockCall :=
  match calls i.offset with
  | none => []
  | some [] => [⟨n, i.mnemonic⟩]
  | some ts => ts.map fun t => ⟨n, t⟩

/-- The calls of instructions from the `n`-th on. -/
def callsFrom (calls : Int → Option (List String)) (n : Nat) : List Instruction → List BlockCall
  | [] => []
  | i :: is => callsOf calls n i ++ callsFrom calls (n + 1) is

/-- Blocks with their calls, given the instructions from the first of them on. -/
def flowBlocks (calls : Int → Option (List String)) :
    List Block → List Instruction → List FlowBlock
  | [], _ => []
  | b :: bs, is =>
    ⟨b, callsFrom calls b.start (is.take (b.stop - b.start))⟩
      :: flowBlocks calls bs (is.drop (b.stop - b.start))

/-- The blocks of a method with the calls recorded by position, and how many blocks there are. -/
def Flow.counted (name : String) (is : List Instruction) (calls : Int → Option (List String)) :
    Flow × Nat :=
  let blocks := Bytecode.blocks is
  (⟨name, flowBlocks calls blocks is⟩, blocks.length)

/-- The blocks of a method with the calls recorded by position. -/
def Flow.ofInstructions (name : String) (is : List Instruction)
    (calls : Int → Option (List String)) : Flow :=
  (Flow.counted name is calls).1

end CallAtlas.CallGraph
