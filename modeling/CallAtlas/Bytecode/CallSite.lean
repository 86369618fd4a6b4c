import CallAtlas.Bytecode.Instruction

/-!
# Call sites

The instructions of a method that call another one.
-/

namespace CallAtlas.Bytecode

/-- An instruction that calls a method. -/
structure CallSite where
  /-- The position of the instruction in the code. -/
  offset : Int
  /-- The number of the instruction in the method. -/
  index : Nat
  kind : InvokeKind
  /-- The constant that names the target. -/
  ref : Nat
  /-- The source line, zero if unknown. -/
  line : Nat
  deriving DecidableEq, Repr

/-- The call sites from the `n`-th instruction on. -/
def callSitesFrom (lineAt : Int → Nat) (n : Nat) : List Instruction → List CallSite
  | [] => []
  | i :: is =>
    match invokeKind? i.opcode with
    | some kind =>
      { offset := i.offset, index := n, kind, ref := i.index, line := lineAt i.offset }
        :: callSitesFrom lineAt (n + 1) is
    | none => callSitesFrom lineAt (n + 1) is

/-- The call sites of a method in the order of its instructions. -/
def callSites (lineAt : Int → Nat) (is : List Instruction) : List CallSite :=
  callSitesFrom lineAt 0 is

end CallAtlas.Bytecode
