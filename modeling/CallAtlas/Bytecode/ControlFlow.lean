import CallAtlas.Bytecode.Instruction
import CallAtlas.Repeats
import CallAtlas.Table

/-!
# Control flow

How control leaves an instruction, and the cut of a method into basic blocks. A block starts at the
first instruction, at a target of a jump and behind every transfer of control. Exception handlers
are not followed.
-/

namespace CallAtlas.Bytecode

/-- Why control passes from one block to another. -/
inductive Label where
  /-- It always does. -/
  | always
  /-- A condition holds. -/
  | taken
  /-- A condition does not hold, or a subroutine has returned. -/
  | otherwise
  /-- A subroutine is entered. -/
  | subroutine
  /-- No key of a switch matches. -/
  | default
  /-- This key of a switch matches. -/
  | case (key : Int)
  deriving DecidableEq, Repr

/-- The text of a label, empty if there is nothing to say. -/
def Label.text : Label → String
  | .always => ""
  | .taken => "T"
  | .otherwise => "F"
  | .subroutine => "jsr"
  | .default => "default"
  | .case k => s!"case {k}"

/-- How control leaves an instruction other than to the next one. -/
inductive Transfer where
  /-- It leaves the method. -/
  | leave
  | jump (targets : List Int)
  | branch (targets : List Int)
  | call (targets : List Int)
  | switch (targets keys : List Int)
  deriving DecidableEq, Repr

namespace Transfer

def targets : Transfer → List Int
  | .leave => []
  | .jump ts => ts
  | .branch ts => ts
  | .call ts => ts
  | .switch ts _ => ts

/-- Labels for the targets of a transfer. -/
def labels : Transfer → List Label
  | .leave => []
  | .jump _ => [.always]
  | .branch _ => [.taken]
  | .call _ => [.subroutine]
  | .switch ts ks =>
    ((Label.default :: ks.map Label.case)
      ++ List.replicate (ts.length - ks.length - 1) Label.always).take ts.length

/-- Control can also pass to the next instruction. -/
def fallsThrough : Transfer → Bool
  | .branch _ => true
  | .call _ => true
  | _ => false

def leaves : Transfer → Bool
  | .leave => true
  | _ => false

def isCall : Transfer → Bool
  | .call _ => true
  | _ => false

end Transfer

/-- The transfer of control that an instruction makes, none if the next one always follows. -/
def transfer? (i : Instruction) : Option Transfer :=
  let c := i.opcode
  if (0xac ≤ c ∧ c ≤ 0xb1) ∨ c = 0xbf then some .leave
  else if (c = 0xa9 ∧ ¬ i.wide) ∨ (i.wide ∧ i.mnemonic = "ret") then some .leave
  else if c = 0xa7 ∨ c = 0xc8 then some (.jump i.targets)
  else if c = 0xa8 ∨ c = 0xc9 then some (.call i.targets)
  else if (0x99 ≤ c ∧ c ≤ 0xa6) ∨ c = 0xc6 ∨ c = 0xc7 then some (.branch i.targets)
  else if c = 0xaa ∨ c = 0xab then some (.switch i.targets i.keys)
  else none

/-- A passage of control to a block. -/
structure Successor where
  block : Nat
  label : Label
  deriving DecidableEq, Repr

/-- Instructions that are entered at the first and left at the last only. They are given by their numbers from
    `start` to before `stop`. -/
structure Block where
  id : Nat
  start : Nat
  stop : Nat
  entry : Bool
  /-- Control leaves the method at its end. -/
  terminal : Bool
  successors : List Successor
  deriving DecidableEq, Repr

/-- The numbers of instructions by their position; of several at one position the last one counts. -/
def places (is : List Instruction) : Std.HashMap Int Nat :=
  lastTable (is.zipIdx.map fun (i, n) => (i.offset, n))

/-- The numbers of instructions that a block must start at because of one instruction: the next one and those
    that it jumps to. There are `count` instructions. -/
def cutsOf (places : Std.HashMap Int Nat) (count n : Nat) (i : Instruction) : List Nat :=
  match transfer? i with
  | none => []
  | some t => (if n + 1 < count then [n + 1] else []) ++ t.targets.filterMap (places[·]?)

/-- The cuts of the instructions from the `n`-th on. -/
def cutsFrom (places : Std.HashMap Int Nat) (count n : Nat) : List Instruction → List Nat
  | [] => []
  | i :: is => cutsOf places count n i ++ cutsFrom places count (n + 1) is

/-- The numbers of the first instructions of all blocks, ascending. -/
def leaders (is : List Instruction) : List Nat :=
  if is.isEmpty then []
  else dropRepeats ((0 :: cutsFrom (places is) is.length 0 is).mergeSort)

/-- The numbers of blocks by the numbers of their first instructions. -/
def blockTable (starts : List Nat) : Std.HashMap Nat Nat :=
  firstTable starts.zipIdx

/-- Where control goes from the last instruction of a block that ends before number `stop`. -/
def successorsOf (places : Std.HashMap Int Nat) (ids : Std.HashMap Nat Nat) (stop : Nat)
    (last : Instruction) : List Successor :=
  match transfer? last with
  | none => (ids[stop]?.map fun b => ⟨b, .always⟩).toList
  | some .leave => []
  | some t =>
    (t.targets.zip t.labels).filterMap (fun (o, l) => do
      let n ← places[o]?
      let b ← ids[n]?
      return ⟨b, l⟩)
    ++ if t.fallsThrough then (ids[stop]?.map fun b => ⟨b, .otherwise⟩).toList else []

/-- Control leaves the method at the last instruction of a block that ends before number `stop`. -/
def isTerminal (ids : Std.HashMap Nat Nat) (stop : Nat) (last : Instruction) : Bool :=
  match transfer? last with
  | none => !ids.contains stop
  | some t => t.leaves

/-- The blocks from the `id`-th on, given the starts of these and the instructions from the first of them on.
    There are `count` instructions in all. -/
def blocksFrom (places : Std.HashMap Int Nat) (ids : Std.HashMap Nat Nat) (count id : Nat) :
    List Nat → List Instruction → List Block
  | [], _ => []
  | start :: later, rest =>
    let stop := later.head?.getD count
    let own := rest.take (stop - start)
    let rest := rest.drop (stop - start)
    match own.getLast? with
    | none => blocksFrom places ids count (id + 1) later rest
    | some last =>
      { id, start, stop, entry := start == 0, terminal := isTerminal ids stop last,
        successors := successorsOf places ids stop last }
        :: blocksFrom places ids count (id + 1) later rest

/-- The basic blocks of a method. -/
def blocks (is : List Instruction) : List Block :=
  let starts := leaders is
  blocksFrom (places is) (blockTable starts) is.length 0 starts is

end CallAtlas.Bytecode
