import CallAtlas.Bytes.Reader
import CallAtlas.Bytecode.Opcode
import CallAtlas.Text.Number
import CallAtlas.Table

/-!
# Instructions

The code of a method as a list of instructions. Targets of jumps are positions in the code, and a
list is accepted only if each of them is the position of an instruction.
-/

namespace CallAtlas.Bytecode

/-- One instruction of a method. -/
structure Instruction where
  /-- Its position in the code. -/
  offset : Int
  /-- The code of its operation. -/
  opcode : Nat
  /-- The number of its bytes. -/
  size : Nat
  /-- The name of its operation, for a widened one that of the operation widened. -/
  mnemonic : String
  /-- The constant it refers to, zero for none. -/
  index : Nat
  /-- The positions it can jump to; for a switch the default comes first. -/
  targets : List Int
  /-- The keys of a switch, for the targets behind the default. -/
  keys : List Int
  wide : Bool
  deriving DecidableEq, Repr

/-- Why bytes are not the code of a method. -/
inductive Problem where
  | endOfData
  | undefinedOpcode (code : Nat)
  | notWidenable (code : Nat)
  | tableRange (low high : Int)
  | pairCount (count : Int)
  deriving DecidableEq, Repr

instance : EndOfData Problem := ⟨.endOfData⟩

/-- The wording of a problem. -/
def Problem.message : Problem → String
  | .endOfData => "bytecode: truncated instruction"
  | .undefinedOpcode c => s!"bytecode: undefined opcode: 0x{Text.hexFill 2 c}"
  | .notWidenable c => s!"bytecode: undefined opcode: wide 0x{Text.hexFill 2 c}"
  | .tableRange low high => s!"tableswitch range [{low},{high}] invalid"
  | .pairCount n => s!"lookupswitch npairs {n} invalid"

/-- Why a method's code is not accepted. -/
inductive Fault where
  /-- A problem found at a position. -/
  | malformed (position : Nat) (problem : Problem)
  /-- More instructions than allowed. -/
  | tooLong (limit : Nat)
  /-- A jump that does not lead to an instruction. -/
  | badTarget (mnemonic : String) (offset target : Int)
  deriving DecidableEq, Repr

/-- The wording of a fault. -/
def Fault.message : Fault → String
  | .malformed p problem => s!"at {p}: {problem.message}"
  | .tooLong n => s!"bytecode: instruction cap exceeded: {n}"
  | .badTarget m o t => s!"bytecode: branch target outside method: {m} at {o} -> {t}"

/-- A fault as it is reported. -/
def Fault.failure (f : Fault) : Failure :=
  { message := f.message
    kind := match f with
      | .malformed _ .endOfData => .truncatedCode
      | .malformed _ (.undefinedOpcode _) => .undefinedOpcode
      | .malformed _ (.notWidenable _) => .undefinedOpcode
      | .malformed _ _ => .other
      | .tooLong _ => .codeTooLong
      | .badTarget _ _ _ => .badTarget }

/-- What an instruction says beyond its operation. -/
structure Operands where
  mnemonic : Option String := none
  index : Nat := 0
  targets : List Int := []
  keys : List Int := []
  wide : Bool := false

open Reader

/-- Reads the operands of a switch over a range of keys; `start` is the position of the operation. -/
def readTableSwitch (start : Nat) : Reader Problem Operands := do
  align 4
  let default ← i32
  let low ← i32
  let high ← i32
  if high < low ∨ 65536 ≤ high - low then fail (.tableRange low high)
  let jumps ← times (high - low + 1).toNat fun _ => i32
  return { targets := (default :: jumps).map (start + ·),
           keys := (List.range (high - low + 1).toNat).map fun i => low + (i : Nat) }

/-- Reads the operands of a switch over listed keys; `start` is the position of the operation. -/
def readLookupSwitch (start : Nat) : Reader Problem Operands := do
  align 4
  let default ← i32
  let count ← i32
  let left ← remaining
  if count < 0 ∨ left < count * 8 then fail (.pairCount count)
  let pairs ← times count.toNat fun _ => return (← i32, ← i32)
  return { targets := (default :: pairs.map Prod.snd).map (start + ·), keys := pairs.map Prod.fst }

/-- Reads a widened operation. -/
def readWide : Reader Problem Operands := do
  let code ← u8
  match wideOperands? code with
  | some n => do
    skip n
    return { mnemonic := some (mnemonic code), wide := true }
  | none => fail (.notWidenable code)

/-- Reads the operands of an operation that starts at a position. -/
def readOperands (start : Nat) : Form → Reader Problem Operands
  | .fixed n => do
    skip n
    return {}
  | .constant8 => return { index := ← u8 }
  | .constant16 more => do
    let index ← u16
    skip more
    return { index }
  | .branch16 => return { targets := [start + (← i16)] }
  | .branch32 => return { targets := [start + (← i32)] }
  | .tableSwitch => readTableSwitch start
  | .lookupSwitch => readLookupSwitch start
  | .wide => readWide

/-- Reads one instruction. -/
def Instruction.read : Reader Problem Instruction := do
  let start ← position
  let code ← u8
  match operation? code with
  | none => fail (.undefinedOpcode code)
  | some op => do
    let o ← readOperands start op.form
    let stop ← position
    return { offset := start, opcode := code, size := stop - start,
             mnemonic := o.mnemonic.getD op.mnemonic, index := o.index,
             targets := o.targets, keys := o.keys, wide := o.wide }

/-- Reads instructions to the end of the code, at most `budget` more, behind those read before. -/
def readInstructions (limit : Nat) (before : List Instruction) (c : Cursor) :
    Nat → Except Fault (List Instruction)
  | 0 => if c.rest = [] then .ok before.reverse else .error (.tooLong limit)
  | budget + 1 =>
    if c.rest = [] then .ok before.reverse
    else match Instruction.read c with
      | .ok (i, c') => readInstructions limit (i :: before) c' budget
      | .error e => .error (.malformed e.position e.cause)

/-- The first jump of a list that leads to none of the positions. -/
def strayJump? (starts : Std.HashSet Int) : List Instruction → Option Fault
  | [] => none
  | i :: is =>
    match i.targets.find? fun t => !starts.contains t with
    | some t => some (.badTarget i.mnemonic i.offset t)
    | none => strayJump? starts is

/-- The number of instructions allowed unless a caller says otherwise. No valid code has more. -/
def defaultLimit : Nat := 65536

/-- The limit that a caller's number stands for. -/
def effectiveLimit (n : Int) : Nat :=
  if 0 < n then n.toNat else defaultLimit

/-- The instructions of a method's code. -/
def decode (code : List UInt8) (limit : Nat) : Except Fault (List Instruction) := do
  let is ← readInstructions limit [] (.ofBytes code) limit
  match strayJump? (setOf (is.map Instruction.offset)) is with
  | some f => .error f
  | none => .ok is

end CallAtlas.Bytecode
