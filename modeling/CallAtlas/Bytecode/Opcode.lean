/-!
# Operations

The operations of the machine by their code: the name of each and the shape of its operands. Codes
from 202 on are not defined.
-/

namespace CallAtlas.Bytecode

/-- What follows the code of an operation. -/
inductive Form where
  /-- A number of bytes that need not be understood. -/
  | fixed (size : Nat)
  /-- The index of a constant in one byte. -/
  | constant8
  /-- The index of a constant in two bytes, then more bytes. -/
  | constant16 (more : Nat)
  /-- The distance of a jump in two bytes. -/
  | branch16
  /-- The distance of a jump in four bytes. -/
  | branch32
  /-- A default, a range of keys and a distance for each. -/
  | tableSwitch
  /-- A default and a list of keys with a distance for each. -/
  | lookupSwitch
  /-- Another operation, with wider operands. -/
  | wide
  deriving DecidableEq, Repr

/-- An operation: its name and the shape of its operands. -/
structure Operation where
  mnemonic : String
  form : Form
  deriving DecidableEq, Repr

/-- The defined operations in the order of their codes. -/
def operations : Array Operation :=
  #[⟨"nop", .fixed 0⟩, ⟨"aconst_null", .fixed 0⟩, ⟨"iconst_m1", .fixed 0⟩, ⟨"iconst_0", .fixed 0⟩,
   ⟨"iconst_1", .fixed 0⟩, ⟨"iconst_2", .fixed 0⟩, ⟨"iconst_3", .fixed 0⟩,
   ⟨"iconst_4", .fixed 0⟩, ⟨"iconst_5", .fixed 0⟩, ⟨"lconst_0", .fixed 0⟩,
   ⟨"lconst_1", .fixed 0⟩, ⟨"fconst_0", .fixed 0⟩, ⟨"fconst_1", .fixed 0⟩,
   ⟨"fconst_2", .fixed 0⟩, ⟨"dconst_0", .fixed 0⟩, ⟨"dconst_1", .fixed 0⟩, ⟨"bipush", .fixed 1⟩,
   ⟨"sipush", .fixed 2⟩, ⟨"ldc", .constant8⟩, ⟨"ldc_w", .constant16 0⟩,
   ⟨"ldc2_w", .constant16 0⟩, ⟨"iload", .fixed 1⟩, ⟨"lload", .fixed 1⟩, ⟨"fload", .fixed 1⟩,
   ⟨"dload", .fixed 1⟩, ⟨"aload", .fixed 1⟩, ⟨"iload_0", .fixed 0⟩, ⟨"iload_1", .fixed 0⟩,
   ⟨"iload_2", .fixed 0⟩, ⟨"iload_3", .fixed 0⟩, ⟨"lload_0", .fixed 0⟩, ⟨"lload_1", .fixed 0⟩,
   ⟨"lload_2", .fixed 0⟩, ⟨"lload_3", .fixed 0⟩, ⟨"fload_0", .fixed 0⟩, ⟨"fload_1", .fixed 0⟩,
   ⟨"fload_2", .fixed 0⟩, ⟨"fload_3", .fixed 0⟩, ⟨"dload_0", .fixed 0⟩, ⟨"dload_1", .fixed 0⟩,
   ⟨"dload_2", .fixed 0⟩, ⟨"dload_3", .fixed 0⟩, ⟨"aload_0", .fixed 0⟩, ⟨"aload_1", .fixed 0⟩,
   ⟨"aload_2", .fixed 0⟩, ⟨"aload_3", .fixed 0⟩, ⟨"iaload", .fixed 0⟩, ⟨"laload", .fixed 0⟩,
   ⟨"faload", .fixed 0⟩, ⟨"daload", .fixed 0⟩, ⟨"aaload", .fixed 0⟩, ⟨"baload", .fixed 0⟩,
   ⟨"caload", .fixed 0⟩, ⟨"saload", .fixed 0⟩, ⟨"istore", .fixed 1⟩, ⟨"lstore", .fixed 1⟩,
   ⟨"fstore", .fixed 1⟩, ⟨"dstore", .fixed 1⟩, ⟨"astore", .fixed 1⟩, ⟨"istore_0", .fixed 0⟩,
   ⟨"istore_1", .fixed 0⟩, ⟨"istore_2", .fixed 0⟩, ⟨"istore_3", .fixed 0⟩,
   ⟨"lstore_0", .fixed 0⟩, ⟨"lstore_1", .fixed 0⟩, ⟨"lstore_2", .fixed 0⟩,
   ⟨"lstore_3", .fixed 0⟩, ⟨"fstore_0", .fixed 0⟩, ⟨"fstore_1", .fixed 0⟩,
   ⟨"fstore_2", .fixed 0⟩, ⟨"fstore_3", .fixed 0⟩, ⟨"dstore_0", .fixed 0⟩,
   ⟨"dstore_1", .fixed 0⟩, ⟨"dstore_2", .fixed 0⟩, ⟨"dstore_3", .fixed 0⟩,
   ⟨"astore_0", .fixed 0⟩, ⟨"astore_1", .fixed 0⟩, ⟨"astore_2", .fixed 0⟩,
   ⟨"astore_3", .fixed 0⟩, ⟨"iastore", .fixed 0⟩, ⟨"lastore", .fixed 0⟩, ⟨"fastore", .fixed 0⟩,
   ⟨"dastore", .fixed 0⟩, ⟨"aastore", .fixed 0⟩, ⟨"bastore", .fixed 0⟩, ⟨"castore", .fixed 0⟩,
   ⟨"sastore", .fixed 0⟩, ⟨"pop", .fixed 0⟩, ⟨"pop2", .fixed 0⟩, ⟨"dup", .fixed 0⟩,
   ⟨"dup_x1", .fixed 0⟩, ⟨"dup_x2", .fixed 0⟩, ⟨"dup2", .fixed 0⟩, ⟨"dup2_x1", .fixed 0⟩,
   ⟨"dup2_x2", .fixed 0⟩, ⟨"swap", .fixed 0⟩, ⟨"iadd", .fixed 0⟩, ⟨"ladd", .fixed 0⟩,
   ⟨"fadd", .fixed 0⟩, ⟨"dadd", .fixed 0⟩, ⟨"isub", .fixed 0⟩, ⟨"lsub", .fixed 0⟩,
   ⟨"fsub", .fixed 0⟩, ⟨"dsub", .fixed 0⟩, ⟨"imul", .fixed 0⟩, ⟨"lmul", .fixed 0⟩,
   ⟨"fmul", .fixed 0⟩, ⟨"dmul", .fixed 0⟩, ⟨"idiv", .fixed 0⟩, ⟨"ldiv", .fixed 0⟩,
   ⟨"fdiv", .fixed 0⟩, ⟨"ddiv", .fixed 0⟩, ⟨"irem", .fixed 0⟩, ⟨"lrem", .fixed 0⟩,
   ⟨"frem", .fixed 0⟩, ⟨"drem", .fixed 0⟩, ⟨"ineg", .fixed 0⟩, ⟨"lneg", .fixed 0⟩,
   ⟨"fneg", .fixed 0⟩, ⟨"dneg", .fixed 0⟩, ⟨"ishl", .fixed 0⟩, ⟨"lshl", .fixed 0⟩,
   ⟨"ishr", .fixed 0⟩, ⟨"lshr", .fixed 0⟩, ⟨"iushr", .fixed 0⟩, ⟨"lushr", .fixed 0⟩,
   ⟨"iand", .fixed 0⟩, ⟨"land", .fixed 0⟩, ⟨"ior", .fixed 0⟩, ⟨"lor", .fixed 0⟩,
   ⟨"ixor", .fixed 0⟩, ⟨"lxor", .fixed 0⟩, ⟨"iinc", .fixed 2⟩, ⟨"i2l", .fixed 0⟩,
   ⟨"i2f", .fixed 0⟩, ⟨"i2d", .fixed 0⟩, ⟨"l2i", .fixed 0⟩, ⟨"l2f", .fixed 0⟩, ⟨"l2d", .fixed 0⟩,
   ⟨"f2i", .fixed 0⟩, ⟨"f2l", .fixed 0⟩, ⟨"f2d", .fixed 0⟩, ⟨"d2i", .fixed 0⟩, ⟨"d2l", .fixed 0⟩,
   ⟨"d2f", .fixed 0⟩, ⟨"i2b", .fixed 0⟩, ⟨"i2c", .fixed 0⟩, ⟨"i2s", .fixed 0⟩,
   ⟨"lcmp", .fixed 0⟩, ⟨"fcmpl", .fixed 0⟩, ⟨"fcmpg", .fixed 0⟩, ⟨"dcmpl", .fixed 0⟩,
   ⟨"dcmpg", .fixed 0⟩, ⟨"ifeq", .branch16⟩, ⟨"ifne", .branch16⟩, ⟨"iflt", .branch16⟩,
   ⟨"ifge", .branch16⟩, ⟨"ifgt", .branch16⟩, ⟨"ifle", .branch16⟩, ⟨"if_icmpeq", .branch16⟩,
   ⟨"if_icmpne", .branch16⟩, ⟨"if_icmplt", .branch16⟩, ⟨"if_icmpge", .branch16⟩,
   ⟨"if_icmpgt", .branch16⟩, ⟨"if_icmple", .branch16⟩, ⟨"if_acmpeq", .branch16⟩,
   ⟨"if_acmpne", .branch16⟩, ⟨"goto", .branch16⟩, ⟨"jsr", .branch16⟩, ⟨"ret", .fixed 1⟩,
   ⟨"tableswitch", .tableSwitch⟩, ⟨"lookupswitch", .lookupSwitch⟩, ⟨"ireturn", .fixed 0⟩,
   ⟨"lreturn", .fixed 0⟩, ⟨"freturn", .fixed 0⟩, ⟨"dreturn", .fixed 0⟩, ⟨"areturn", .fixed 0⟩,
   ⟨"return", .fixed 0⟩, ⟨"getstatic", .constant16 0⟩, ⟨"putstatic", .constant16 0⟩,
   ⟨"getfield", .constant16 0⟩, ⟨"putfield", .constant16 0⟩, ⟨"invokevirtual", .constant16 0⟩,
   ⟨"invokespecial", .constant16 0⟩, ⟨"invokestatic", .constant16 0⟩,
   ⟨"invokeinterface", .constant16 2⟩, ⟨"invokedynamic", .constant16 2⟩, ⟨"new", .constant16 0⟩,
   ⟨"newarray", .fixed 1⟩, ⟨"anewarray", .constant16 0⟩, ⟨"arraylength", .fixed 0⟩,
   ⟨"athrow", .fixed 0⟩, ⟨"checkcast", .constant16 0⟩, ⟨"instanceof", .constant16 0⟩,
   ⟨"monitorenter", .fixed 0⟩, ⟨"monitorexit", .fixed 0⟩, ⟨"wide", .wide⟩,
   ⟨"multianewarray", .constant16 1⟩, ⟨"ifnull", .branch16⟩, ⟨"ifnonnull", .branch16⟩,
   ⟨"goto_w", .branch32⟩, ⟨"jsr_w", .branch32⟩]

/-- The operation with a code. -/
def operation? (code : Nat) : Option Operation :=
  operations[code]?

/-- The name of an operation, empty for a code that is not defined. -/
def mnemonic (code : Nat) : String :=
  (operation? code).elim "" Operation.mnemonic

/-- How a call names its target. -/
inductive InvokeKind where
  | virtual | special | static | interface | dynamic
  deriving DecidableEq, Repr

/-- The name of a kind of call. -/
def InvokeKind.text : InvokeKind → String
  | .virtual => "virtual"
  | .special => "special"
  | .static => "static"
  | .interface => "interface"
  | .dynamic => "dynamic"

/-- The kind of call that an operation makes. -/
def invokeKind? : Nat → Option InvokeKind
  | 0xb6 => some .virtual
  | 0xb7 => some .special
  | 0xb8 => some .static
  | 0xb9 => some .interface
  | 0xba => some .dynamic
  | _ => none

/-- The operations that may be widened: loads and stores of local variables and `ret`, with an index of two
    bytes, and `iinc`, with an index and a constant of two bytes each. The value is the number of operand
    bytes. -/
def wideOperands? (code : Nat) : Option Nat :=
  if code = 0x84 then some 4
  else if (0x15 ≤ code ∧ code ≤ 0x19) ∨ (0x36 ≤ code ∧ code ≤ 0x3a) ∨ code = 0xa9 then some 2
  else none

end CallAtlas.Bytecode
