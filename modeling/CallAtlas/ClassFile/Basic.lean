import CallAtlas.ClassFile.Pool

/-!
# Class files

What a class file says about a class: its place in the hierarchy, its methods with their code and
line tables, and the bootstrap methods of its dynamic calls.
-/

namespace CallAtlas

namespace ClassFile

/-- The access flags that matter for calls. -/
inductive Access where
  | isPrivate | isStatic | isFinal | isInterface | isAbstract
  deriving DecidableEq, Repr

/-- The bit of an access flag. -/
def Access.bit : Access → Nat
  | .isPrivate => 1
  | .isStatic => 3
  | .isFinal => 4
  | .isInterface => 9
  | .isAbstract => 10

/-- A word of access flags has the flag. -/
def hasAccess (word : Nat) (flag : Access) : Bool :=
  word.testBit flag.bit

/-- The source line that starts at an instruction. -/
structure LineEntry where
  pc : Nat
  line : Nat
  deriving DecidableEq, Repr

/-- The line of an instruction: that of the first entry among those with the greatest `pc` not above it, zero
    without one. -/
def lineAt (lines : List LineEntry) (pc : Int) : Nat :=
  if pc < 0 then 0 else (lines.foldl (nearer pc.toNat) none).elim 0 LineEntry.line
where
  /-- The better of the best entry so far and one more. -/
  nearer (pc : Nat) (best : Option LineEntry) (e : LineEntry) : Option LineEntry :=
    match best with
    | none => if e.pc ≤ pc then some e else none
    | some b => if b.pc < e.pc ∧ e.pc ≤ pc then some e else some b

/-- The code of a method. -/
structure Code where
  maxStack : Nat
  maxLocals : Nat
  bytes : List UInt8
  lines : List LineEntry
  deriving DecidableEq, Repr

/-- A declared method. Abstract and native methods have no code. -/
structure Method where
  access : Nat
  name : String
  descriptor : String
  code : Option Code
  deriving DecidableEq, Repr

namespace Method

def isStatic (m : Method) : Bool := hasAccess m.access .isStatic
def isPrivate (m : Method) : Bool := hasAccess m.access .isPrivate
def isAbstract (m : Method) : Bool := hasAccess m.access .isAbstract
def isFinal (m : Method) : Bool := hasAccess m.access .isFinal

end Method

/-- How a dynamic call finds its target: a method handle and the arguments given to it. -/
structure Bootstrap where
  handle : Nat
  arguments : List Nat
  deriving DecidableEq, Repr

end ClassFile

/-- A class as its file describes it. Names of classes are written with slashes. -/
structure ClassFile where
  /-- Where the class was read from. -/
  path : Text.RawText
  minor : Nat
  major : Nat
  access : Nat
  name : String
  /-- The superclass, empty if there is none. -/
  super : String
  interfaces : List String
  /-- The name of the source file, empty if unknown. -/
  sourceFile : String
  methods : List ClassFile.Method
  bootstrap : List ClassFile.Bootstrap
  pool : ClassFile.Pool
  deriving DecidableEq, Repr

namespace ClassFile

def isInterface (c : ClassFile) : Bool :=
  hasAccess c.access .isInterface

/-- The first declared method with this name and descriptor. -/
def method? (c : ClassFile) (name descriptor : String) : Option Method :=
  c.methods.find? fun m => m.name == name && m.descriptor == descriptor

end ClassFile
end CallAtlas
