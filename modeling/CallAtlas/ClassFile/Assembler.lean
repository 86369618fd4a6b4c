import CallAtlas.ClassFile.Basic

/-!
# Assembling class files

Class files written from a description: a class with its methods, and the code of a method as a list
of steps. Constants are shared by a key and stand in the pool in the order of their first use, those
of the code before those of the class itself.
-/

namespace CallAtlas.ClassFile.Assembler

/-! ### Words -/

/-- The sixteen low bits of a number, the high byte first. -/
def word16 (n : Nat) : List UInt8 :=
  [UInt8.ofNat (n / 256), UInt8.ofNat n]

/-- The thirty-two low bits of a number, the high byte first. -/
def word32 (n : Nat) : List UInt8 :=
  word16 (n / 65536) ++ word16 n

/-- The sixteen low bits of an integer as a number. -/
def low16 (i : Int) : Nat :=
  (i % 65536).toNat

/-! ### The pool -/

/-- A constant as it stands in a class file, its texts in plain UTF-8. -/
def encodeConstant : Constant → List UInt8
  | .unusable => []
  | .utf8 s => 1 :: word16 (Text.toBytes s).length ++ Text.toBytes s
  | .integer n => 3 :: word32 n
  | .float n => 4 :: word32 n
  | .long n => 5 :: word32 (n / 4294967296) ++ word32 n
  | .double n => 6 :: word32 (n / 4294967296) ++ word32 n
  | .classInfo n => 7 :: word16 n
  | .string n => 8 :: word16 n
  | .fieldRef o t => 9 :: word16 o ++ word16 t
  | .methodRef o t => 10 :: word16 o ++ word16 t
  | .interfaceMethodRef o t => 11 :: word16 o ++ word16 t
  | .nameAndType n d => 12 :: word16 n ++ word16 d
  | .methodHandle k r => 15 :: UInt8.ofNat k :: word16 r
  | .methodType d => 16 :: word16 d
  | .dynamic b t => 17 :: word16 b ++ word16 t
  | .invokeDynamic b t => 18 :: word16 b ++ word16 t
  | .module n => 19 :: word16 n
  | .package n => 20 :: word16 n

/-- Constants in the order of their indices, which start at one, each with the key it is shared by. -/
structure Constants where
  entries : List (String × Constant)
  deriving DecidableEq, Repr

namespace Constants

def empty : Constants := ⟨[]⟩

/-- The index of the constant with a key. -/
def index? (p : Constants) (key : String) : Option Nat :=
  (p.entries.findIdx? (·.1 == key)).map (· + 1)

/-- The pool as it stands in a class file, behind its size. -/
def encode (p : Constants) : List UInt8 :=
  word16 (p.entries.length + 1) ++ p.entries.flatMap fun e => encodeConstant e.2

end Constants

/-- What is written so far, besides the code of the method at hand. -/
structure State where
  constants : Constants
  bootstrap : List Bootstrap
  deriving DecidableEq, Repr

/-- A step of assembly. -/
abbrev Assembly := StateM State

/-- The index of the constant with a key, which is added if there is none. -/
def share (key : String) (c : Constant) : Assembly Nat :=
  modifyGet fun s =>
    match s.constants.index? key with
    | some i => (i, s)
    | none =>
      (s.constants.entries.length + 1, { s with constants := ⟨s.constants.entries ++ [(key, c)]⟩ })

def shareText (s : String) : Assembly Nat :=
  share ("u:" ++ s) (.utf8 s)

def shareClass (name : String) : Assembly Nat := do
  let n ← shareText name
  share ("c:" ++ name) (.classInfo n)

def shareNameAndType (name descriptor : String) : Assembly Nat := do
  let n ← shareText name
  let d ← shareText descriptor
  share ("n:" ++ name ++ ":" ++ descriptor) (.nameAndType n d)

def shareMethod (owner name descriptor : String) : Assembly Nat := do
  let c ← shareClass owner
  let t ← shareNameAndType name descriptor
  share ("m10:" ++ owner ++ "." ++ name ++ descriptor) (.methodRef c t)

def shareInterfaceMethod (owner name descriptor : String) : Assembly Nat := do
  let c ← shareClass owner
  let t ← shareNameAndType name descriptor
  share ("m11:" ++ owner ++ "." ++ name ++ descriptor) (.interfaceMethodRef c t)

/-- The kind of method handle that calls a static method. -/
def staticHandle : Nat := 6

/-- A handle of a static method. -/
def shareHandle (owner name descriptor : String) : Assembly Nat := do
  let r ← shareMethod owner name descriptor
  share s!"h:{staticHandle}:{r}" (.methodHandle staticHandle r)

def shareMethodType (descriptor : String) : Assembly Nat := do
  let d ← shareText descriptor
  share ("t:" ++ descriptor) (.methodType d)

def shareDynamic (bootstrap : Nat) (name descriptor : String) : Assembly Nat := do
  let t ← shareNameAndType name descriptor
  share s!"i:{bootstrap}:{t}" (.invokeDynamic bootstrap t)

/-- Adds a bootstrap method and gives its number. -/
def addBootstrap (handle : Nat) (arguments : List Nat) : Assembly Nat :=
  modifyGet fun s => (s.bootstrap.length, { s with bootstrap := s.bootstrap ++ [⟨handle, arguments⟩] })

/-! ### Code -/

/-- A step of the code of a method. -/
inductive Step where
  /-- An instruction byte by byte. -/
  | raw (bytes : List UInt8)
  /-- What follows starts a source line. -/
  | line (number : Int)
  | invokeVirtual (owner name descriptor : String)
  | invokeSpecial (owner name descriptor : String)
  | invokeStatic (owner name descriptor : String)
  | invokeInterface (owner name descriptor : String)
  /-- A lambda expression whose body is a static method. -/
  | lambda (owner name descriptor samName samDescriptor factoryDescriptor : String)
  /-- A dynamic call whose bootstrap method is static. -/
  | invokeDynamic (owner bootstrap bootstrapDescriptor name descriptor : String)
  /-- A branch to a place relative to itself. -/
  | branch (opcode : UInt8) (relative : Int)
  deriving DecidableEq, Repr

/-- The descriptor of the method that makes the object behind a lambda expression. -/
def metafactoryDescriptor : String :=
  "(Ljava/lang/invoke/MethodHandles$Lookup;Ljava/lang/String;Ljava/lang/invoke/MethodType;" ++
  "Ljava/lang/invoke/MethodType;Ljava/lang/invoke/MethodHandle;Ljava/lang/invoke/MethodType;)" ++
  "Ljava/lang/invoke/CallSite;"

/-- The code of a method so far. -/
structure Body where
  bytes : List UInt8
  lines : List LineEntry
  deriving DecidableEq, Repr

namespace Body

def empty : Body := ⟨[], []⟩

def append (b : Body) (bytes : List UInt8) : Body :=
  { b with bytes := b.bytes ++ bytes }

end Body

/-- A lambda expression as a dynamic call. -/
def shareLambda (owner name descriptor samName samDescriptor factoryDescriptor : String) :
    Assembly Nat := do
  let factory ← shareHandle "java/lang/invoke/LambdaMetafactory" "metafactory" metafactoryDescriptor
  let body ← shareHandle owner name descriptor
  let type ← shareMethodType samDescriptor
  let bootstrap ← addBootstrap factory [type, body, type]
  shareDynamic bootstrap samName factoryDescriptor

/-- Writes one step. -/
def step (b : Body) : Step → Assembly Body
  | .raw bytes => return b.append bytes
  | .line n => return { b with lines := b.lines ++ [⟨b.bytes.length % 65536, low16 n⟩] }
  | .invokeVirtual o n d => return b.append (0xb6 :: word16 (← shareMethod o n d))
  | .invokeSpecial o n d => return b.append (0xb7 :: word16 (← shareMethod o n d))
  | .invokeStatic o n d => return b.append (0xb8 :: word16 (← shareMethod o n d))
  | .invokeInterface o n d =>
    return b.append (0xb9 :: word16 (← shareInterfaceMethod o n d) ++ [1, 0])
  | .lambda o n d sn sd fd => return b.append (0xba :: word16 (← shareLambda o n d sn sd fd) ++ [0, 0])
  | .invokeDynamic o bn bd n d => do
    let handle ← shareHandle o bn bd
    let bootstrap ← addBootstrap handle []
    return b.append (0xba :: word16 (← shareDynamic bootstrap n d) ++ [0, 0])
  | .branch op rel => return b.append (op :: word16 (low16 rel))

/-- Writes steps one after the other, with the length of the code behind every one. -/
def steps (b : Body) : List Step → Assembly (Body × List Nat)
  | [] => return (b, [])
  | s :: ss => do
    let b ← step b s
    let (last, lengths) ← steps b ss
    return (last, b.bytes.length :: lengths)

/-- Code without an instruction is a mere return. -/
def Body.finish (b : Body) : Body :=
  if b.bytes.isEmpty then b.append [0xb1] else b

/-! ### Classes -/

/-- The kinds of method that can be described. -/
inductive MethodKind where
  | isPublic | isStatic | isPrivate | isAbstract
  deriving DecidableEq, Repr

/-- The access flags of a kind of method. -/
def MethodKind.access : MethodKind → Nat
  | .isPublic => 0x0001
  | .isStatic => 0x0009
  | .isPrivate => 0x0002
  | .isAbstract => 0x0401

/-- A method to be written. The steps of an abstract method are left out. -/
structure MethodSpec where
  kind : MethodKind
  name : String
  descriptor : String
  steps : List Step
  deriving DecidableEq, Repr

/-- A class to be written. -/
structure ClassSpec where
  name : String
  isInterface : Bool := false
  /-- The superclass, empty for none. -/
  super : String := "java/lang/Object"
  interfaces : List String := []
  /-- The name of the source file, empty for none. -/
  source : String := ""
  methods : List MethodSpec := []
  deriving DecidableEq, Repr

/-- A method whose code is written. -/
structure WrittenMethod where
  spec : MethodSpec
  body : Option Body
  /-- The length of the code behind every step. -/
  lengths : List Nat
  deriving DecidableEq, Repr

/-- Writes the code of a method. -/
def writeMethod (m : MethodSpec) : Assembly WrittenMethod :=
  match m.kind with
  | .isAbstract => return ⟨m, none, []⟩
  | _ => do
    let (body, lengths) ← steps Body.empty m.steps
    return ⟨m, some body.finish, lengths⟩

/-- The contents of a list behind its sixteen-bit length. -/
def counted {α : Type} (f : α → List UInt8) (xs : List α) : List UInt8 :=
  word16 xs.length ++ xs.flatMap f

/-- An attribute: the index of its name, its length and its content. -/
def attributeBytes (name : Nat) (content : List UInt8) : List UInt8 :=
  word16 name ++ word32 content.length ++ content

/-- The content of a line table. -/
def lineTable (lines : List LineEntry) : List UInt8 :=
  counted (fun e => word16 e.pc ++ word16 e.line) lines

/-- The content of a code attribute. -/
def codeContent (lineAttribute : Nat) (b : Body) : List UInt8 :=
  word16 8 ++ word16 8 ++ word32 b.bytes.length ++ b.bytes ++ word16 0 ++
    counted (attributeBytes lineAttribute) (if b.lines.isEmpty then [] else [lineTable b.lines])

/-- A method with the indices of its name and descriptor. -/
def methodBytes (codeAttribute lineAttribute : Nat) (m : WrittenMethod × Nat × Nat) : List UInt8 :=
  word16 m.1.spec.kind.access ++ word16 m.2.1 ++ word16 m.2.2 ++
    counted (attributeBytes codeAttribute) (m.1.body.toList.map (codeContent lineAttribute))

/-- The content of the table of bootstrap methods. -/
def bootstrapTable (table : List Bootstrap) : List UInt8 :=
  counted (fun b => word16 b.handle ++ counted word16 b.arguments) table

/-- What a class file holds besides the pool, once all its indices are known. -/
structure Layout where
  access : Nat
  this : Nat
  super : Nat
  interfaces : List Nat
  codeAttribute : Nat
  lineAttribute : Nat
  methods : List (WrittenMethod × Nat × Nat)
  attributes : List (Nat × List UInt8)
  deriving DecidableEq, Repr

/-- The index of a superclass, zero for none. -/
def shareSuper (name : String) : Assembly Nat :=
  if name.isEmpty then pure 0 else shareClass name

/-- A method with the indices of its name and descriptor. -/
def nameMethod (m : WrittenMethod) : Assembly (WrittenMethod × Nat × Nat) := do
  let n ← shareText m.spec.name
  let d ← shareText m.spec.descriptor
  return (m, n, d)

/-- The attribute for the name of a source file, if there is one. -/
def sourceAttribute (source : String) : Assembly (List (Nat × List UInt8)) :=
  if source.isEmpty then pure []
  else do
    let name ← shareText "SourceFile"
    return [(name, word16 (← shareText source))]

/-- The attribute for bootstrap methods, if there are any. -/
def bootstrapAttribute (table : List Bootstrap) : Assembly (List (Nat × List UInt8)) :=
  if table.isEmpty then pure []
  else return [(← shareText "BootstrapMethods", bootstrapTable table)]

/-- Gives every name of a class its index. -/
def layout (c : ClassSpec) (methods : List WrittenMethod) : Assembly Layout := do
  let this ← shareClass c.name
  let super ← shareSuper c.super
  let interfaces ← c.interfaces.mapM shareClass
  let codeAttribute ← shareText "Code"
  let lineAttribute ← shareText "LineNumberTable"
  let methods ← methods.mapM nameMethod
  let source ← sourceAttribute c.source
  let bootstrap ← bootstrapAttribute (← get).bootstrap
  return {
    access := if c.isInterface then 0x0601 else 0x0021
    this, super, interfaces, codeAttribute, lineAttribute, methods
    attributes := source ++ bootstrap }

/-- A class file from its pool and its layout, in version 52. -/
def Layout.encode (l : Layout) (p : Constants) : List UInt8 :=
  word32 0xCAFEBABE ++ word16 0 ++ word16 52 ++ p.encode ++
    word16 l.access ++ word16 l.this ++ word16 l.super ++ counted word16 l.interfaces ++ word16 0 ++
    counted (methodBytes l.codeAttribute l.lineAttribute) l.methods ++
    counted (fun a => attributeBytes a.1 a.2) l.attributes

/-- A class file that was written. -/
structure Assembled where
  name : String
  bytes : List UInt8
  /-- For every step of every method in turn, the length of the code of its method behind it. -/
  lengths : List Nat
  deriving DecidableEq, Repr

/-- Writes a class file. -/
def assemble (c : ClassSpec) : Assembled :=
  let written : (List WrittenMethod × Layout) × State := run ⟨.empty, []⟩
  { name := c.name
    bytes := written.1.2.encode written.2.constants
    lengths := written.1.1.flatMap WrittenMethod.lengths }
where
  /-- Writes the code, then the rest. -/
  run : StateM State (List WrittenMethod × Layout) := do
    let methods ← c.methods.mapM writeMethod
    return (methods, ← layout c methods)

/-- The place of a class in an archive. -/
def Assembled.entryName (a : Assembled) : String :=
  a.name ++ ".class"

end CallAtlas.ClassFile.Assembler
