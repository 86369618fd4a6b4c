import CallAtlas.ClassFile.Parse
import CallAtlas.Bytecode.CallSite
import CallAtlas.Facts.Descriptor
import CallAtlas.Facts.Location

/-!
# Loading classes

From the bytes of a class file to a class with its code decoded and the target of every call named.
One defect anywhere in it makes the whole class unusable.
-/

namespace CallAtlas.Program

open Bytecode

/-- A class file as a source hands it over: its bytes, or why they could not be had. -/
structure ClassEntry where
  path : Text.RawText
  content : Except Failure (List UInt8)

/-- Why the target of a call cannot be named. -/
inductive SiteProblem where
  | pool (problem : ClassFile.Problem)
  | bootstrap (index : Nat)
  | descriptor (text : String) (problem : Descriptor.Problem)
  deriving DecidableEq, Repr

def SiteProblem.message : SiteProblem → String
  | .pool p => p.message
  | .bootstrap i => s!"bootstrap method {i} out of range"
  | .descriptor d p => p.message d

def SiteProblem.kind : SiteProblem → FailureKind
  | .pool p => p.kind
  | .bootstrap _ => .other
  | .descriptor _ _ => .badDescriptor

/-- Why a class is unusable. -/
inductive LoadProblem where
  | unreadable (failure : Failure)
  | classFile (failure : ClassFile.Failure)
  | descriptor (method text : String) (problem : Descriptor.Problem)
  | code (method : String) (fault : Bytecode.Fault)
  | site (method : String) (offset : Int) (problem : SiteProblem)
  deriving DecidableEq, Repr

namespace LoadProblem

/-- The position in the class file that the problem is reported for. -/
def offset : LoadProblem → Nat
  | .classFile f => f.offset
  | _ => 0

def detail : LoadProblem → Text.RawText
  | .unreadable f => f.message
  | .classFile f => f.fault.message
  | .descriptor m d p => s!"method {m}: {p.message d}"
  | .code m f => s!"method {m}: {f.message}"
  | .site m o p => s!"method {m}: call site {o}: {p.message}"

def kind : LoadProblem → FailureKind
  | .unreadable f => f.kind
  | .classFile f => f.fault.kind
  | .descriptor _ _ _ => .badDescriptor
  | .code _ f => f.failure.kind
  | .site _ _ p => p.kind

end LoadProblem

/-- An unusable class. -/
structure LoadFailure where
  path : Text.RawText
  problem : LoadProblem
  deriving DecidableEq, Repr

/-- An unusable class as it is reported. -/
def LoadFailure.failure (f : LoadFailure) : Failure :=
  { kind := f.problem.kind, origin := some (f.path, f.problem.offset)
    message := "classfile: decode " ++ f.path ++ " at 0x" ++ Text.hex f.problem.offset ++ ": "
      ++ f.problem.detail }

/-- A call with the method that it names. -/
structure NamedSite where
  site : CallSite
  ref : ClassFile.MemberRef
  params : List String
  deriving DecidableEq, Repr

/-- The instructions of a method and the calls among them. -/
structure LoadedCode where
  instructions : List Instruction
  sites : List NamedSite
  deriving DecidableEq, Repr

/-- A method with its location and its code, if it has any. -/
structure LoadedMethod where
  method : ClassFile.Method
  declaration : Location
  code : Option LoadedCode
  deriving DecidableEq, Repr

/-- A class whose methods are all decoded. -/
structure LoadedClass where
  path : Text.RawText
  classFile : ClassFile
  methods : List LoadedMethod
  deriving DecidableEq, Repr

/-- The class that makes the objects behind lambda expressions. -/
def lambdaFactory : String := "java/lang/invoke/LambdaMetafactory"

/-- The method behind a lambda expression, given the arguments of its bootstrap method. -/
def lambdaBody? (c : ClassFile) (arguments : List Nat) : Option ClassFile.MemberRef := do
  let i ← arguments[1]?
  let h ← (c.pool.methodHandle i).toOption
  if h.isMethod then some h.ref else none

/-- The method that a call names. A dynamic call names the method behind a lambda expression, or else its
    bootstrap method. -/
def symbolicRef (c : ClassFile) (site : CallSite) : Except SiteProblem ClassFile.MemberRef :=
  match site.kind with
  | .dynamic => do
    let (index, _, _) ← (c.pool.invokeDynamic site.ref).mapError .pool
    match c.bootstrap[index]? with
    | none => .error (.bootstrap index)
    | some bootstrap => do
      let handle ← (c.pool.methodHandle bootstrap.handle).mapError .pool
      if handle.ref.owner = lambdaFactory then
        return (lambdaBody? c bootstrap.arguments).getD handle.ref
      else return handle.ref
  | _ => (c.pool.methodRef site.ref).mapError .pool

/-- Names the target of a call. -/
def nameSite (c : ClassFile) (site : CallSite) : Except SiteProblem NamedSite := do
  let ref ← symbolicRef c site
  let type ← (Descriptor.parse ref.descriptor).mapError (.descriptor ref.descriptor)
  return { site, ref, params := type.params }

/-- Decodes the code of a method. -/
def loadCode (c : ClassFile) (limit : Nat) (m : ClassFile.Method) (code : ClassFile.Code) :
    Except LoadProblem LoadedCode := do
  let label := m.name ++ m.descriptor
  let instructions ← (decode code.bytes limit).mapError (.code label)
  let sites ← (callSites (ClassFile.lineAt code.lines) instructions).mapM fun site =>
    (nameSite c site).mapError (.site label site.offset)
  return { instructions, sites }

/-- Decodes a method. -/
def loadMethod (c : ClassFile) (limit : Nat) (m : ClassFile.Method) :
    Except LoadProblem LoadedMethod := do
  let type ← (Descriptor.parse m.descriptor).mapError (.descriptor m.name m.descriptor)
  let declaration := Location.ofMethod c.name m.name type.params
  match m.code with
  | none => return { method := m, declaration, code := none }
  | some code => return { method := m, declaration, code := some (← loadCode c limit m code) }

/-- Decodes the methods of a class. -/
def loadMethods (c : ClassFile) (limit : Nat) : Except LoadProblem (List LoadedMethod) :=
  c.methods.mapM (loadMethod c limit)

/-- What is asked of class files. -/
structure Limits where
  /-- The most bytes of a class file, zero for no limit. -/
  maxBytes : Nat
  /-- The most instructions of a method. -/
  maxInstructions : Nat
  deriving DecidableEq, Repr

/-- The class file of an entry. -/
def parseEntry (limits : Limits) (e : ClassEntry) : Except LoadProblem ClassFile :=
  match e.content with
  | .error f => .error (.unreadable f)
  | .ok data => (ClassFile.parse e.path data limits.maxBytes).mapError .classFile

/-- Loads the class of an entry. -/
def load (limits : Limits) (e : ClassEntry) : Except LoadFailure LoadedClass :=
  Except.mapError (LoadFailure.mk e.path) do
    let c ← parseEntry limits e
    let methods ← loadMethods c limits.maxInstructions
    return { path := e.path, classFile := c, methods }

end CallAtlas.Program
