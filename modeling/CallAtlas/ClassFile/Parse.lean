import CallAtlas.ClassFile.Basic

/-!
# Reading class files

From bytes to a class. Fields, exception tables and attributes without a meaning here are passed
over. Bytes behind the class do not matter.
-/

namespace CallAtlas.ClassFile

open Reader

/-- Reports the failures of a reader for a part of the file. -/
def during (place : Place) {α : Type} (r : Reader Problem α) : Reader Problem α :=
  r.mapCause (.inside place)

/-- A named stretch of bytes. -/
structure Attribute where
  name : String
  body : List UInt8

/-- Reads an attribute; its name is looked up when its bytes are there. -/
def Attribute.read (p : Pool) : Reader Problem Attribute := do
  let index ← u16
  let length ← u32
  let body ← Reader.bytes length
  let name ← during .attributeName (ofExcept (p.text index))
  return { name, body }

/-- Passes over an attribute without looking at its name. -/
def Attribute.skip : Reader Problem Unit := do
  Reader.skip 2
  let length ← u32
  Reader.skip length

/-- Passes over a field. -/
def skipField : Reader Problem Unit := do
  Reader.skip 6
  let count ← u16
  let _ ← times count fun _ => Attribute.skip

/-- Reads a line table. -/
def LineEntry.readAll : Reader Problem (List LineEntry) := do
  let count ← u16
  times count fun _ => return { pc := ← u16, line := ← u16 }

/-- Reads an attribute of a method's code and yields the lines in it. -/
def Code.readLines (p : Pool) : Reader Problem (List LineEntry) := do
  let a ← Attribute.read p
  if a.name = "LineNumberTable" then inside a.body LineEntry.readAll else return []

/-- Reads the bytes of a method's code, which is neither empty nor longer than sixteen bits can count. -/
def Code.readBytes : Reader Problem (List UInt8) := do
  let length ← u32
  if length = 0 ∨ 65535 < length then fail (.codeLength length) else Reader.bytes length

/-- Reads the code of a method. -/
def Code.read (p : Pool) : Reader Problem Code := do
  let maxStack ← u16
  let maxLocals ← u16
  let code ← Code.readBytes
  let handlers ← u16
  Reader.skip (handlers * 8)
  let count ← u16
  let lines ← times count fun _ => Code.readLines p
  return { maxStack, maxLocals, bytes := code, lines := lines.flatten }

/-- Reads an attribute of a method and yields the code in it. -/
def Method.readCode (p : Pool) (name descriptor : String) : Reader Problem (Option Code) := do
  let a ← Attribute.read p
  if a.name = "Code" then
    return some (← during (.code name descriptor) (inside a.body (Code.read p)))
  else return none

/-- Reads a method. Of several codes the last one counts. -/
def Method.read (p : Pool) : Reader Problem Method := do
  let access ← u16
  let nameIndex ← u16
  let descriptorIndex ← u16
  let name ← ofExcept (p.text nameIndex)
  let descriptor ← ofExcept (p.text descriptorIndex)
  let count ← u16
  let codes ← times count fun _ => Method.readCode p name descriptor
  return { access, name, descriptor, code := (codes.filterMap id).getLast? }

/-- Reads one bootstrap method. -/
def Bootstrap.read : Reader Problem Bootstrap := do
  let handle ← u16
  let count ← u16
  return { handle, arguments := ← times count fun _ => u16 }

/-- Reads a counted list of bootstrap methods. -/
def Bootstrap.readAll : Reader Problem (List Bootstrap) := do
  let count ← u16
  times count fun _ => Bootstrap.read

/-- What an attribute says about its class. -/
inductive ClassDetail where
  | sourceFile (name : String)
  | bootstrap (methods : List Bootstrap)
  | other

/-- Reads an attribute of a class. -/
def ClassDetail.read (p : Pool) : Reader Problem ClassDetail := do
  let a ← Attribute.read p
  if a.name = "SourceFile" then
    let index ← inside a.body u16
    return .sourceFile (← during .sourceFile (ofExcept (p.text index)))
  else if a.name = "BootstrapMethods" then
    return .bootstrap (← during .bootstrapMethods (inside a.body Bootstrap.readAll))
  else return .other

/-- The name of the source file; of several the last one counts. -/
def ClassDetail.sourceFileOf (ds : List ClassDetail) : String :=
  (ds.filterMap fun d => match d with | .sourceFile s => some s | _ => none).getLast?.getD ""

/-- The bootstrap methods; of several lists the last one counts. -/
def ClassDetail.bootstrapOf (ds : List ClassDetail) : List Bootstrap :=
  (ds.filterMap fun d => match d with | .bootstrap b => some b | _ => none).getLast?.getD []

/-- The mark that every class file starts with. -/
def magic : Nat := 0xcafebabe

/-- Reads the mark. -/
def readMagic : Reader Problem Unit := do
  let word ← u32
  if word ≠ magic then fail (.badMagic word)

/-- Reads the superclass; index zero stands for none. -/
def readSuper (p : Pool) : Reader Problem String := do
  let index ← u16
  if index = 0 then return "" else during .superClass (ofExcept (p.className index))

/-- Reads a class that comes from a path. -/
def read (path : Text.RawText) : Reader Problem ClassFile := do
  readMagic
  let minor ← u16
  let major ← u16
  let pool ← Pool.read
  let access ← u16
  let thisIndex ← u16
  let name ← during .thisClass (ofExcept (pool.className thisIndex))
  let super ← readSuper pool
  let interfaceCount ← u16
  let interfaces ← times interfaceCount fun i => do
    let index ← u16
    during (.interface i) (ofExcept (pool.className index))
  let fieldCount ← u16
  let _ ← times fieldCount fun _ => skipField
  let methodCount ← u16
  let methods ← times methodCount fun i => during (.method i) (Method.read pool)
  let attributeCount ← u16
  let details ← times attributeCount fun _ => ClassDetail.read pool
  return { path, minor, major, access, name, super, interfaces, methods, pool,
           sourceFile := ClassDetail.sourceFileOf details,
           bootstrap := ClassDetail.bootstrapOf details }

/-- A fault and the number of bytes read before it. -/
structure Failure where
  offset : Nat
  fault : Fault
  deriving DecidableEq, Repr

/-- The failure of the class file at a path as it is reported. -/
def Failure.failure (path : Text.RawText) (f : Failure) : CallAtlas.Failure :=
  { kind := f.fault.kind, origin := some (path, f.offset)
    message := "classfile: decode " ++ path ++ " at 0x" ++ Text.hex f.offset ++ ": " ++ f.fault.message }

/-- The class in a byte string of at most `maxBytes` bytes; a limit of zero allows any number. -/
def parse (path : Text.RawText) (data : List UInt8) (maxBytes : Nat) : Except Failure ClassFile :=
  if 0 < maxBytes ∧ maxBytes < data.length then .error ⟨0, .tooLarge data.length⟩
  else match read path (.ofBytes data) with
    | .ok (c, _) => .ok c
    | .error ⟨offset, problem⟩ =>
      .error ⟨offset, if problem.isEndOfData then .truncated problem else .malformed problem⟩

end CallAtlas.ClassFile
