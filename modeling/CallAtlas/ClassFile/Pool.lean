import CallAtlas.ClassFile.Problem
import CallAtlas.Text.ModifiedUtf8

/-!
# Constant pool

The constants of a class, numbered from one. A long or double constant takes two numbers, of which
the second is unusable, as is number zero.
-/

namespace CallAtlas.ClassFile

/-- One constant. The indices it holds point to other constants of the same pool. -/
inductive Constant where
  /-- What stands at index zero and behind a long or double constant. -/
  | unusable
  | utf8 (text : String)
  | integer (word : Nat)
  | float (word : Nat)
  | long (word : Nat)
  | double (word : Nat)
  | classInfo (name : Nat)
  | string (text : Nat)
  | fieldRef (owner nameAndType : Nat)
  | methodRef (owner nameAndType : Nat)
  | interfaceMethodRef (owner nameAndType : Nat)
  | nameAndType (name descriptor : Nat)
  | methodHandle (kind reference : Nat)
  | methodType (descriptor : Nat)
  | dynamic (bootstrap nameAndType : Nat)
  | invokeDynamic (bootstrap nameAndType : Nat)
  | module (name : Nat)
  | package (name : Nat)
  deriving DecidableEq, Repr

/-- The number that marks a kind of constant in a class file; zero marks none. -/
def Constant.tag : Constant → Nat
  | .unusable => 0
  | .utf8 _ => 1
  | .integer _ => 3
  | .float _ => 4
  | .long _ => 5
  | .double _ => 6
  | .classInfo _ => 7
  | .string _ => 8
  | .fieldRef _ _ => 9
  | .methodRef _ _ => 10
  | .interfaceMethodRef _ _ => 11
  | .nameAndType _ _ => 12
  | .methodHandle _ _ => 15
  | .methodType _ => 16
  | .dynamic _ _ => 17
  | .invokeDynamic _ _ => 18
  | .module _ => 19
  | .package _ => 20

/-- How many indices a constant takes. -/
def Constant.width : Constant → Nat
  | .long _ => 2
  | .double _ => 2
  | _ => 1

/-- The constants by index. -/
structure Pool where
  entries : Array Constant
  deriving DecidableEq, Repr

/-- A member that a constant refers to. -/
structure MemberRef where
  tag : Nat
  owner : String
  name : String
  descriptor : String
  deriving DecidableEq, Repr

/-- The reference is to a method of an interface. -/
def MemberRef.isInterface (r : MemberRef) : Bool :=
  r.tag == 11

/-- A method handle and the member it stands for. -/
structure MethodHandle where
  kind : Nat
  ref : MemberRef
  deriving DecidableEq, Repr

/-- The handle stands for a method and not for a field. -/
def MethodHandle.isMethod (h : MethodHandle) : Bool :=
  5 ≤ h.kind

namespace Pool

/-- One more than the last index. -/
def size (p : Pool) : Nat :=
  p.entries.size

/-- The constant at an index from one on. -/
def get (p : Pool) (i : Nat) : Except Problem Constant :=
  if i = 0 then .error (.poolIndex i)
  else (p.entries[i]?).elim (.error (.poolIndex i)) .ok

/-- The tag at an index, zero where there is none. -/
def tagAt (p : Pool) (i : Nat) : Nat :=
  (p.entries[i]?).elim 0 Constant.tag

/-- The text of a text constant. -/
def text (p : Pool) (i : Nat) : Except Problem String := do
  match ← p.get i with
  | .utf8 s => .ok s
  | c => .error (.poolTag i c.tag)

/-- The name of a class constant, with slashes. -/
def className (p : Pool) (i : Nat) : Except Problem String := do
  match ← p.get i with
  | .classInfo n => p.text n
  | c => .error (.poolTag i c.tag)

/-- The name and the descriptor of a member. -/
def nameAndType (p : Pool) (i : Nat) : Except Problem (String × String) := do
  match ← p.get i with
  | .nameAndType n d => return (← p.text n, ← p.text d)
  | c => .error (.poolTag i c.tag)

/-- The member whose reference has this tag, owner index and name index. -/
def member (p : Pool) (tag owner member : Nat) : Except Problem MemberRef := do
  let owner ← p.className owner
  let (name, descriptor) ← p.nameAndType member
  return { tag, owner, name, descriptor }

/-- A reference to a method of a class or of an interface. -/
def methodRef (p : Pool) (i : Nat) : Except Problem MemberRef := do
  match ← p.get i with
  | .methodRef o m => p.member 10 o m
  | .interfaceMethodRef o m => p.member 11 o m
  | c => .error (.poolTag i c.tag)

/-- A reference to a field or to a method. -/
def memberRef (p : Pool) (i : Nat) : Except Problem MemberRef := do
  match ← p.get i with
  | .fieldRef o m => p.member 9 o m
  | .methodRef o m => p.member 10 o m
  | .interfaceMethodRef o m => p.member 11 o m
  | c => .error (.poolTag i c.tag)

/-- A method handle with the member that it stands for. -/
def methodHandle (p : Pool) (i : Nat) : Except Problem MethodHandle := do
  match ← p.get i with
  | .methodHandle kind ref => return { kind, ref := ← p.memberRef ref }
  | c => .error (.poolTag i c.tag)

/-- The bootstrap method's number, the name and the descriptor of a dynamic call. -/
def invokeDynamic (p : Pool) (i : Nat) : Except Problem (Nat × String × String) := do
  match ← p.get i with
  | .invokeDynamic b m => return (b, ← p.nameAndType m)
  | c => .error (.poolTag i c.tag)

end Pool

namespace Constant

/-- Reads the constant that is to have index `i`. -/
def read (i : Nat) : Reader Problem Constant := do
  let start ← Reader.position
  let tag ← Reader.u8
  match tag with
  | 1 => do
    let n ← Reader.u16
    let raw ← Reader.bytes n
    match Text.ModifiedUtf8.decode? raw with
    | some s => return .utf8 (String.ofList s)
    | none => Reader.fail (.malformedText i start)
  | 3 => return .integer (← Reader.u32)
  | 4 => return .float (← Reader.u32)
  | 5 => return .long (← Reader.u64)
  | 6 => return .double (← Reader.u64)
  | 7 => return .classInfo (← Reader.u16)
  | 8 => return .string (← Reader.u16)
  | 9 => return .fieldRef (← Reader.u16) (← Reader.u16)
  | 10 => return .methodRef (← Reader.u16) (← Reader.u16)
  | 11 => return .interfaceMethodRef (← Reader.u16) (← Reader.u16)
  | 12 => return .nameAndType (← Reader.u16) (← Reader.u16)
  | 15 => return .methodHandle (← Reader.u8) (← Reader.u16)
  | 16 => return .methodType (← Reader.u16)
  | 17 => return .dynamic (← Reader.u16) (← Reader.u16)
  | 18 => return .invokeDynamic (← Reader.u16) (← Reader.u16)
  | 19 => return .module (← Reader.u16)
  | 20 => return .package (← Reader.u16)
  | _ => Reader.fail (.unknownTag tag i start)

end Constant

namespace Pool

/-- Reads constants until `slots` indices are filled, behind those read before. A constant of two indices at the
    very end keeps only the first of them. -/
def readFrom (before : Array Constant) : Nat → Reader Problem (Array Constant)
  | 0 => fun c => .ok (before, c)
  | 1 => fun c => match Constant.read before.size c with
    | .ok (k, c') => .ok (before.push k, c')
    | .error e => .error e
  | slots + 2 => fun c => match Constant.read before.size c with
    | .ok (k, c') =>
      if k.width = 2 then readFrom ((before.push k).push .unusable) slots c'
      else readFrom (before.push k) (slots + 1) c'
    | .error e => .error e

/-- Reads the number of indices and the constants. -/
def read : Reader Problem Pool := do
  match ← Reader.u16 with
  | 0 => return ⟨#[]⟩
  | count + 1 => return ⟨← readFrom #[.unusable] count⟩

end Pool
end CallAtlas.ClassFile
