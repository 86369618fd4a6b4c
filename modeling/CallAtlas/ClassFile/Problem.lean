import CallAtlas.Text.Number
import CallAtlas.Bytes.Reader

/-!
# Problems in a class file

Each cause for which bytes are not a class file, and the part of the file it was found in.
-/

namespace CallAtlas.ClassFile

/-- A part of a class file that a problem is reported for. -/
inductive Place where
  | thisClass
  | superClass
  | interface (i : Nat)
  | method (i : Nat)
  /-- The code of the method with this name and descriptor. -/
  | code (name descriptor : String)
  | attributeName
  | sourceFile
  | bootstrapMethods
  deriving DecidableEq, Repr

/-- The wording of a place. -/
def Place.text : Place → String
  | .thisClass => "this_class"
  | .superClass => "super_class"
  | .interface i => s!"interface {i}"
  | .method i => s!"method {i}"
  | .code name descriptor => s!"{name}{descriptor} Code"
  | .attributeName => "attribute name"
  | .sourceFile => "SourceFile"
  | .bootstrapMethods => "BootstrapMethods"

/-- Why bytes are not a class file. -/
inductive Problem where
  /-- The bytes end too early. -/
  | endOfData
  /-- The first word is not the mark of a class file. -/
  | badMagic (word : Nat)
  /-- No constant has this index. -/
  | poolIndex (index : Nat)
  /-- The constant at this index has a tag that does not fit its use. -/
  | poolTag (index tag : Nat)
  /-- A constant starts with a tag that does not exist. -/
  | unknownTag (tag index position : Nat)
  /-- A text constant is not modified UTF-8. -/
  | malformedText (index position : Nat)
  /-- A method's code is empty or too long. -/
  | codeLength (length : Nat)
  /-- A problem in a part of the file. -/
  | inside (place : Place) (problem : Problem)
  deriving DecidableEq, Repr

namespace Problem

instance : EndOfData Problem := ⟨.endOfData⟩

/-- The bytes end too early, in whatever part. -/
def isEndOfData : Problem → Bool
  | .endOfData => true
  | .inside _ p => p.isEndOfData
  | _ => false

/-- The wording of a problem. -/
def message : Problem → String
  | .endOfData => Cursor.Fault.endOfData.message
  | .badMagic w => s!"classfile: bad magic: 0x{Text.hexFill 8 w}"
  | .poolIndex i => s!"classfile: constant pool index out of range: {i}"
  | .poolTag i t => s!"classfile: unexpected constant pool tag: #{i} is tag {t}"
  | .unknownTag t i p =>
    s!"classfile: unexpected constant pool tag: {t} at #{i} (0x{Text.hex p})"
  | .malformedText i p => s!"utf8 #{i} at 0x{Text.hex p}: malformed modified UTF-8"
  | .codeLength n => s!"code_length {n} out of range"
  | .inside place p => s!"{place.text}: {p.message}"

/-- The kind of failure that a problem is. -/
def kind : Problem → FailureKind
  | .endOfData => .endOfData
  | .badMagic _ => .badMagic
  | .poolIndex _ => .poolIndex
  | .poolTag _ _ => .poolTag
  | .unknownTag _ _ _ => .poolTag
  | .malformedText _ _ => .other
  | .codeLength _ => .other
  | .inside _ p => p.kind

/-- A problem as it is reported. -/
def failure (p : Problem) : Failure :=
  { kind := p.kind, message := p.message }

end Problem

/-- Why a class file is not accepted. -/
inductive Fault where
  /-- It has more bytes than the caller allows. -/
  | tooLarge (size : Nat)
  /-- It ends too early. -/
  | truncated (problem : Problem)
  /-- It is not a class file. -/
  | malformed (problem : Problem)
  deriving DecidableEq, Repr

/-- The wording of a fault. -/
def Fault.message : Fault → String
  | .tooLarge n => s!"classfile: exceeds size cap: {n} bytes"
  | .truncated p => s!"classfile: truncated: {p.message}"
  | .malformed p => p.message

/-- The kind of failure that a fault is. -/
def Fault.kind : Fault → FailureKind
  | .tooLarge _ => .classTooLarge
  | .truncated _ => .truncatedClass
  | .malformed p => p.kind

end CallAtlas.ClassFile
