import CallAtlas.ClassFile.Basic
import CallAtlas.Closure
import CallAtlas.Repeats
import CallAtlas.Table
import CallAtlas.Text.Sorted

/-!
# Class hierarchy

The classes at hand with their superclasses and interfaces, the search for the method that a call
names, and the methods that override a method.
-/

namespace CallAtlas.Program

open ClassFile

/-- The supertypes by which a class counts as a subtype: its superclass, unless it is an interface, and the
    interfaces that it names. -/
def directSupertypes (c : ClassFile) : List String :=
  distinct ((if c.super = "" ∨ c.isInterface then [] else [c.super]) ++ c.interfaces)

/-- Each direct supertype of a class with the class, by the names of the classes. -/
def subtypePairs (cs : List ClassFile) : List (String × String) :=
  (cs.mergeSort fun a b => decide (a.name ≤ b.name)).flatMap fun c =>
    (directSupertypes c).map fun s => (s, c.name)

/-- The classes at hand. Their names are distinct. -/
structure Hierarchy where
  classes : List ClassFile
  /-- The classes by name. -/
  byName : Std.HashMap String ClassFile
  /-- The names of the direct subtypes of a type, ascending. -/
  subtypesOf : Std.HashMap String (List String)
  byName_eq : byName = firstTable (classes.map fun c => (c.name, c))
  subtypesOf_eq : subtypesOf = groups (subtypePairs classes)

/-- The hierarchy of some classes. -/
def Hierarchy.ofClasses (classes : List ClassFile) : Hierarchy :=
  { classes
    byName := firstTable (classes.map fun c => (c.name, c))
    subtypesOf := groups (subtypePairs classes)
    byName_eq := rfl
    subtypesOf_eq := rfl }

/-- A method of a class. -/
structure Found where
  owner : ClassFile
  method : Method

/-- The method is chosen by the class of the object it is called on. -/
def isOverridable (m : Method) : Bool :=
  !m.isStatic && !m.isPrivate && m.name != "<init>" && m.name != "<clinit>"

namespace Hierarchy

/-- The names of the classes. -/
def names (h : Hierarchy) : List String :=
  h.classes.map ClassFile.name

/-- The class with a name. -/
def get? (h : Hierarchy) (name : String) : Option ClassFile :=
  h.byName[name]?

/-- The interfaces that a class at hand names. -/
def interfacesOf (h : Hierarchy) (name : String) : List String :=
  (h.get? name).elim [] ClassFile.interfaces

/-- The supertypes that a class names, the superclass first. -/
def parents (c : ClassFile) : List String :=
  if c.super = "" then c.interfaces else c.super :: c.interfaces

/-- The supertypes that a class at hand names. -/
def parentsOf (h : Hierarchy) (name : String) : List String :=
  (h.get? name).elim [] parents

/-- The classes that name `name` as their superclass or interface, ascending. -/
def directSubtypes (h : Hierarchy) (name : String) : List String :=
  h.subtypesOf.getD name []

/-- At most `n` classes: the one with a name, its superclass and so on, up to an interface or a class that is
    not at hand. -/
def chainFrom (h : Hierarchy) : (n : Nat) → String → List ClassFile
  | 0, _ => []
  | n + 1, name =>
    if name = "" then []
    else match h.get? name with
      | none => []
      | some c => if c.isInterface then [c] else c :: chainFrom h n c.super

/-- The class with a name and its superclasses at hand. No chain without a cycle is longer than the number of
    classes. -/
def chain (h : Hierarchy) (name : String) : List ClassFile :=
  h.chainFrom h.classes.length name

/-- The declaration of a method in a class. -/
def declared? (name descriptor : String) (c : ClassFile) : Option Found :=
  (c.method? name descriptor).map fun m => ⟨c, m⟩

/-- The classes that can be reached from the interfaces of a chain, nearest first. -/
def superinterfaces (h : Hierarchy) (chain : List ClassFile) : List ClassFile :=
  (closure h.names h.interfacesOf (chain.flatMap ClassFile.interfaces)).filterMap h.get?

/-- The methods of superinterfaces that a call may mean, nearest first. -/
def inherited (h : Hierarchy) (chain : List ClassFile) (name descriptor : String) : List Found :=
  (h.superinterfaces chain).filterMap fun c =>
    (declared? name descriptor c).filter fun f => !f.method.isPrivate && !f.method.isStatic

/-- The method that a reference to `owner` means: that of the nearest class on its chain of superclasses, else
    one of a superinterface, if possible one with code. -/
def resolve (h : Hierarchy) (owner name descriptor : String) : Option Found :=
  let chain := h.chain owner
  match chain.findSome? (declared? name descriptor) with
  | some f => some f
  | none =>
    let candidates := h.inherited chain name descriptor
    (candidates.find? fun f => !f.method.isAbstract).or candidates.head?

/-- The names of all subtypes at hand, ascending. -/
def subtypes (h : Hierarchy) (name : String) : List String :=
  Text.sort ((closure h.names h.directSubtypes (h.directSubtypes name)).filter (· != name))

/-- The supertypes of a class that are at hand, ascending by name. -/
def supertypes (h : Hierarchy) (c : ClassFile) : List ClassFile :=
  (Text.sort ((closure h.names h.parentsOf (parents c)).filter (· != c.name))).filterMap h.get?

/-- The classes whose method may run in place of a method, ascending by name. -/
def overriders (h : Hierarchy) (f : Found) : List ClassFile :=
  if !isOverridable f.method || f.method.isFinal then []
  else (h.subtypes f.owner.name).filterMap fun name => do
    let c ← h.get? name
    let m ← c.method? f.method.name f.method.descriptor
    if isOverridable m && !m.isAbstract then some c else none

end Hierarchy
end CallAtlas.Program
