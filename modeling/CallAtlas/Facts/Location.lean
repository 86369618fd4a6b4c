import CallAtlas.Text.Split

/-!
# Locations

A location names a thing of the program under study by a scheme and a path: a class by its name, a
method by its class, name and parameter types, a call by the method it stands in and its position
there.
-/

namespace CallAtlas

/-- The name of a declaration, a source file or a call. -/
structure Location where
  scheme : String
  path : String
  /-- The position of a call in its method; negative for everything else. -/
  offset : Int
  /-- The source line, zero if unknown. It is no part of the name. -/
  line : Int
  deriving DecidableEq, Hashable, Repr

namespace Location

/-- The offset of everything that is not a call. -/
def noOffset : Int := -1

def schemeMethod : String := "java+method"
def schemeConstructor : String := "java+constructor"
def schemeInitializer : String := "java+initializer"
def schemeClass : String := "java+class"
def schemeInterface : String := "java+interface"
def schemeInvocation : String := "java+invocation"
def schemeUnit : String := "java+compilationUnit"

/-- The order of locations: by scheme, then path, then offset. -/
def cmp (a b : Location) : Ordering :=
  (compare a.scheme b.scheme).then ((compare a.path b.path).then (compare a.offset b.offset))

/-- `a` does not stand behind `b`. -/
def le (a b : Location) : Bool :=
  (cmp a b).isLE

/-- The location as one text. -/
def text (l : Location) : String :=
  l.scheme ++ "://" ++ l.path ++ if 0 ≤ l.offset then s!"#{l.offset}" else ""

/-- The location is that of a method, a constructor or an initializer. -/
def isDeclaration (l : Location) : Bool :=
  l.scheme == schemeMethod || l.scheme == schemeConstructor || l.scheme == schemeInitializer

/-- The part of the path that names a member, with its parameters. -/
def member (l : Location) : String :=
  let p := l.path.toList
  String.ofList (Text.afterLast '/' (Text.beforeFirst '(' p) ++ Text.fromFirst '(' p)

/-- The path of the class that a method or a call belongs to; anything else owns itself. -/
def owner (l : Location) : String :=
  if l.isDeclaration || l.scheme == schemeInvocation then
    String.ofList (Text.beforeLast '/' (Text.beforeFirst '(' l.path.toList))
  else l.path

/-- The name of the class that a declaration belongs to, with dots. -/
def ownerName (l : Location) : String :=
  String.ofList (Text.swapChar '/' '.' (Text.dropLeading '/' l.owner.toList))

/-- The location of a class or an interface. -/
def ofClass (name : String) (isInterface : Bool) : Location :=
  { scheme := if isInterface then schemeInterface else schemeClass
    path := "/" ++ name, offset := noOffset, line := 0 }

/-- The part of a class name that its source file is called by: without the names of inner classes. -/
def outermost (base : List Char) : List Char :=
  match Text.beforeFirst '$' base with
  | [] => base
  | b => b

/-- The location of the source file of a class. A file without a name is called as the outermost class in it. -/
def ofUnit (className sourceFile : String) : Location :=
  let cs := className.toList
  let file := if sourceFile = "" then
      String.ofList (outermost (Text.afterLast '/' cs)) ++ ".java"
    else sourceFile
  { scheme := schemeUnit, path := "/" ++ String.ofList (Text.throughLast '/' cs) ++ file
    offset := noOffset, line := 0 }

/-- The name of a class without its package and the classes around it. -/
def simpleName (className : String) : String :=
  let base := Text.afterLast '/' className.toList
  match Text.afterLast '$' base with
  | [] => String.ofList base
  | inner => String.ofList inner

/-- The location of a method. Constructors are named as their class. -/
def ofMethod (owner name : String) (params : List String) : Location :=
  let scheme := if name = "<init>" then schemeConstructor
    else if name = "<clinit>" then schemeInitializer else schemeMethod
  let name := if name = "<init>" then simpleName owner else name
  { scheme, path := "/" ++ owner ++ "/" ++ name ++ "(" ++ ",".intercalate params ++ ")"
    offset := noOffset, line := 0 }

/-- The location of a call in a method. -/
def ofSite (declaration : Location) (offset line : Int) : Location :=
  { scheme := schemeInvocation, path := declaration.path, offset, line }

end Location
end CallAtlas
