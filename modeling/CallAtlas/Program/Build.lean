import CallAtlas.Diagnostic
import CallAtlas.Facts.Store
import CallAtlas.Program.Hierarchy
import CallAtlas.Program.Load

/-!
# Building the facts

From class files to the facts about a program: what it declares, how its classes are related and
what calls what. Class files are taken in the order of their paths; of several classes of one name
the first counts.
-/

namespace CallAtlas.Program

open Facts

/-- Which methods a virtual call leads to. -/
inductive Dispatch where
  /-- The method it names. -/
  | declared
  /-- That method and all that override it. -/
  | overrides
  deriving DecidableEq, Repr

namespace Dispatch

def text : Dispatch → String
  | .declared => "declared"
  | .overrides => "overrides"

def code : Dispatch → Int
  | .declared => 0
  | .overrides => 1

/-- The policy with a number. -/
def ofCode? : Int → Option Dispatch
  | 0 => some .declared
  | 1 => some .overrides
  | _ => none

/-- The name of the policy with a number, whether or not there is one. -/
def codeText (n : Int) : String :=
  (ofCode? n).elim s!"DispatchPolicy({n})" text

/-- The policy with a name, in whatever case. -/
def ofText? (s : String) : Option Dispatch :=
  match Text.keyword s with
  | "" => some .declared
  | "declared" => some .declared
  | "static" => some .declared
  | "overrides" => some .overrides
  | "cha" => some .overrides
  | _ => none

/-- The wording for a name that no policy has. -/
def unknownMessage (t : Text.RawText) : String :=
  "extract: unknown dispatch policy: " ++ Text.quoted t

end Dispatch

/-- How facts are built. -/
structure BuildOptions where
  mode : Mode := .bestEffort
  dispatch : Dispatch := .declared
  limits : Limits := ⟨0, Bytecode.defaultLimit⟩

/-- A call and the methods that it leads to, the one it names first. -/
structure ResolvedSite where
  site : Bytecode.CallSite
  callees : List Location
  deriving DecidableEq, Repr

/-- A method's code and its calls. -/
structure Body where
  declaration : Location
  instructions : List Bytecode.Instruction
  sites : List ResolvedSite
  deriving DecidableEq, Repr

/-- What came of a build. -/
structure Report where
  classes : Int := 0
  methods : Int := 0
  callSites : Int := 0
  edges : Int := 0
  /-- Calls of methods that the classes at hand do not declare. -/
  unresolved : Int := 0
  /-- The files left out, and why. -/
  skipped : List (Text.RawText × Failure) := []
  warnings : List Diagnostic := []

/-- The files left out and the warnings, by path. -/
def Report.diagnostics (r : Report) : List Diagnostic :=
  let skipped : List Diagnostic := r.skipped.map fun s => ⟨s.1, -1, .skipped, s.2.message⟩
  (skipped ++ r.warnings).mergeSort fun a b => a.path.le b.path

/-- The facts, the code and the report of a build. -/
structure Built where
  store : Store
  bodies : List Body
  report : Report

/-- The newest version of class files that is known. -/
def maxMajor : Nat := 69

/-- The warning about a class file if its version is newer. -/
def newerVersion? (path : Text.RawText) (c : ClassFile) : Option Diagnostic :=
  if maxMajor < c.major then
    some ⟨path, -1, .unsupported,
      s!"class file version {c.major}.{c.minor} is newer than {maxMajor}"⟩
  else none

/-- The warning about an entry whose class file is of a newer version. -/
def versionWarning? (limits : Limits) (e : ClassEntry) : Option Diagnostic :=
  (parseEntry limits e).toOption.bind (newerVersion? e.path)

/-- The class files in the order of their paths. -/
def sortEntries (es : List ClassEntry) : List ClassEntry :=
  es.mergeSort fun a b => a.path.le b.path

/-- The loaded classes that are the first of their name, and a warning for each of the others. `seen` holds the
    names found before and the paths they were found at. -/
def firstOfName (seen : List (String × Text.RawText)) :
    List LoadedClass → List LoadedClass × List Diagnostic
  | [] => ([], [])
  | c :: cs =>
    match seen.lookup c.classFile.name with
    | some path =>
      let (kept, warnings) := firstOfName seen cs
      (kept, ⟨c.path, -1, .duplicate,
        "class " ++ c.classFile.name ++ " already loaded from " ++ path⟩ :: warnings)
    | none =>
      let (kept, warnings) := firstOfName ((c.classFile.name, c.path) :: seen) cs
      (c :: kept, warnings)

/-- The location of a type, which is that of an interface if the class at hand is one, and as the use of it
    demands if there is none at hand. -/
def typeLocation (h : Hierarchy) (name : String) (isInterface : Bool) : Location :=
  .ofClass name ((h.get? name).elim isInterface ClassFile.isInterface)

def classLocation (c : LoadedClass) : Location :=
  .ofClass c.classFile.name c.classFile.isInterface

def unitLocation (c : LoadedClass) : Location :=
  .ofUnit c.classFile.name c.classFile.sourceFile

/-- A class and its methods are declared in a source file. -/
def declarationFacts (c : LoadedClass) : List Tuple :=
  [classLocation c, unitLocation c]
    :: c.methods.map fun m => [m.declaration, unitLocation c]

/-- A source file contains a class, and this its methods. -/
def containmentFacts (c : LoadedClass) : List Tuple :=
  [unitLocation c, classLocation c]
    :: c.methods.map fun m => [classLocation c, m.declaration]

/-- A class extends its superclass, an interface those it names. -/
def extendsFacts (h : Hierarchy) (c : LoadedClass) : List Tuple :=
  if c.classFile.isInterface then
    c.classFile.interfaces.map fun i => [classLocation c, typeLocation h i true]
  else if c.classFile.super = "" then []
  else [[classLocation c, typeLocation h c.classFile.super false]]

/-- A class implements the interfaces it names. -/
def implementsFacts (h : Hierarchy) (c : LoadedClass) : List Tuple :=
  if c.classFile.isInterface then []
  else c.classFile.interfaces.map fun i => [classLocation c, typeLocation h i true]

/-- The method of a supertype that a method overrides. -/
def overridden? (m : LoadedMethod) (s : ClassFile) : Option Location := do
  let sm ← s.method? m.method.name m.method.descriptor
  if isOverridable sm then
    let type ← (Descriptor.parse sm.descriptor).toOption
    return .ofMethod s.name sm.name type.params
  else none

/-- A method overrides those of supertypes with its name and descriptor. -/
def overrideFactsOf (supers : List ClassFile) (m : LoadedMethod) : List Tuple :=
  if isOverridable m.method then
    (supers.filterMap (overridden? m)).map fun target => [m.declaration, target]
  else []

/-- What the methods of a class override. -/
def overrideFacts (h : Hierarchy) (c : LoadedClass) : List Tuple :=
  c.methods.flatMap (overrideFactsOf (h.supertypes c.classFile))

/-- The methods that a call leads to, and whether the one it names is at hand. A method that is not at hand goes
    under the class that the call names. -/
def resolveSite (h : Hierarchy) (dispatch : Dispatch) (s : NamedSite) : List Location × Bool :=
  match h.resolve s.ref.owner s.ref.name s.ref.descriptor with
  | none => ([.ofMethod s.ref.owner s.ref.name s.params], false)
  | some f =>
    let isVirtual := s.site.kind == .virtual || s.site.kind == .interface
    let more := if isVirtual && dispatch == .overrides then h.overriders f else []
    (.ofMethod f.owner.name f.method.name s.params
      :: more.map fun c => .ofMethod c.name f.method.name s.params, true)

/-- The bodies of a class, and of each call whether its target is at hand. -/
def bodiesOf (h : Hierarchy) (dispatch : Dispatch) (c : LoadedClass) : List (Body × List Bool) :=
  c.methods.filterMap fun m => m.code.map fun code =>
    let sites := code.sites.map fun s => (s, resolveSite h dispatch s)
    ({ declaration := m.declaration, instructions := code.instructions
       sites := sites.map fun (s, callees, _) => ⟨s.site, callees⟩ },
     sites.map fun (_, _, resolved) => resolved)

/-- The calls of a body. -/
def invocationFacts (b : Body) : List Tuple :=
  b.sites.flatMap fun s => s.callees.map fun callee =>
    [b.declaration, callee, .ofSite b.declaration s.site.offset s.site.line]

/-- A relation with the tuples of a list. -/
def relationOf (name : String) (arity : Nat) (ts : List Tuple) : Relation :=
  ts.foldl Relation.insert (.empty name arity)

/-- The facts about loaded classes and their bodies, given those about overriding. -/
def storeOf (h : Hierarchy) (overrides : List Tuple) (cs : List LoadedClass) (bodies : List Body) :
    Store :=
  Store.freeze
    { isFrozen := false
      relations :=
        [relationOf relDeclarations 2 (cs.flatMap declarationFacts),
         relationOf relContainment 2 (cs.flatMap containmentFacts),
         relationOf relExtends 2 (cs.flatMap (extendsFacts h)),
         relationOf relImplements 2 (cs.flatMap (implementsFacts h)),
         relationOf relOverrides 2 overrides,
         relationOf relInvocation 3 (bodies.flatMap invocationFacts)] }

/-- The failures and the classes among the results of loading. -/
def partitionResults : List (Except LoadFailure LoadedClass) → List LoadFailure × List LoadedClass
  | [] => ([], [])
  | .error f :: rs => let (fs, cs) := partitionResults rs; (f :: fs, cs)
  | .ok c :: rs => let (fs, cs) := partitionResults rs; (fs, c :: cs)

/-- Builds the facts about loaded classes, given those about overriding. -/
def buildWith (h : Hierarchy) (overrides : List Tuple) (dispatch : Dispatch) (cs : List LoadedClass)
    (skipped : List LoadFailure) (warnings : List Diagnostic) : Built :=
  let found := cs.flatMap (bodiesOf h dispatch)
  let bodies := found.map Prod.fst
  let resolved := found.flatMap Prod.snd
  let store := storeOf h overrides cs bodies
  { store, bodies
    report :=
      { classes := cs.length
        methods := cs.foldl (fun n c => n + c.methods.length) 0
        callSites := resolved.length
        edges := store.size relInvocation
        unresolved := (resolved.filter (!·)).length
        skipped := skipped.map fun f => (f.path, f.failure)
        warnings := Diagnostic.sort warnings } }

/-- Builds the facts about loaded classes. -/
def buildLoaded (dispatch : Dispatch) (cs : List LoadedClass) (skipped : List LoadFailure)
    (warnings : List Diagnostic) : Built :=
  let h : Hierarchy := .ofClasses (cs.map LoadedClass.classFile)
  buildWith h (cs.flatMap (overrideFacts h)) dispatch cs skipped warnings

/-- Builds the facts about the program in class files. A strict build fails with the first class that is
    unusable, any other leaves such classes out. -/
def build (options : BuildOptions) (entries : List ClassEntry) : Except LoadFailure Built :=
  let entries := sortEntries entries
  let (failures, loaded) := partitionResults (entries.map (load options.limits))
  match options.mode, failures with
  | .strict, f :: _ => .error f
  | _, _ =>
    let (classes, duplicates) := firstOfName [] loaded
    let versions := entries.filterMap (versionWarning? options.limits)
    .ok (buildLoaded options.dispatch classes failures (versions ++ duplicates))

/-- The failure of a build as it is reported. -/
def buildFailure (f : LoadFailure) : Failure :=
  f.failure.under "extract"

/-- Builds the facts unless the task was called off before and there is a file to read. -/
def buildUnless (cancelled : Bool) (options : BuildOptions) (entries : List ClassEntry) :
    Except Failure Built :=
  if cancelled ∧ entries ≠ [] then .error .cancelled
  else (build options entries).mapError buildFailure

end CallAtlas.Program
