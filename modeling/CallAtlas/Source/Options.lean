import CallAtlas.Exclude.Pattern
import CallAtlas.Files.Tree
import CallAtlas.Text.Quoted
import CallAtlas.Zip.Archive

/-!
# What a source yields

Sources of class files differ in where the files are. Which of them count, how large they may be and
what can go wrong is the same for all.
-/

namespace CallAtlas.Source

open Text (RawText)

/-- How to reach an object store. -/
structure StoreSettings where
  endpoint : RawText := ""
  region : RawText := ""
  accessKey : RawText := ""
  secretKey : RawText := ""
  useSsl : Bool := false
  deriving DecidableEq, Repr

/-- What is wanted of a source. -/
structure Options where
  /-- Patterns of paths that are left out. -/
  exclude : List RawText := []
  /-- A file of more such patterns, empty for none. -/
  excludeFile : RawText := ""
  /-- Archives inside are opened. -/
  nested : Bool := false
  /-- Classes for particular versions of the platform count. -/
  versioned : Bool := false
  /-- The most bytes of a file; the default unless positive. -/
  maxEntry : Int := 0
  store : StoreSettings := {}
  deriving DecidableEq, Repr

/-- The most bytes of a file unless something else is asked for. -/
def defaultMaxEntry : Nat := 67108864

/-- The most bytes of a file. -/
def Options.limit (o : Options) : Nat :=
  if 0 < o.maxEntry then o.maxEntry.toNat else defaultMaxEntry

/-! ### Problems -/

/-- Why an object of a store cannot be had. -/
inductive FetchProblem where
  | tooLarge
  | failed (text : String)
  deriving DecidableEq, Repr

/-- Why a source, or a file of it, cannot be read. -/
inductive Problem where
  | unreadable (name detail : RawText)
  | badReference (reference : String)
  | noBucket (reference : String)
  | excludeFile (fault : Files.Fault)
  | file (fault : Files.Fault)
  /-- A file has too many bytes, as many as given if that is known before it is read. -/
  | tooLarge (name : RawText) (size : Option Nat)
  | openEntry (name : RawText) (problem : Zip.Problem)
  | readEntry (name : RawText) (problem : Zip.Problem)
  | fetch (key : String) (problem : FetchProblem)
  | noEndpoint
  | badEndpoint (detail : String)
  | cancelled
  deriving DecidableEq, Repr

namespace Problem

/-- The wording of too many bytes. -/
def tooLargeText : String := "artifact: entry exceeds size cap"

def message : Problem → RawText
  | .unreadable n d => "artifact: unreadable artifact: " ++ n ++ ": " ++ d
  | .badReference r => "artifact: invalid reference: " ++ Text.quoted r
  | .noBucket r => "artifact: invalid reference: " ++ Text.quoted r ++ ": missing bucket"
  | .excludeFile f => "artifact: exclude file: " ++ f.message
  | .file f => f.message
  | .tooLarge n none => tooLargeText ++ ": " ++ n
  | .tooLarge n (some size) => tooLargeText ++ ": " ++ n ++ s!" ({size} bytes)"
  | .openEntry n p => "artifact: open " ++ n ++ ": " ++ p.message
  | .readEntry n p => "artifact: read " ++ n ++ ": " ++ p.message
  | .fetch k .tooLarge => s!"artifact: get {k}: {tooLargeText}"
  | .fetch k (.failed t) => s!"artifact: get {k}: {t}"
  | .noEndpoint => "artifact: s3 endpoint is required"
  | .badEndpoint d => s!"artifact: init s3 client: {d}"
  | .cancelled => Failure.cancelled.message

def kind : Problem → FailureKind
  | .unreadable _ _ => .unreadableSource
  | .badReference _ => .badReference
  | .noBucket _ => .badReference
  | .tooLarge _ _ => .entryTooLarge
  | .fetch _ .tooLarge => .entryTooLarge
  | .noEndpoint => .noEndpoint
  | .cancelled => .cancelled
  | _ => .other

def failure (p : Problem) : Failure :=
  { kind := p.kind, message := p.message }

end Problem

/-! ### The filter -/

/-- Decides which paths of a source count. -/
structure Filter where
  patterns : Exclude.Patterns
  versioned : Bool
  deriving DecidableEq, Repr

/-- The filter that options ask for. The patterns of the file come first. -/
def Filter.ofOptions (files : Files.Tree) (o : Options) : Except Problem Filter := do
  let lines ←
    if o.excludeFile.isEmpty then pure []
    else do
      let content ← (files.readFile o.excludeFile).mapError .excludeFile
      pure (Exclude.Patterns.linesOf ⟨content⟩)
  return { patterns := .ofLines (lines ++ o.exclude), versioned := o.versioned }

/-- Names of class files that declare no class. -/
def descriptorNames : List RawText :=
  ["module-info.class", "package-info.class"]

/-- Where an application archive keeps the archives of its libraries. -/
def libraryDirectories : List RawText :=
  ["BOOT-INF/lib/", "WEB-INF/lib/"]

namespace Filter

def excludes (f : Filter) (path : RawText) : Bool :=
  f.patterns.exclude path

/-- A path of a class that counts. -/
def isClass (f : Filter) (path : RawText) : Bool :=
  path.endsWith ".class" && !descriptorNames.contains (Files.baseName path) &&
    (f.versioned || !path.startsWith "META-INF/versions/") && !f.excludes path

/-- A path of a library archive inside an application archive. -/
def isLibrary (f : Filter) (path : RawText) : Bool :=
  path.endsWith ".jar" && !f.excludes path && libraryDirectories.any fun d =>
    (Text.dropPrefix? d.bytes path.bytes).any fun rest => !rest.contains Files.slash

end Filter

/-- A path has the name of an archive. -/
def isArchiveName (path : RawText) : Bool :=
  [".jar", ".zip", ".war"].contains
    (String.ofList ((Files.extension path).chars.map Text.lowerChar))

end CallAtlas.Source
