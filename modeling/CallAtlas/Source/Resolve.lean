import CallAtlas.Source.Bucket
import CallAtlas.Source.Directory

/-!
# Resolving references

A reference names a part of a bucket, a directory or an archive, and is turned into a source of class
files.
-/

namespace CallAtlas

open Program

/-- Where class files come from. -/
inductive Source where
  | archive (name : String) (content : Zip.Archive)
  | directory (root : String)
  | bucket (content : Source.Bucket)

namespace Source

/-- A source that is ready to be read. -/
structure Opened where
  source : Source
  filter : Filter

/-- The name of a source. -/
def name : Source → String
  | .archive n _ => n
  | .directory r => r
  | .bucket b => bucketName b.bucket b.start

/-- Opens an archive in a byte string. -/
def openBytes (files : Files.Tree) (o : Options) (name : String) (data : List UInt8) :
    Except Problem Opened := do
  let filter ← Filter.ofOptions files o
  return ⟨.archive name (← openArchive none name data), filter⟩

/-- Opens an archive in a file. -/
def openFile (files : Files.Tree) (o : Options) (path : String) : Except Problem Opened := do
  let filter ← Filter.ofOptions files o
  let data ← (files.readFile path).mapError fun f => .unreadable path f.message
  return ⟨.archive path (← openArchive (some (.ofString path)) path data), filter⟩

/-- Opens a directory. -/
def openDirectory (files : Files.Tree) (o : Options) (root : String) : Except Problem Opened := do
  checkDirectory files root
  return ⟨.directory root, ← Filter.ofOptions files o⟩

/-- Opens a part of a bucket. -/
def openStore (files : Files.Tree) (o : Options) (store : ObjectStore) (bucket start : String) :
    Except Problem Opened := do
  let filter ← Filter.ofOptions files o
  return ⟨.bucket (← openBucket store bucket start), filter⟩

/-- Opens the source that a reference names. -/
def resolve (files : Files.Tree) (store : ObjectStore) (o : Options) (reference : String) :
    Except Problem Opened :=
  if reference.startsWith "s3://" then do
    let (name, start) ← parseReference reference
    (checkEndpoint o.store).mapError fun p => .unreadable reference p.message
    openStore files o store name start
  else if files.isDirectory reference then openDirectory files o reference
  else openFile files o reference

/-- The class files of a source, sorted by path. -/
def Opened.classes (files : Files.Tree) (cancelled : Bool) (o : Options) (s : Opened) :
    Except Problem (List ClassEntry) :=
  match s.source with
  | .archive _ a => archiveClasses cancelled s.filter o a
  | .directory root => directoryClasses cancelled s.filter o files root
  | .bucket b => bucketClasses cancelled s.filter o b

end Source

end CallAtlas
