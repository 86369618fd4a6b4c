import CallAtlas.Source.Archive

/-!
# Directories as sources

The class files below a directory, with paths relative to it, and on demand those of the archives
below it. Links are not followed; a path to the directory that is itself a link leads nowhere, unless
it ends in a slash.
-/

namespace CallAtlas.Source

open Program
open Text (RawText)

/-- A path leads to a directory. -/
def checkDirectory (files : Files.Tree) (root : RawText) : Except Problem Unit :=
  match files.find root with
  | .ok (_, .directory) => .ok ()
  | .ok _ => .error (.unreadable root "not a directory")
  | .error p => .error (.unreadable root (Files.Fault.mk .status root p).message)

/-- The files below a directory, none if the path is a link. -/
def directoryFiles (files : Files.Tree) (root : RawText) : List (Files.Trail × List UInt8) :=
  match files.findLink root with
  | .ok (trail, .directory) => files.filesBelow trail
  | _ => []

/-- The content of a file within a limit. -/
def fileContent (limit : Nat) (path : RawText) (content : List UInt8) : Except Problem (List UInt8) :=
  if limit < content.length then .error (.tooLarge path (some content.length)) else .ok content

/-- The class files that a file below a directory stands for. -/
def fileClasses (filter : Filter) (o : Options) (root : RawText) (file : Files.Trail × List UInt8) :
    Except Problem (List ClassEntry) :=
  let path := Files.pathOf file.1
  let content := fileContent o.limit (Files.joinPath root path) file.2
  if filter.isClass path then .ok [entryOf path content]
  else if o.nested && isArchiveName path && !filter.excludes path then
    expand false filter o.limit path content
  else .ok []

/-- The class files below a directory, sorted. -/
def directoryClasses (cancelled : Bool) (filter : Filter) (o : Options) (files : Files.Tree)
    (root : RawText) : Except Problem (List ClassEntry) :=
  if cancelled then .error .cancelled
  else do
    let entries ← (directoryFiles files root).mapM (fileClasses filter o root)
    return sortByPath entries.flatten

end CallAtlas.Source
