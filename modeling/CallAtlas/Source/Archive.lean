import CallAtlas.Program.Load
import CallAtlas.Source.Options

/-!
# Archives as sources

The class files of an archive, and on demand those of the library archives in it. A file that cannot
be read takes its place among the class files with the reason.
-/

namespace CallAtlas.Source

open Program
open Text (RawText)

/-- Class files in the order of their paths; of equal paths the first one stays first. -/
def sortByPath (es : List ClassEntry) : List ClassEntry :=
  es.mergeSort fun a b => a.path.le b.path

/-- A class file, or why it cannot be read. -/
def entryOf (path : RawText) (content : Except Problem (List UInt8)) : ClassEntry :=
  { path, content := content.mapError Problem.failure }

/-- How many bytes are asked for to see that a limit is kept: one more than the limit, as a number of 64 bits
    with a sign. -/
def askedFor (limit : Nat) : Int :=
  Int.bmod (limit + 1) (Nat.pow 2 64)

/-- The content of an entry of an archive within a limit. Nothing is read of it if no bytes are asked for. -/
def entryContent (limit : Nat) (a : Zip.Archive) (e : Zip.Entry) : Except Problem (List UInt8) := do
  if limit < e.size then throw (.tooLarge e.name (some e.size))
  let opened ← (a.openEntry e).mapError (.openEntry e.name)
  if askedFor limit ≤ 0 then return []
  (a.checkContent e opened).mapError (.readEntry e.name)

/-- An archive in a byte string, which is the content of a file or only in memory. -/
def openArchive (file : Option RawText) (name : RawText) (data : List UInt8) :
    Except Problem Zip.Archive :=
  (Zip.read file data).mapError fun p => .unreadable name p.message

/-- The class files of the entries of an archive whose path starts with `place`. What is to be done with library
    archives is left to the caller. -/
def collectEntries (cancelled : Bool) (filter : Filter) (limit : Nat) (a : Zip.Archive)
    (place : RawText) (library : Zip.Entry → Except Problem (List ClassEntry)) :
    List Zip.Entry → Except Problem (List ClassEntry)
  | [] => .ok []
  | e :: es =>
    if cancelled then .error .cancelled
    else do
      let here ←
        if e.isDirectory then pure []
        else if filter.isClass e.name then pure [entryOf (place ++ e.name) (entryContent limit a e)]
        else library e
      let rest ← collectEntries cancelled filter limit a place library es
      return here ++ rest

/-- The class files of an archive, without those of its libraries. -/
def collectFlat (cancelled : Bool) (filter : Filter) (limit : Nat) (a : Zip.Archive)
    (place : RawText) : Except Problem (List ClassEntry) :=
  collectEntries cancelled filter limit a place (fun _ => .ok []) a.entries

/-- The class files of an archive that was found inside something else, under the path of the archive followed
    by `!/`. -/
def expand (cancelled : Bool) (filter : Filter) (limit : Nat) (path : RawText)
    (content : Except Problem (List UInt8)) : Except Problem (List ClassEntry) :=
  match content.bind (openArchive none path) with
  | .error p => .ok [entryOf path (.error p)]
  | .ok a => collectFlat cancelled filter limit a (path ++ "!/")

/-- The class files of an archive, with those of its libraries on demand. -/
def collect (cancelled : Bool) (filter : Filter) (limit : Nat) (nested : Bool) (a : Zip.Archive)
    (place : RawText) : Except Problem (List ClassEntry) :=
  collectEntries cancelled filter limit a place (fun e =>
    if nested && filter.isLibrary e.name then
      expand cancelled filter limit (place ++ e.name) (entryContent limit a e)
    else .ok []) a.entries

/-- The class files of an archive, sorted. -/
def archiveClasses (cancelled : Bool) (filter : Filter) (o : Options) (a : Zip.Archive) :
    Except Problem (List ClassEntry) :=
  (collect cancelled filter o.limit o.nested a "").map sortByPath

end CallAtlas.Source
