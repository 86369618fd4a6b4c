import CallAtlas.Report.Document
import CallAtlas.Run.Session

/-!
# Saving results

Documents and drawings are saved as files of a directory.
-/

namespace CallAtlas.Run

open Text (RawText)

/-- Saves a document under a path. -/
def saveDocument (path : RawText) (j : Text.Json) : Task Unit :=
  change ("output: create " ++ path) (·.writeFile path (Text.toBytes j.document))

/-- Saves what came of a build; the answer is the path. -/
def saveBuild (directory : RawText) (r : Program.Report) : Task RawText := do
  let path := Files.joinPath directory "build.json"
  saveDocument path (Report.buildDocument r)
  return path

/-- Saves all facts of a store; the answer is the path. -/
def saveFacts (directory : RawText) (source : String) (s : Facts.Store) :
    Task RawText := do
  let path := Files.joinPath directory "facts.json"
  saveDocument path (Report.factsDocument source s)
  return path

/-- Saves the text of a drawing in a directory, which is made if need be; the answer is the path. -/
def saveDrawing (directory name : RawText) (text : String) : Task RawText := do
  let path := Files.joinPath directory (name ++ ".dot")
  let parent := Files.parentPath path
  change ("output: mkdir " ++ parent) (·.makeDirectories parent)
  change ("output: write " ++ path) (·.writeFile path (Text.toBytes text))
  return path

/-- Makes a directory for results. -/
def makeResultDirectory (directory : RawText) : Task Unit :=
  change ("mkdir " ++ directory) (·.makeDirectories directory)

/-- What turns drawings into pictures. -/
inductive Renderer where
  /-- Pictures appear beside their drawings. -/
  | ready
  /-- The program cannot be started, for a reason. -/
  | broken (program reason : String)
  deriving DecidableEq, Repr

/-- The picture of a drawing: its path, or why there is none. -/
def Renderer.picture (r : Renderer) (path : RawText) : Except RawText RawText :=
  match r with
  | .ready => .ok (⟨(Text.dropSuffix? (Text.toBytes ".dot") path.bytes).getD path.bytes⟩ ++ ".svg")
  | .broken program reason => .error ("output: " ++ program ++ " " ++ path ++ ": " ++ reason ++ ": ")

end CallAtlas.Run
