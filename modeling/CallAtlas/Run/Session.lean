import CallAtlas.Files.Tree
import CallAtlas.Log

/-!
# Sessions

A session is what a command works on and leaves behind: the files it sees, what it prints and what it
reports on the side. A command that fails keeps what it did before.
-/

namespace CallAtlas.Run

open Text (RawText)

/-- What a command has done so far. -/
structure Session where
  files : Files.Tree
  /-- What was printed. -/
  output : String := ""
  /-- What was reported on the side, the latest first. -/
  notes : List RawText := []
  deriving DecidableEq, Repr

/-- Reports a text on the side. -/
def Session.addNote (s : Session) (t : RawText) : Session :=
  { s with notes := t :: s.notes }

/-- All that was reported on the side. -/
def Session.noteText (s : Session) : RawText :=
  .join s.notes.reverse

/-- A step of a command. -/
abbrev Task := ExceptT Failure (StateM Session)

/-- Prints a text. -/
def print (s : String) : Task Unit :=
  modify fun w => { w with output := w.output ++ s }

/-- Reports a text on the side. -/
def note (t : RawText) : Task Unit :=
  modify (·.addNote t)

/-- Changes the files, or fails with a heading before the reason. -/
def change (heading : RawText) (f : Files.Tree → Except Files.Fault Files.Tree) : Task Unit := do
  match f (← get).files with
  | .ok files => modify fun w => { w with files }
  | .error e => throw (.under heading e.failure)

/-- The files once a logger has put a line at the end of its own. A line that cannot be written is lost. -/
def appendLine (logger : Log.Logger) (line : String) (files : Files.Tree) : Files.Tree :=
  match logger.file with
  | some file => (files.appendFile file (Text.toBytes line)).toOption.getD files
  | none => files

/-- Writes a record to where the logger writes. -/
def log (logger : Log.Logger) (r : Log.Record) : Task Unit := do
  if logger.accepts r then
    note (logger.line r)
    modify fun w => { w with files := appendLine logger (logger.jsonLine r) w.files }

/-- Sets up a logger. Its file is made with the directories that lead to it. -/
def setUpLogger (level : Log.Level) (json : Bool) (file : RawText) : Task Log.Logger := do
  if file.isEmpty then return { level, json }
  change "logging" (·.makeDirectories (Files.parentPath file))
  change "logging" (·.appendFile file [])
  return { level, json, file := some file }

end CallAtlas.Run
