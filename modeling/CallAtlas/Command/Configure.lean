import CallAtlas.Command.Line
import CallAtlas.Run.Runner
import CallAtlas.Run.Save
import CallAtlas.Run.Session
import CallAtlas.VariableFile

/-!
# Configuration

What a command is to do comes from its flags, from the environment, and from a file of variables that
fills the environment up. A flag that is given wins over the environment, and the environment over
the file.
-/

namespace CallAtlas.Command

open Text (RawText)

/-- What a command runs in. -/
structure World where
  version : String
  /-- The variables that are set. -/
  environment : List (String × String)
  store : Source.ObjectStore
  renderer : Run.Renderer

/-- How a command is to run. -/
structure Configuration where
  options : Run.Options
  logger : Log.Logger
  /-- Diagnostics are reported one by one. -/
  warnings : Bool

/-- The file of variables that is read if no other is named. -/
def defaultVariableFile : String := ".env"

/-- The variables of a file. -/
def readVariables (files : Files.Tree) (path : String) :
    Except Failure VariableFile.Variables :=
  match files.readFile path with
  | .error e => .error e.failure
  | .ok content =>
    match VariableFile.parse content with
    | .ok vs => .ok vs
    | .error p => .error (.ofText p.message)

/-- The variables of the file that a flag names. Without a name a file need not be there, and if it is not as it
    should be it does not count. -/
def fileVariables (files : Files.Tree) (path : String) : Except Failure VariableFile.Variables :=
  if path = "" then .ok ((readVariables files defaultVariableFile).toOption.getD [])
  else (readVariables files path).mapError (.under ("config: load " ++ path))

/-- Variables that are set win over those of a file. -/
def overlay (first : List (String × String)) (second : VariableFile.Variables) : Environment :=
  fun name => (((first.lookup name).map RawText.ofString).or (VariableFile.value? second name)).getD ""

/-- A setting: what the environment says, unless it says nothing or a flag is given. -/
def setting (i : Invocation) (name : String) (fromEnvironment : RawText) : RawText :=
  if !fromEnvironment.isEmpty && !i.isGiven name then fromEnvironment else i.text name

/-- A value that may be unknown. -/
def known {α : Type} (a : Option α) (kind : FailureKind) (message : String) : Except Failure α :=
  a.elim (.error { kind, message }) .ok

/-- What is asked of the build, the names and the report. -/
def runOptions (i : Invocation) (s : Settings) : Except Failure Run.Options := do
  let text := setting i "dispatch" s.dispatch
  let dispatch ← known (Program.Dispatch.ofText? text.shown) .unknownDispatch
    (Program.Dispatch.unknownMessage text)
  let text := setting i "naming" s.naming
  let naming ← known (Naming.ofText? text.shown) .unknownNaming (Naming.unknownMessage text)
  let text := setting i "format" s.format
  let format ← known (Report.Format.ofText? text.shown) .unknownFormat
    (Report.Format.unknownMessage (Text.quoted text))
  let maxBytes :=
    if i.isGiven "max-class-bytes" then i.number "max-class-bytes" else s.maxClassBytes
  return {
    naming
    format := format.code
    build := {
      dispatch
      mode := if i.isOn "strict" then .strict else .bestEffort
      limits := ⟨maxBytes.toNat, Bytecode.defaultLimit⟩ }
    source := {
      exclude := s.exclude ++ (i.list "exclude").map .ofString
      excludeFile := i.text "exclude-file"
      nested := i.isOn "nested"
      versioned := i.isOn "versioned"
      store := s.store } }

/-- The logger that is asked for. -/
def makeLogger (i : Invocation) (s : Settings) : Run.Task Log.Logger := do
  let text := setting i "log-level" s.logLevel
  let level ← known (Log.Level.ofText? text.shown) .other (Log.Level.unknownMessage text)
  Run.setUpLogger level (i.isOn "log-json" || s.logJson) (setting i "log-file" s.logFile)

/-- The configuration of an invocation. -/
def configure (w : World) (i : Invocation) : Run.Task Configuration := do
  let vs ← fileVariables (← get).files (i.text "env-file")
  let s ← (Settings.ofEnvironment (overlay w.environment vs)).mapError Settings.Problem.failure
  let options ← runOptions i s
  let logger ← makeLogger i s
  return { options, logger, warnings := i.isOn "warnings" }

end CallAtlas.Command
