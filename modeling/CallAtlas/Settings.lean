import CallAtlas.Source.Options
import CallAtlas.Text.Number

/-!
# Settings

Settings that come from the environment. A value that does not parse is an error, whether it is
needed or not.
-/

namespace CallAtlas

open Text (RawText)

/-- Settings of a run as far as the environment gives them. Texts are empty where it does not. -/
structure Settings where
  workers : Int := 0
  dispatch : RawText := ""
  naming : RawText := ""
  format : RawText := ""
  logLevel : RawText := ""
  logJson : Bool := false
  logFile : RawText := ""
  maxClassBytes : Int := 0
  exclude : List RawText := []
  store : Source.StoreSettings := {}
  deriving DecidableEq, Repr

/-- The value of every variable of an environment, empty for those that are not set. -/
abbrev Environment := String → RawText

namespace Settings

/-- A variable with a value that does not parse. -/
structure Problem where
  variableName : String
  value : RawText
  deriving DecidableEq, Repr

def Problem.message (p : Problem) : String :=
  "config: invalid value: " ++ p.variableName ++ "=" ++ Text.quoted p.value

def Problem.failure (p : Problem) : Failure :=
  { kind := .badSetting, message := p.message }

/-- The largest number that a setting can have. -/
def mostInt : Int := 9223372036854775807

/-- A number that is not negative and fits into a word, written in decimal. -/
def parseCount? (s : String) : Option Int := do
  let n ← Text.decimalInt? s.toList
  if 0 ≤ n ∧ n ≤ mostInt then some n else none

/-- A truth value. -/
def parseBool? (s : String) : Option Bool :=
  if ["1", "t", "T", "TRUE", "true", "True"].contains s then some true
  else if ["0", "f", "F", "FALSE", "false", "False"].contains s then some false
  else none

/-- The parts between commas that are not blank. -/
def parseList (t : RawText) : List RawText :=
  ((Text.splitOn ','.toUInt8 t.bytes).map fun p => RawText.trim ⟨p⟩).filter (!·.isEmpty)

/-- The format of log lines: whether it is JSON. -/
def parseLogFormat? (s : String) : Option Bool :=
  if s = "" ∨ s = "text" then some false else if s = "json" then some true else none

/-- The first text that is not empty. -/
def firstGiven (ts : List RawText) : RawText :=
  (ts.find? (!·.isEmpty)).getD ""

/-- A setting that is read only where it is given. -/
def optional {α : Type} (variableName : String) (value : RawText) (default : α)
    (parse : String → Option α) : Except Problem α :=
  if value.isEmpty then .ok default
  else (value.text?.bind parse).elim (.error ⟨variableName, value⟩) .ok

/-- The variables that settings come from. -/
def variableNames : List String :=
  ["JARCALLS_WORKERS", "JARCALLS_DISPATCH", "JARCALLS_NAMING", "JARCALLS_FORMAT",
   "JARCALLS_LOG_LEVEL", "JARCALLS_LOG_FORMAT", "JARCALLS_LOG_FILE", "JARCALLS_MAX_CLASS_BYTES",
   "JARCALLS_EXCLUDE", "JARCALLS_S3_ENDPOINT", "JARCALLS_S3_REGION", "JARCALLS_S3_ACCESS_KEY",
   "JARCALLS_S3_SECRET_KEY", "JARCALLS_S3_USE_SSL", "AWS_REGION", "MINIO_ROOT_USER",
   "MINIO_ROOT_PASSWORD"]

/-- The settings of an environment. White space around values does not count. -/
def ofEnvironment (env : Environment) : Except Problem Settings := do
  let get := fun name => (env name).trim
  let format := String.ofList ((get "JARCALLS_LOG_FORMAT").chars.map Text.lowerChar)
  let logJson ← optional "JARCALLS_LOG_FORMAT" format false parseLogFormat?
  let workers ← optional "JARCALLS_WORKERS" (get "JARCALLS_WORKERS") 0 parseCount?
  let maxClassBytes ←
    optional "JARCALLS_MAX_CLASS_BYTES" (get "JARCALLS_MAX_CLASS_BYTES") 0 parseCount?
  let useSsl ← optional "JARCALLS_S3_USE_SSL" (get "JARCALLS_S3_USE_SSL") true parseBool?
  return {
    workers, logJson, maxClassBytes
    dispatch := get "JARCALLS_DISPATCH"
    naming := get "JARCALLS_NAMING"
    format := get "JARCALLS_FORMAT"
    logLevel := get "JARCALLS_LOG_LEVEL"
    logFile := get "JARCALLS_LOG_FILE"
    exclude := parseList (get "JARCALLS_EXCLUDE")
    store := {
      endpoint := get "JARCALLS_S3_ENDPOINT"
      region := firstGiven [get "JARCALLS_S3_REGION", get "AWS_REGION", "us-east-1"]
      accessKey := firstGiven [get "JARCALLS_S3_ACCESS_KEY", get "MINIO_ROOT_USER"]
      secretKey := firstGiven [get "JARCALLS_S3_SECRET_KEY", get "MINIO_ROOT_PASSWORD"]
      useSsl } }

end Settings

end CallAtlas
