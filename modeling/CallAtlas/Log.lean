import CallAtlas.Failure
import CallAtlas.Text.Json
import CallAtlas.Text.Quoted

/-!
# Log lines

What happens in a run, as records with named values. A record is written as one line, in plain text
or as JSON.
-/

namespace CallAtlas.Log

/-! ### Levels -/

/-- How much a record matters; the named levels are four apart. -/
structure Level where
  rank : Int
  deriving DecidableEq, Repr

def Level.debug : Level := ⟨-4⟩
def Level.info : Level := ⟨0⟩
def Level.warn : Level := ⟨4⟩
def Level.error : Level := ⟨8⟩

/-- The named level at or below a level, or the lowest, and the distance to it. -/
def Level.text (l : Level) : String :=
  if l.rank < Level.info.rank then name "DEBUG" (l.rank - Level.debug.rank)
  else if l.rank < Level.warn.rank then name "INFO" (l.rank - Level.info.rank)
  else if l.rank < Level.error.rank then name "WARN" (l.rank - Level.warn.rank)
  else name "ERROR" (l.rank - Level.error.rank)
where
  /-- A name with a distance that is left out if it is zero. -/
  name (s : String) (d : Int) : String :=
    if d = 0 then s else if 0 < d then s!"{s}+{d}" else s!"{s}{d}"

/-- The level that a person names. -/
def Level.ofText? (s : String) : Option Level :=
  let k := Text.keyword s
  if k = "" ∨ k = "info" then some .info
  else if k = "debug" then some .debug
  else if k = "warn" ∨ k = "warning" then some .warn
  else if k = "error" then some .error
  else none

/-- The wording of an unknown level. -/
def Level.unknownMessage (t : Text.RawText) : String :=
  "logging: unknown level " ++ Text.quoted t

/-! ### Records -/

/-- A value in a record. -/
inductive Value where
  | text (t : Text.RawText)
  | number (i : Int)
  deriving DecidableEq, Repr

/-- A named value. -/
abbrev Attribute := String × Value

/-- Something that happened. -/
structure Record where
  level : Level
  message : String
  attributes : List Attribute
  deriving DecidableEq, Repr

/-- Names and values in turn. A name without a value is a value without a name. -/
def attributesOf : List String → List Attribute
  | [] => []
  | [v] => [("!BADKEY", .text v)]
  | k :: v :: rest => (k, .text v) :: attributesOf rest

/-! ### Lines -/

/-- A character that would be misread in a line as it is; so would a stray byte. -/
def isMisread : Text.Glyph → Bool
  | .stray _ => true
  | .char c =>
    if c.toNat < 128 then c == ' ' || c == '=' || c == '"' || c.toNat < 0x20
    else c == Text.RawText.replacement || Text.isSpace c || !Text.isPrintable c

/-- A text that would be misread in a line as it is. -/
def needsQuotes (t : Text.RawText) : Bool :=
  t.isEmpty || t.glyphs.any isMisread

/-- A text as part of a line. -/
def shownText (t : Text.RawText) : String :=
  if needsQuotes t then Text.quoted t else t.shown

/-- The name of a value in a group, as part of a line. It is quoted if one of the two has to be. -/
def shownName (group name : String) : String :=
  if group.isEmpty then shownText name
  else
    let start := group ++ "."
    if needsQuotes start || needsQuotes name then Text.quoted (start ++ name) else start ++ name

/-- Who writes lines, and how. -/
structure Logger where
  /-- The least level that is written. -/
  level : Level
  json : Bool
  /-- The file that gets JSON lines as well. -/
  file : Option Text.RawText := none
  /-- Attributes of every record. -/
  fixed : List Attribute := []
  /-- The name that the attributes of a record are gathered under, empty for none. -/
  group : String := ""
  deriving DecidableEq, Repr

namespace Logger

/-- The logger writes a record. -/
def accepts (l : Logger) (r : Record) : Bool :=
  l.level.rank ≤ r.level.rank

/-- A named value in a plain line. -/
def attributeText (group : String) (a : Attribute) : String :=
  " " ++ shownName group a.1 ++ "=" ++
    match a.2 with
    | .text t => shownText t
    | .number i => toString i

/-- A record as a plain line. -/
def plainLine (l : Logger) (r : Record) : String :=
  "level=" ++ r.level.text ++ " msg=" ++ shownText r.message ++
    String.join (l.fixed.map (attributeText "")) ++
    String.join (r.attributes.map (attributeText l.group)) ++ "\n"

/-- A named value in a JSON line. -/
def attributeJson (a : Attribute) : String × Text.Json :=
  (a.1, match a.2 with | .text t => .string t | .number i => .int i)

/-- A record as a JSON line. A group without attributes is left out. -/
def jsonLine (l : Logger) (r : Record) : String :=
  let attributes := r.attributes.map attributeJson
  let gathered :=
    if l.group.isEmpty then attributes
    else if attributes.isEmpty then [] else [(l.group, .object attributes)]
  Text.Json.compact Text.Json.forLogs (.object
    ([("level", .string r.level.text), ("msg", .string r.message)] ++
      l.fixed.map attributeJson ++ gathered)) ++ "\n"

/-- How a line of a log file starts: with the time. The lines here stand for those of any time, so the time is
    always the same one. -/
def timeStamp : String :=
  "\x7b\"time\":\"2000-01-01T00:00:00.000000001Z\","

/-- A record as a line of a log file, the way a reader of the file finds it. -/
def stampedLine (l : Logger) (r : Record) : String :=
  timeStamp ++ String.ofList ((l.jsonLine r).toList.drop 1)

/-- A record as a line of the logger's kind. -/
def line (l : Logger) (r : Record) : String :=
  if l.json then l.jsonLine r else l.plainLine r

end Logger

end CallAtlas.Log
