import CallAtlas.Report.Stats
import CallAtlas.Settings
import CallAtlas.Text.Fields
import CallAtlas.Text.Literal

/-!
# Flags

A flag has a name and a value, and the value it has unless one is given tells what values it takes.
-/

namespace CallAtlas.Command

/-- The value of a flag. -/
inductive FlagValue where
  | text (s : String)
  | number (i : Int)
  | truth (b : Bool)
  | list (ss : List String)
  deriving DecidableEq, Repr

/-- A flag that a command knows. -/
structure Flag where
  name : String
  /-- The value unless one is given. -/
  default : FlagValue
  /-- What the flag is for. -/
  purpose : String
  /-- A letter that stands for the flag. -/
  letter : Option Char := none
  deriving DecidableEq, Repr

namespace Flag

/-- A flag that no letter stands for. -/
def long (name : String) (default : FlagValue) (purpose : String) : Flag :=
  { name, default, purpose }

/-- How messages name a flag. -/
def title (f : Flag) : String :=
  f.letter.elim "" (s!"-{·}, ") ++ "--" ++ f.name

/-- Whether a flag stands for itself, without a value. -/
def isSwitch (f : Flag) : Bool :=
  f.default matches .truth _

/-- Why a text is not a value of a flag. -/
inductive ValueProblem where
  | badNumber (problem : Text.Literal.Problem)
  | badTruth
  | badList (problem : Text.Fields.Problem)
  deriving DecidableEq, Repr

/-- The wording for a text that is not a value. -/
def ValueProblem.message (given : String) : ValueProblem → String
  | .badNumber p => s!"strconv.ParseInt: parsing {Text.quoted given}: {p.message}"
  | .badTruth => s!"strconv.ParseBool: parsing {Text.quoted given}: invalid syntax"
  | .badList p => p.message

/-- The value of a flag that is set by a text, over the one given before, if any. Only a list keeps what was
    given before. -/
def setTo (f : Flag) (before : Option FlagValue) (given : String) : Except ValueProblem FlagValue :=
  match f.default with
  | .text _ => .ok (.text given)
  | .number _ =>
    match Text.Literal.parse given.toList with
    | .ok n => .ok (.number n)
    | .error p => .error (.badNumber p)
  | .truth _ =>
    match Settings.parseBool? given with
    | some b => .ok (.truth b)
    | none => .error .badTruth
  | .list _ =>
    let earlier := match before with
      | some (.list ss) => ss
      | _ => []
    if given = "" then .ok (.list earlier) else
    match Text.Fields.parse given with
    | .ok ss => .ok (.list (earlier ++ ss))
    | .error p => .error (.badList p)

end Flag

/-! ### Commands and their flags -/

/-- What can be asked for. -/
inductive Action where
  /-- No command by name: the calls of an argument, or help without one. -/
  | plain
  | calls | stats | unused | cfg | graph | signal | version
  /-- Help about a command. -/
  | help
  /-- Scripts for shells; by itself it only tells about them. -/
  | completion
  deriving DecidableEq, Repr

namespace Action

/-- The commands that have a name, ascending. -/
def named : List Action :=
  [.calls, .cfg, .completion, .graph, .help, .signal, .stats, .unused, .version]

/-- The name of a command; for none it is that of the program. -/
def name : Action → String
  | .plain => "jarcalls"
  | .calls => "calls"
  | .stats => "stats"
  | .unused => "unused"
  | .cfg => "cfg"
  | .graph => "graph"
  | .signal => "signal"
  | .version => "version"
  | .help => "help"
  | .completion => "completion"

/-- The command of a name. -/
def ofName? (name : String) : Option Action :=
  named.find? fun c => c.name == name

/-- The flags that every command knows. -/
def sharedFlags : List Flag :=
  [.long "format" (.text "text") "Output format: text|json|jsonl|dot",
   .long "naming" (.text "short") "Method identity: short|signature|uri",
   .long "dispatch" (.text "declared") "Virtual call targets: declared|overrides",
   .long "workers" (.number 0) "Class decoding workers (0 = one per CPU)",
   .long "exclude" (.list []) "Gitignore-style patterns of entries to skip",
   .long "exclude-file" (.text "") "File of additional exclude patterns",
   .long "nested" (.truth false) "Descend into BOOT-INF/lib and WEB-INF/lib jars",
   .long "versioned" (.truth false) "Include META-INF/versions/N entries",
   .long "max-class-bytes" (.number 0) "Skip class files larger than this (0 = no cap)",
   .long "strict" (.truth false) "Fail on the first class that does not decode",
   .long "warnings" (.truth false) "Print skipped classes and decode warnings after the report",
   .long "log-level" (.text "warn") "Log level: debug|info|warn|error",
   .long "log-json" (.truth false) "Write logs as JSON lines",
   .long "log-file" (.text "") "Also append JSON logs to this file",
   .long "env-file" (.text "") "Environment file to load (default .env if present)"]

/-- The flags that only one command knows. -/
def ownFlags : Action → List Flag
  | .calls => [.long "title" (.text "") "Graph label for --format dot (default: artifact name)"]
  | .stats =>
    [.long "top" (.number Report.Stats.defaultTop) "Entries per ranking",
     .long "json" (.truth false) "Print statistics as JSON"]
  | .cfg =>
    [.long "out" (.text "") "Output directory (required)",
     .long "method" (.text "") "Only methods whose name contains this string",
     .long "asm" (.truth false) "Label blocks with instructions instead of calls",
     .long "min-blocks" (.number 1) "Skip methods with fewer basic blocks",
     .long "svg" (.truth false) "Render SVGs with Graphviz dot"]
  | .graph =>
    [.long "out" (.text "") "Output directory (required)",
     .long "title" (.text "") "Graph and page title (default: artifact name)",
     .long "entry" (.list []) "Entry methods for reachability (default: methods nothing calls)",
     .long "max-nodes" (.number 0) "Max method nodes in the call graph (0 = all)",
     .long "svg" (.truth false) "Render SVGs with Graphviz dot",
     .long "facts" (.truth false) "Also dump the fact model to facts.json"]
  | .signal =>
    [.long "hops" (.number 1) "Context hops around each signal method",
     .long "json" (.truth false) "Print the signal graph as JSON",
     .long "out" (.text "") "Also write signal.json and signal.dot here",
     .long "title" (.text "") "Graph title (default: artifact name)"]
  | .plain => []
  | .unused => []
  | .version => []
  | .help => []
  | .completion => []

/-- The switch that asks for help. -/
def helpFlag (c : Action) : Flag :=
  { name := "help", default := .truth false, purpose := "help for " ++ c.name, letter := some 'h' }

/-- All flags of a command. -/
def flags (c : Action) : List Flag :=
  c.helpFlag :: sharedFlags ++ c.ownFlags

/-- The flags that a command cannot do without. -/
def requiredFlags : Action → List String
  | .cfg => ["out"]
  | .graph => ["out"]
  | _ => []

end Action

end CallAtlas.Command
