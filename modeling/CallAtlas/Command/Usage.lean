import CallAtlas.Command.Flag

/-!
# Usage

The help texts. Each tells what a command is for, how it is written, and which flags it knows, apart
from those that every command knows.
-/

namespace CallAtlas.Command

/-! ### Flags -/

/-- What a flag takes, as help texts say it. -/
def Flag.valueName (f : Flag) : String :=
  match f.default with
  | .text _ => " string"
  | .number _ => " int"
  | .truth _ => ""
  | .list _ => " strings"

/-- How a flag is written. -/
def Flag.form (f : Flag) : String :=
  f.letter.elim "      --" (s!"  -{·}, --") ++ f.name ++ f.valueName

/-- The value that a flag has by itself, where there is one. -/
def Flag.defaultText (f : Flag) : String :=
  match f.default with
  | .text "" => ""
  | .text s => " (default " ++ Text.quoted s ++ ")"
  | .number 0 => ""
  | .number n => s!" (default {n})"
  | _ => ""

/-- Flags by name, one a line, with their purposes below each other. -/
def flagLines (fs : List Flag) : List String :=
  let width := fs.foldl (fun w f => max w f.form.length) 0
  (fs.mergeSort fun a b => decide (a.name ≤ b.name)).map fun f =>
    Text.padRight width f.form ++ "   " ++ f.purpose ++ f.defaultText

/-! ### Commands -/

namespace Action

/-- What a command does, in a few words. -/
def summary : Action → String
  | .plain => "Extract method call graphs from compiled JVM artifacts"
  | .calls => "Print caller -> callees lines"
  | .stats => "Print call graph statistics"
  | .unused => "List declared methods that nothing in the artifact calls"
  | .cfg => "Write per-method control-flow graphs as DOT files"
  | .graph => "Write call, class and reachability graphs with an HTML index"
  | .signal => "List methods that call network, crypto, process or reflection APIs"
  | .version => "Print version information"
  | .help => "Help about any command"
  | .completion => "Generate the autocompletion script for the specified shell"

/-- What a command does. -/
def description : Action → List String
  | .plain =>
    ["jarcalls reads the class files of a jar, a directory or an object store",
     "prefix, builds a fact model of declarations and invocations, and prints",
     "the caller -> callees adjacency of every method that calls something.",
     "",
     "With a single argument and no subcommand it behaves like \"jarcalls calls\"."]
  | .help =>
    ["Help provides help for any command in the application.",
     "Simply type jarcalls help [path to command] for full details."]
  | .completion =>
    ["Generate the autocompletion script for jarcalls for the specified shell.",
     "See each sub-command's help for details on how to use the generated script."]
  | c => [c.summary]

/-- How a command is called. -/
def path : Action → String
  | .plain => "jarcalls"
  | c => "jarcalls " ++ c.name

/-- What follows the name of a command, if it can be run by itself. -/
def operands? : Action → Option String
  | .plain => some " [jar|dir|s3://bucket/prefix]"
  | .version => some ""
  | .help => some " [command]"
  | .completion => none
  | _ => some " <ref>"

/-- The commands below a command and what they do. -/
def subcommands : Action → List (String × String)
  | .plain => named.map fun c => (c.name, c.summary)
  | .completion =>
    ["bash", "fish", "powershell", "zsh"].map fun shell =>
      (shell, "Generate the autocompletion script for " ++ shell)
  | _ => []

/-- Lines under a heading, nothing if there are none. -/
def helpSection (heading : String) (lines : List String) : List String :=
  if lines.isEmpty then [] else "" :: heading :: lines

/-- The ways to write a command. -/
def usageLines (c : Action) : List String :=
  (c.operands?.map fun o => "  " ++ c.path ++ o ++ " [flags]").toList
    ++ if c.subcommands.isEmpty then [] else ["  " ++ c.path ++ " [command]"]

/-- The help text of a command. -/
def helpText (c : Action) : String :=
  let isWhole := c == .plain
  let lines := c.description ++ helpSection "Usage:" c.usageLines
    ++ helpSection "Available Commands:"
      (c.subcommands.map fun (name, summary) => "  " ++ Text.padRight 11 name ++ " " ++ summary)
    ++ helpSection "Flags:"
      (flagLines (c.helpFlag :: c.ownFlags ++ if isWhole then sharedFlags else []))
    ++ helpSection "Global Flags:" (if isWhole then [] else flagLines sharedFlags)
    ++ if c.subcommands.isEmpty then [] else
      ["", s!"Use \"{c.path} [command] --help\" for more information about a command."]
  "\n".intercalate lines ++ "\n"

end Action

end CallAtlas.Command
