import CallAtlas.Command.Execute

/-!
# The program

The outer layer: it takes a snapshot of the files and variables that a command line can refer to,
does what the command line asks for, and carries the outcome over to the disk and the terminal.
-/

namespace CallAtlas.Main

/-- How deep directories are looked into. -/
def maxDepth : Nat := 64

/-- A place on the disk. -/
def onDisk (directory name : String) : IO.FS.DirEntry :=
  ⟨if directory.isEmpty then "." else directory, name⟩

/-- Adds what stands at a place on the disk to a tree, as deep as asked. -/
def snapshot (t : Files.Tree) (trail : Files.Trail) (directory name : String) :
    (depth : Nat) → IO Files.Tree
  | 0 => return t
  | depth + 1 => do
    let place := (onDisk directory name).path
    if ← place.isDir then
      let mut t := t.put trail .directory
      if depth = 0 then return t
      for entry in ← place.readDir do
        t ← snapshot t (trail ++ [.ofString entry.fileName]) place.toString entry.fileName depth
      return t
    else if ← place.pathExists then
      return t.put trail (.file (← IO.FS.readBinFile place).toList)
    else return t

/-- Adds what a path leads to, and the directories on the way. -/
def snapshotPath (t : Files.Tree) (path : String) : IO Files.Tree := do
  let rooted := Files.isRooted path
  let names := Files.cleanNames rooted [] (Files.pathNames path)
  let start : Files.Trail := if rooted then [Files.root] else []
  let mut t := if rooted then t.put [Files.root] .directory else t
  for k in List.range names.length do
    let above := (Text.RawText.joinWith "/" (start ++ names.take k)).shown
    let depth := if k + 1 = names.length then maxDepth else 1
    t ← snapshot t (start ++ names.take (k + 1)) above (names.getD k "").shown depth
  if names.isEmpty ∧ ¬ rooted then
    for entry in ← (onDisk "" ".").path.readDir do
      t ← snapshot t [entry.fileName] "" entry.fileName maxDepth
  return t

/-- The paths that a command line can refer to: its words, and what flags are set to in them. -/
def pathsOf (words : List String) : List String :=
  (words ++ words.map fun w => String.ofList ((Text.fromFirst '=' w.toList).drop 1)).filter (· ≠ "")

/-- The variables that are set. -/
def readEnvironment : IO (List (String × String)) :=
  Settings.variableNames.filterMapM fun name => do
    return (← IO.getEnv name).map fun value => (name, value)

/-- What a command runs in. Object stores and pictures are out of its reach. -/
def world (environment : List (String × String)) : Command.World :=
  { version := "0.1.0-dev"
    environment
    store :=
      { list := fun _ _ => .error "object stores cannot be reached", fetch := fun _ _ _ => none }
    renderer := .broken "dot" "exec: \"dot\": executable file not found in $PATH" }

/-- Carries the changes of a tree over to the disk. -/
def writeBack (before after : Files.Tree) : IO Unit := do
  for path in after.directoriesSince before do
    IO.FS.createDirAll path.shown
  for (path, content) in after.changedSince before do
    IO.FS.writeBinFile path.shown content.toByteArray

end CallAtlas.Main

open CallAtlas in
def main (words : List String) : IO UInt32 := do
  let environment ← Main.readEnvironment
  let logFile := (environment.lookup "JARCALLS_LOG_FILE").toList
  let files ← (Main.pathsOf words ++ logFile ++ [Command.defaultVariableFile]).foldlM
    Main.snapshotPath .empty
  let (code, session) :=
    Command.executeAndReport (Main.world environment) words { files }
  Main.writeBack files session.files
  IO.print session.output
  (← IO.getStderr).write session.noteText.bytes.toByteArray
  return code.toUInt32
