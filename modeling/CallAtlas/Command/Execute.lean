import CallAtlas.CallGraph.Survey
import CallAtlas.Command.Configure
import CallAtlas.Command.Usage
import CallAtlas.Drawing.Calls
import CallAtlas.Drawing.Classes
import CallAtlas.Drawing.Methods
import CallAtlas.Drawing.Page
import CallAtlas.Drawing.Reach
import CallAtlas.Drawing.Signals
import CallAtlas.Report.Unused
import CallAtlas.Run.Save
import CallAtlas.Signal.Graph

/-!
# Commands

What each command does. All of them but the one for the version are configured first, then analyse the
source that their argument names, and then print or save what they are asked for.
-/

namespace CallAtlas.Command

open Text (RawText)

open Run (print note log)

/-! ### Analyses -/

/-- Takes a run step by step through a runner of its own, and logs what the runner tells. -/
def perform {α : Type} (c : Configuration) (s : Run.Step α) : Run.Task α := do
  let (result, runner) := s.run .fresh
  for r in runner.records do
    log c.logger r
  result

/-- What a run works with. -/
def inputs (w : World) (c : Configuration) : Run.Task Run.Inputs := do
  return { files := (← get).files, store := w.store, logger := some c.logger }

/-- Tells about what went wrong in a build: one by one, or only that there was something. -/
def tellDiagnostics (c : Configuration) (r : Program.Report) : Run.Task Unit := do
  let ds := r.diagnostics
  if ds.isEmpty then return
  if c.warnings then
    for d in ds do
      note ("warning: " ++ d.text ++ "\n")
  else
    log c.logger ⟨.warn, "build.diagnostics",
      [("count", .number ds.length), ("skipped", .number r.skipped.length)]⟩

/-- Analyses a source. -/
def analyze (w : World) (c : Configuration) (reference : String) : Run.Task Run.Analysis := do
  let a ← perform c (Run.analyze (← inputs w c) c.options reference)
  tellDiagnostics c a.report
  return a

/-! ### Titles and directories -/

/-- The title for a source: the last part of its name. -/
def sourceTitle (reference : String) : String :=
  let trimmed := Files.dropSlashes reference
  if trimmed.isEmpty then "callgraph" else (Files.baseName trimmed).shown

/-- The title that a flag gives, or another one. -/
def titleOr (i : Invocation) (other : String) : String :=
  if i.text "title" = "" then other else i.text "title"

/-- The directory for results, which has to be named. -/
def resultDirectory (i : Invocation) : Run.Task String := do
  if i.text "out" = "" then throw (.ofText "--out is required")
  return i.text "out"

/-! ### Commands that print -/

/-- Prints who calls whom. -/
def calls (w : World) (i : Invocation) (reference : String) : Run.Task Unit := do
  let c ← configure w i
  let options := { c.options with title := titleOr i (sourceTitle reference) }
  let (a, text) ← perform c (Run.run none (← inputs w c) options reference)
  print text
  tellDiagnostics c a.report

/-- Prints figures. -/
def stats (w : World) (i : Invocation) (reference : String) : Run.Task Unit := do
  let c ← configure w i
  let a ← analyze w c reference
  let s := Report.Stats.compute a.adjacency (some a.report) (i.number "top")
  print (if i.isOn "json" then s.json.document else s.text)

/-- Prints the methods that nothing calls. -/
def unused (w : World) (i : Invocation) (reference : String) : Run.Task Unit := do
  let c ← configure w i
  let a ← analyze w c reference
  print (Report.listText (← Report.unreferenced a.store c.options.naming))

/-! ### Signals -/

/-- The lines for a method that makes sensitive calls. -/
def signalLines (f : Signal.Func) : String :=
  Text.padRight 6 (f.severity.elim "" Signal.Severity.text) ++ "  " ++ f.name
    ++ " [" ++ ",".intercalate f.categories ++ "]\n"
    ++ String.join (f.apis.map fun api => "        -> " ++ api ++ "\n")

/-- The methods of a graph that make sensitive calls. -/
def signalText (g : Signal.Graph) : String :=
  String.join ((g.funcs.filter (·.role = .signal)).map signalLines)

/-- Prints the methods that make sensitive calls. -/
def signal (w : World) (i : Invocation) (reference : String) : Run.Task Unit := do
  let c ← configure w i
  let a ← analyze w c reference
  let g := Signal.build Signal.standardRules c.options.naming (i.number "hops") a.edges
    a.store.declarations
  log c.logger ⟨.info, "signal.built",
    [("signal", .number g.stats.signalFuncs), ("context", .number g.stats.contextFuncs)]⟩
  let directory := i.text "out"
  if directory ≠ "" then
    Run.makeResultDirectory directory
    Run.saveDocument (Files.joinPath directory "signal.json") g.json
    let title := titleOr i (sourceTitle reference ++ " (signal)")
    let _ ← Run.saveDrawing directory "signal" (Drawing.signalDrawing .standard title g).text
  print (if i.isOn "json" then g.json.document else signalText g)

/-! ### Drawings of methods -/

/-- Saves the drawing of a method. -/
def saveMethod (w : World) (c : Configuration) (directory : RawText) (svg : Bool)
    (m : Drawing.MethodFile) : Run.Task Unit := do
  let path ← Run.saveDrawing (Files.joinPath directory "cfg") m.file m.text
  if svg then
    if let .error reason := w.renderer.picture path then
      log c.logger ⟨.warn, "cfg.svg", [("method", .text m.name), ("err", .text reason)]⟩

/-- Saves the control flow of every method that is asked for. -/
def cfg (w : World) (i : Invocation) (reference : String) : Run.Task Unit := do
  let c ← configure w i
  let directory ← resultDirectory i
  let c := { c with options := { c.options with keepBodies := true } }
  let a ← analyze w c reference
  Run.makeResultDirectory directory
  let choice : Drawing.MethodChoice :=
    { naming := c.options.naming, filter := i.text "method", minBlocks := i.number "min-blocks"
      instructions := i.isOn "asm" }
  let methods := choice.files a.bodies
  for m in methods do
    saveMethod w c directory (i.isOn "svg") m
  log c.logger ⟨.info, "cfg.written",
    [("methods", .number methods.length), ("dir", .text directory)]⟩
  note (s!"wrote {methods.length} CFGs to " ++ directory ++ "/cfg\n")

/-! ### Drawings of the whole -/

/-- A drawing of a whole source. -/
structure Page where
  name : String
  label : String
  text : String

/-- The drawings of a source. -/
def pages (title : String) (maxNodes : Int) (s : CallGraph.Survey)
    (reached entries : List String) : List Page :=
  [⟨"callgraph", "Call graph", (Drawing.callDrawing .standard title maxNodes s.funcs s.calls).text⟩,
   ⟨"classgraph", "Class graph",
    (Drawing.classDrawing .standard (title ++ " (class level)") maxNodes s.funcs s.calls).text⟩,
   ⟨"reachable", "Reachable",
    (Drawing.reachDrawing .standard (title ++ " (reachable)") s.funcs s.calls reached entries).text⟩]

/-- Saves a drawing, and a picture of it if asked; the answer is where a page finds it. -/
def savePage (w : World) (c : Configuration) (directory : RawText) (svg : Bool) (s : Page) :
    Run.Task Drawing.Link := do
  let path ← Run.saveDrawing directory s.name s.text
  log c.logger ⟨.info, "graph.written",
    [("path", .text path), ("bytes", .number s.text.utf8ByteSize)]⟩
  let plain : Drawing.Link := ⟨(Files.baseName path).shown, s.label⟩
  if !svg then return plain
  match w.renderer.picture path with
  | .ok picture => return ⟨(Files.baseName picture).shown, s.label⟩
  | .error reason =>
    log c.logger ⟨.warn, "graph.svg", [("graph", .text s.name), ("err", .text reason)]⟩
    return plain

/-- Saves the facts of an analysis if asked; the answer is where a page finds them. -/
def saveFactsIf (wanted : Bool) (directory : RawText) (a : Run.Analysis) :
    Run.Task (List Drawing.Link) := do
  if !wanted then return []
  let _ ← Run.saveFacts directory a.source a.store
  return [⟨"facts.json", "Fact model"⟩]

/-- Saves the drawings of a source with a page that leads to them. -/
def graph (w : World) (i : Invocation) (reference : String) : Run.Task Unit := do
  let c ← configure w i
  let directory ← resultDirectory i
  let c := { c with options := { c.options with keepBodies := true } }
  let a ← analyze w c reference
  Run.makeResultDirectory directory
  let s := CallGraph.Survey.collect a.store a.bodies c.options.naming
  let entries :=
    if (i.list "entry").isEmpty then CallGraph.entryPoints s.funcs s.calls
    else Text.sort (i.list "entry")
  let reached := CallGraph.reachable entries s.calls
  log c.logger ⟨.info, "graph.reachability",
    [("entries", .number entries.length), ("reachable", .number reached.length),
     ("methods", .number s.funcs.length)]⟩
  let title := titleOr i (sourceTitle reference)
  let drawn ← (pages title (i.number "max-nodes") s reached entries).mapM
    (savePage w c directory (i.isOn "svg"))
  let _ ← Run.saveBuild directory a.report
  let facts ← saveFactsIf (i.isOn "facts") directory a
  let page := Drawing.indexPage .standard
    { title, entries, reachable := reached.length, methodDrawings := 0
      stats := Report.Stats.compute a.adjacency (some a.report) Report.Stats.defaultTop
      provenance := (CallGraph.provenanceCounts s.calls).map fun (p, n) => (p, (n : Int))
      graphs := drawn ++ facts ++ [⟨"build.json", "Build report"⟩] }
  let path := Files.joinPath directory "index.html"
  Run.change ("create " ++ path) (·.writeFile path (Text.toBytes page))
  note ("wrote " ++ path ++ "\n")

/-! ### The whole program -/

/-- Does what an invocation asks for. -/
def invoke (w : World) (i : Invocation) : Run.Task Unit :=
  match i.helpFor? with
  | some c => print c.helpText
  | none =>
    let reference := i.words.arguments.headD ""
    match i.command with
    | .stats => stats w i reference
    | .unused => unused w i reference
    | .cfg => cfg w i reference
    | .graph => graph w i reference
    | .signal => signal w i reference
    | .version => print ("jarcalls " ++ w.version ++ "\n")
    | _ => calls w i reference

/-- Does what a command line asks for. -/
def execute (w : World) (words : List String) : Run.Task Unit := do
  invoke w (← (Invocation.ofWords words).mapError LineProblem.failure)

/-- Does what a command line asks for; a failure is reported on the side. The answer is the exit code. -/
def executeAndReport (w : World) (words : List String) (s : Run.Session) : Nat × Run.Session :=
  match (execute w words).run s with
  | (.ok _, s) => (0, s)
  | (.error f, s) => (1, s.addNote ("error: " ++ f.message ++ "\n"))

end CallAtlas.Command
