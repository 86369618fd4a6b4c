import CallAtlas.CallGraph.Edge
import CallAtlas.Log
import CallAtlas.Program.Build
import CallAtlas.Report.Write
import CallAtlas.Run.Session
import CallAtlas.Run.Stage
import CallAtlas.Source.Resolve

/-!
# Runs

A runner takes one source through all stages: its class files are loaded, the facts are built, calls
are projected from them and gathered by caller, and on demand a report is written. A runner serves
once. It knows its stage, all it passed before, and what there is to log.
-/

namespace CallAtlas.Run

open CallGraph

/-- What is to be done in a run. -/
structure Options where
  source : Source.Options := {}
  build : Program.BuildOptions := {}
  naming : Naming := .short
  /-- The number of the format of the report. -/
  format : Int := 0
  title : String := ""
  /-- The code of methods is part of the result. -/
  keepBodies : Bool := false

/-- What a run has to work with. -/
structure Inputs where
  files : Files.Tree
  store : Source.ObjectStore
  /-- The task was called off before it began. -/
  cancelled : Bool := false
  /-- The first stage that finds the task called off, if this happens while the task goes on. -/
  cancelledFrom : Option Stage := none
  /-- Takes down the records of the run while it goes on. Its file may be one of those that are read. -/
  logger : Option Log.Logger := none

/-- The files once some records have been taken down. -/
def Inputs.filesAfter (i : Inputs) (records : List Log.Record) : Files.Tree :=
  match i.logger with
  | some l =>
    (records.filter l.accepts).foldl (fun files r => appendLine l (l.stampedLine r) files) i.files
  | none => i.files

/-- The task is called off by the time a stage looks. -/
def Inputs.cancelledBy (i : Inputs) (s : Stage) : Bool :=
  i.cancelled || i.cancelledFrom.any fun first => Stage.all.idxOf first ≤ Stage.all.idxOf s

/-- The result of a run. -/
structure Analysis where
  source : String
  store : Facts.Store
  report : Program.Report
  edges : List Edge
  adjacency : Adjacency
  bodies : List Program.Body

/-- The state of a runner. -/
structure Runner where
  stage : Stage
  /-- The stages entered so far, the last one first. -/
  passed : List Stage
  /-- What there is to log. -/
  records : List Log.Record
  deriving DecidableEq, Repr

/-- A runner that was not used yet. -/
def Runner.fresh : Runner :=
  ⟨.idle, [], []⟩

/-- Work on a runner, operation by operation. Others may use the runner between any two of them. -/
inductive Step (α : Type) where
  /-- Nothing is left to be done. -/
  | done (result : Except Failure α)
  /-- Looks at the runner and changes it, both at once. -/
  | update (change : Runner → Runner) (next : Runner → Step α)
  /-- Hands a text to the one who waits for the report. -/
  | write (text : String) (next : Step α)

namespace Step

variable {α β : Type}

def bind : Step α → (α → Step β) → Step β
  | done (.ok a), f => f a
  | done (.error e), _ => done (.error e)
  | update change next, f => update change fun r => (next r).bind f
  | write text next, f => write text (next.bind f)

instance : Monad Step where
  pure a := done (.ok a)
  bind := bind

/-- Does all operations in a row. -/
def run : Step α → Runner → Except Failure α × Runner
  | done result, r => (result, r)
  | update change next, r => (next r).run (change r)
  | write _ next, r => next.run r

/-- Only changes the runner. -/
def modify (change : Runner → Runner) : Step Unit :=
  update change fun _ => pure ()

end Step

/-- Something to log. -/
def record (level : Log.Level) (message : String) (attributes : List Log.Attribute) : Step Unit :=
  .modify fun r => { r with records := r.records ++ [⟨level, message, attributes⟩] }

/-- The runner in a stage. -/
def Runner.at (s : Stage) (r : Runner) : Runner :=
  { r with stage := s, passed := s :: r.passed }

/-- Enters a stage and tells so. -/
def enter (s : Stage) : Step Unit := do
  .modify (.at s)
  record .debug "pipeline.stage" [("stage", .text s.text)]

/-- The failure of a runner that is used again. -/
def alreadyRun : Failure :=
  { kind := .alreadyRun, message := "pipeline: runner already used" }

/-- Starts a runner that was not used yet. Of several who try only the first can. -/
def start : Step Unit :=
  .update (fun r => if r.stage = .idle then r.at .loading else r) fun r =>
    if r.stage = .idle then pure () else .done (.error alreadyRun)

/-- A failure in a stage as it is reported. -/
def stageFailure (s : Stage) (f : Failure) : Failure :=
  { f with message := "pipeline: " ++ s.text ++ ": " ++ f.message, stage := some s.text }

/-- Goes on with what a stage yields, or ends the run. -/
def attempt {α : Type} (s : Stage) (x : Except Failure α) : Step α :=
  match x with
  | .ok a => return a
  | .error f => do
    enter .failed
    record .error "pipeline.failed" [("stage", .text s.text), ("err", .text f.message)]
    .done (.error (stageFailure s f))

/-- What a build has to tell. -/
def buildRecords (r : Program.Report) : List Log.Record :=
  (r.skipped.map fun s =>
    ⟨.warn, "skipped class", [("path", .text s.1), ("err", .text s.2.message)]⟩) ++
  [⟨.info, "built fact model",
    [("classes", .number r.classes), ("methods", .number r.methods), ("sites", .number r.callSites),
     ("edges", .number r.edges), ("unresolved", .number r.unresolved),
     ("skipped", .number r.skipped.length)]⟩]

/-- Loads class files. -/
def load (i : Inputs) (o : Options) (reference : String) :
    Step (String × List Program.ClassEntry) := do
  enter .loading
  let files ← .update id fun r => pure (i.filesAfter r.records)
  let opened ← attempt .loading
    ((Source.resolve files i.store o.source reference).mapError Source.Problem.failure)
  let classes ← attempt .loading
    ((opened.classes files (i.cancelledBy .loading) o.source).mapError Source.Problem.failure)
  let name := opened.source.name
  record .info "pipeline.loaded" [("source", .text name), ("classes", .number classes.length)]
  return (name, classes)

/-- Builds facts. -/
def build (i : Inputs) (o : Options) (classes : List Program.ClassEntry) : Step Program.Built := do
  enter .building
  let built ← attempt .building (Program.buildUnless (i.cancelledBy .building) o.build classes)
  .modify fun r => { r with records := r.records ++ buildRecords built.report }
  return built

/-- The stages up to the gathering of calls. -/
def stages (i : Inputs) (o : Options) (reference : String) : Step Analysis := do
  record .info "pipeline.start" [("ref", .text reference)]
  let (source, classes) ← load i o reference
  let built ← build i o classes
  enter .projecting
  let edges ← attempt .projecting (project built.store)
  enter .aggregating
  let adjacency := Adjacency.ofEdges o.naming edges
  record .info "pipeline.done"
    [("callers", .number adjacency.callers.length), ("edges", .number adjacency.edgeCount),
     ("elapsed", .number 0)]
  return { source, store := built.store, report := built.report, edges, adjacency
           bodies := if o.keepBodies then built.bodies else [] }

/-- Analyses a source. -/
def analyze (i : Inputs) (o : Options) (reference : String) : Step Analysis := do
  start
  let a ← stages i o reference
  enter .done
  return a

/-- Hands a report over, all of it at once, to one who may refuse it for a reason. An empty report does not get
    there. -/
def handOver (refusal : Option String) (text : String) : Step Unit :=
  if text = "" then pure ()
  else .write text (attempt .reporting (refusal.elim (.ok ()) fun reason => .error (.ofText reason)))

/-- The text of the report. -/
def Analysis.text (o : Options) (a : Analysis) : Except Failure String :=
  Report.write none o.format ⟨a.adjacency, a.edges, o.naming, o.title⟩

/-- Writes the report of an analysis and hands it over. -/
def report (refusal : Option String) (o : Options) (a : Analysis) : Step String := do
  enter .reporting
  let text ← attempt .reporting (a.text o)
  handOver refusal text
  return text

/-- Analyses a source and hands the report over once every stage has succeeded. -/
def run (refusal : Option String) (i : Inputs) (o : Options) (reference : String) :
    Step (Analysis × String) := do
  start
  let a ← stages i o reference
  let text ← report refusal o a
  enter .done
  return (a, text)

end CallAtlas.Run
