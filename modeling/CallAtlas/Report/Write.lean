import CallAtlas.CallGraph.Edge
import CallAtlas.Drawing.Network
import CallAtlas.Report.Format
import CallAtlas.Text.Json

/-!
# Writing calls down

The text of a report in each format, and what becomes of it when nobody takes it.
-/

namespace CallAtlas.Report

open CallGraph

/-- What a report is written from. -/
structure Input where
  adjacency : Adjacency
  edges : List Edge
  naming : Naming
  /-- The title of a drawing. -/
  title : String

/-- One line for every caller. -/
def adjacencyText (a : Adjacency) : String :=
  String.join (a.callers.map fun c =>
    c.name ++ " -> [" ++ ", ".intercalate c.callees ++ "]\n")

/-- The callees by caller as one document. -/
def adjacencyJson (a : Adjacency) : Text.Json :=
  .object (a.callers.map fun c => (c.name, .strings c.callees))

/-- One call as a document. -/
def edgeJson (naming : Naming) (e : Edge) : Text.Json :=
  .object ([("caller", .string (naming.name e.caller)), ("callee", .string (naming.name e.callee)),
    ("site", .string e.site.text), ("offset", .int e.site.offset)]
    ++ Text.Json.memberIf (e.site.line ≠ 0) "line" (.int e.site.line))

/-- The title of a drawing that is given none. -/
def defaultTitle : String := "callgraph"

/-- The text of a report. -/
def render (f : Format) (i : Input) : String :=
  match f with
  | .text => adjacencyText i.adjacency
  | .json => (adjacencyJson i.adjacency).document
  | .jsonl => String.join (i.edges.map fun e => (edgeJson i.naming e).line)
  | .dot => (Drawing.networkDrawing (if i.title = "" then defaultTitle else i.title)
      (Network.ofAdjacency i.adjacency)).text

/-- What is written, as far as a refusal is reported in different words. -/
inductive Part where
  | report (format : Format)
  | stats
  | list
  deriving DecidableEq, Repr

/-- The number of bytes that are held back before they are passed on. -/
def bufferSize : Nat := 4096

/-- What was being done when a text of this part was refused. -/
def Part.activity (text : String) : Part → String
  | .report .text => "write text"
  | .report .json => "encode json"
  | .report .jsonl => if bufferSize < text.utf8ByteSize then "encode jsonl" else "write jsonl"
  | .report .dot => "write dot"
  | .stats => "write stats"
  | .list => "write list"

/-- Passes a text on. One who refuses every text for a reason still takes the empty one. -/
def deliver (refusal : Option String) (part : Part) (text : String) : Except Failure String :=
  match refusal with
  | none => .ok text
  | some reason =>
    if text = "" then .ok ""
    else .error (.ofText s!"report: {part.activity text}: {reason}")

/-- The failure of asking for the format with a number that no format has. -/
def unknownFormat (code : Int) : Failure :=
  { kind := .unknownFormat, message := Format.unknownMessage (Format.codeText code) }

/-- Writes a report in the format with a number. -/
def write (refusal : Option String) (code : Int) (i : Input) : Except Failure String :=
  match Format.ofCode? code with
  | some f => deliver refusal (.report f) (render f i)
  | none => .error (unknownFormat code)

end CallAtlas.Report
