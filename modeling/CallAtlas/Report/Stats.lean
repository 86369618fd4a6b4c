import CallAtlas.CallGraph.Edge
import CallAtlas.Program.Build
import CallAtlas.Text.Json

/-!
# Statistics

Counts of what calls what, and the methods and classes that stand out.
-/

namespace CallAtlas.Report

open CallGraph

/-- A name and how often it counts. -/
structure Count where
  name : String
  count : Int
  deriving DecidableEq, Repr

/-- Counts with the greatest first; of equal ones the lesser name comes first. -/
def Count.le (a b : Count) : Bool :=
  if a.count = b.count then decide (a.name ≤ b.name) else decide (b.count < a.count)

/-- How often each name occurs. -/
def tally (names : List String) : List Count :=
  let counts := countTable names
  (distinct names).map fun n => ⟨n, counts.getD n 0⟩

/-- The `n` greatest counts. -/
def top (n : Nat) (cs : List Count) : List Count :=
  (cs.mergeSort Count.le).take n

/-- What stands before the last dot among the first `n` characters, empty if there is none. The characters are
    looked at from the back. -/
def beforeDot (cs : List Char) : Nat → List Char
  | 0 => []
  | n + 1 => if cs[n]? = some '.' then cs.take n else beforeDot cs n

/-- The class in the identity of a method: what stands before the last dot of its name, which ends where the
    parameters begin. -/
def ownerOf (name : String) : String :=
  let cs := name.toList
  String.ofList (beforeDot cs (cs.findIdx (· == '(')))

/-- The figures of one analysis. -/
structure Stats where
  classes : Int := 0
  methods : Int := 0
  callSites : Int := 0
  unresolved : Int := 0
  skipped : Int := 0
  callers : Int := 0
  edges : Int := 0
  distinctCallees : Int := 0
  /-- Methods by the calls they make. -/
  topCallers : List Count := []
  /-- Methods by the calls made to them. -/
  topCallees : List Count := []
  /-- Classes by the methods of theirs that call something. -/
  topOwners : List Count := []

namespace Stats

/-- The length of rankings unless a caller says otherwise. -/
def defaultTop : Nat := 20

/-- The figures of an adjacency and, if there is one, of the build behind it. -/
def compute (a : Adjacency) (report : Option Program.Report) (n : Int) : Stats :=
  let n := if n ≤ 0 then defaultTop else n.toNat
  let calls := a.callers.flatMap Caller.callees
  let base : Stats := report.elim {} fun r =>
    { classes := r.classes, methods := r.methods, callSites := r.callSites
      unresolved := r.unresolved, skipped := r.skipped.length }
  { base with
    callers := a.callers.length
    edges := a.edgeCount
    distinctCallees := (distinct calls).length
    topCallers := top n (a.callers.map fun c => ⟨c.name, c.callees.length⟩)
    topCallees := top n (tally calls)
    topOwners := top n (tally ((a.names.map ownerOf).filter (· != ""))) }

/-- A ranking with a heading, nothing if it is empty. -/
def rankingText (title : String) (cs : List Count) : String :=
  if cs.isEmpty then "" else
  "\n" ++ title ++ ":\n" ++ String.join (cs.map fun c =>
    "  " ++ Text.padLeft ' ' 6 (toString c.count) ++ "  " ++ c.name ++ "\n")

/-- The figures as text. -/
def text (s : Stats) : String :=
  s!"classes:          {s.classes}\n" ++ s!"methods:          {s.methods}\n"
    ++ s!"call sites:       {s.callSites}\n" ++ s!"unresolved:       {s.unresolved}\n"
    ++ s!"skipped classes:  {s.skipped}\n" ++ s!"callers:          {s.callers}\n"
    ++ s!"edges:            {s.edges}\n" ++ s!"distinct callees: {s.distinctCallees}\n"
    ++ rankingText "top callers" s.topCallers ++ rankingText "top callees" s.topCallees
    ++ rankingText "top classes" s.topOwners

/-- A ranking as a document. -/
def rankingJson (cs : List Count) : Text.Json :=
  .array (cs.map fun c => .object [("name", .string c.name), ("count", .int c.count)])

/-- The figures as a document. -/
def json (s : Stats) : Text.Json :=
  .object [("classes", .int s.classes), ("methods", .int s.methods),
    ("call_sites", .int s.callSites), ("unresolved", .int s.unresolved),
    ("skipped", .int s.skipped), ("callers", .int s.callers), ("edges", .int s.edges),
    ("distinct_callees", .int s.distinctCallees), ("top_callers", rankingJson s.topCallers),
    ("top_callees", rankingJson s.topCallees), ("top_owners", rankingJson s.topOwners)]

end Stats
end CallAtlas.Report
