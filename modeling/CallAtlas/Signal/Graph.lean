import CallAtlas.CallGraph.Edge
import CallAtlas.Closure
import CallAtlas.Signal.Rule
import CallAtlas.Text.Json

/-!
# Signal graph

The methods that call sensitive ones, and those within a few calls of them in either direction.
-/

namespace CallAtlas.Signal

open CallGraph

/-- Why a method is in the graph. -/
inductive Role where
  /-- It calls a sensitive method. -/
  | signal
  /-- It is near one that does. -/
  | context
  deriving DecidableEq, Repr

def Role.text : Role → String
  | .signal => "signal"
  | .context => "context"

/-- A method of the graph. -/
structure Func where
  name : String
  owner : String
  role : Role
  categories : List String
  severity : Option Severity
  /-- The sensitive methods it calls. -/
  apis : List String
  isEntryPoint : Bool
  deriving DecidableEq, Repr

/-- A call of the graph. A sensitive one leads to a sensitive method, which need not be in the graph itself. -/
structure Link where
  source : String
  target : String
  sensitive : Bool
  deriving DecidableEq, Repr

/-- The figures of a graph. -/
structure Stats where
  methods : Int
  signalFuncs : Int
  contextFuncs : Int
  edges : Int
  sensitiveCalls : Int
  /-- The number of signal methods by category. -/
  categories : List (String × Int)
  deriving DecidableEq, Repr

structure Graph where
  funcs : List Func
  edges : List Link
  stats : Stats
  deriving DecidableEq, Repr

/-- A call, its ends as a naming calls them, and the categories of its target. -/
structure Call where
  source : String
  target : String
  categories : List String
  deriving DecidableEq, Repr

namespace Call

/-- The call of an edge. -/
def ofEdge (rules : List Rule) (naming : Naming) (e : Edge) : Call :=
  ⟨naming.name e.caller, naming.name e.callee, classify rules e.callee⟩

def isSensitive (c : Call) : Bool :=
  !c.categories.isEmpty

end Call

/-- The declared methods with their classes. Of several declarations of one name the last one counts. -/
def ownersOf (naming : Naming) (declarations : List Location) : Std.HashMap String String :=
  lastTable (declarations.map fun d => (naming.name d, d.ownerName))

/-- The methods joined to each one by a call, in either direction: first those that it calls. -/
def neighbourTable (calls : List Call) : Std.HashMap String (List String) :=
  groups (calls.map (fun c => (c.source, c.target)) ++ calls.map fun c => (c.target, c.source))

/-- The names at most `hops` calls away from the given ones. -/
def within (calls : List Call) (hops : Nat) (names : List String) : List String :=
  let neighbours := neighbourTable calls
  neighbourhood (calls.flatMap fun c => [c.source, c.target]) (fun n => neighbours.getD n []) hops names

/-- The place of a method that is not sensitive behind those that are. -/
def severityRank (s : Option Severity) : Nat :=
  s.elim 3 Severity.rank

/-- The order of methods: those that signal first, of these the entry points first, then by severity, then by
    the number of categories, then by name. -/
def Func.cmp (a b : Func) : Ordering :=
  let role (f : Func) := if f.role = .signal then 0 else 1
  let entry (f : Func) := if f.role = .signal ∧ f.isEntryPoint then 0 else 1
  (compare (role a) (role b)).then ((compare (entry a) (entry b)).then
    ((compare (severityRank a.severity) (severityRank b.severity)).then
      ((compare b.categories.length a.categories.length).then (compare a.name b.name))))

/-- `a` does not stand behind `b`. -/
def Func.le (a b : Func) : Bool :=
  (Func.cmp a b).isLE

/-- The order of calls: by source, then target, the sensitive one last. -/
def Link.cmp (a b : Link) : Ordering :=
  (compare a.source b.source).then ((compare a.target b.target).then
    (compare a.sensitive b.sensitive))

/-- `a` does not stand behind `b`. -/
def Link.le (a b : Link) : Bool :=
  (Link.cmp a b).isLE

/-- How many signal methods there are of each category, ascending. -/
def categoryCounts (funcs : List Func) : List (String × Int) :=
  let all := funcs.flatMap Func.categories
  (Text.sortDistinct all).map fun c => (c, all.count c)

/-- A method of the graph, given the sensitive calls by source and the methods that others call. -/
def funcOf (owners : Std.HashMap String String) (sensitive : Std.HashMap String (List Call))
    (called : Std.HashSet String) (name : String) : Func :=
  let own := sensitive.getD name []
  let categories := Text.sortDistinct (own.flatMap Call.categories)
  { name, owner := owners.getD name ""
    role := if own.isEmpty then .context else .signal
    categories
    severity := if own.isEmpty then none else some (Severity.ofCategories categories)
    apis := Text.sortDistinct (own.map Call.target)
    isEntryPoint := !called.contains name }

/-- The calls that leave a method of the graph: to other methods in it and to sensitive ones. -/
def linksOf (kept : Std.HashSet String) (targets : Std.HashMap String (List String)) (f : Func) :
    List Link :=
  (((targets.getD f.name []).filter kept.contains).map fun t => ⟨f.name, t, false⟩)
    ++ f.apis.map fun api => ⟨f.name, api, true⟩

/-- The signal graph of calls: every method that calls a sensitive one, and the methods at most `hops` calls
    away from these. Only calls of declared methods count as steps. -/
def build (rules : List Rule) (naming : Naming) (hops : Int) (edges : List Edge)
    (declarations : List Location) : Graph :=
  let owners := ownersOf naming declarations
  let calls := edges.map (Call.ofEdge rules naming)
  let inner := calls.filter fun c => owners.contains c.target
  let sensitive := groups ((calls.filter Call.isSensitive).map fun c => (c.source, c))
  let called := setOf ((inner.filter fun c => c.source != c.target).map Call.target)
  let targets := groups (inner.map fun c => (c.source, c.target))
  let signals := Text.sortDistinct ((calls.filter Call.isSensitive).map Call.source)
  let kept := within inner hops.toNat signals
  let funcs := (kept.map (funcOf owners sensitive called)).mergeSort Func.le
  let links := dropRepeats ((funcs.flatMap (linksOf (setOf kept) targets)).mergeSort Link.le)
  { funcs, edges := links
    stats :=
      { methods := owners.size
        signalFuncs := signals.length
        contextFuncs := kept.length - signals.length
        edges := links.length
        sensitiveCalls := (calls.filter Call.isSensitive).length
        categories := categoryCounts funcs } }

/-- A method as a document. -/
def Func.json (f : Func) : Text.Json :=
  .object ([("name", .string f.name)]
    ++ Text.Json.memberIf (f.owner != "") "owner" (.string f.owner)
    ++ [("role", .string f.role.text)]
    ++ Text.Json.memberIf (!f.categories.isEmpty) "categories" (.strings f.categories)
    ++ (f.severity.elim [] fun s => [("severity", .string s.text)])
    ++ Text.Json.memberIf (!f.apis.isEmpty) "apis" (.strings f.apis)
    ++ Text.Json.memberIf f.isEntryPoint "is_entry_point" (.bool true))

/-- A call as a document. -/
def Link.json (l : Link) : Text.Json :=
  .object ([("from", .string l.source), ("to", .string l.target)]
    ++ Text.Json.memberIf l.sensitive "sensitive" (.bool true))

/-- The figures as a document. -/
def Stats.json (s : Stats) : Text.Json :=
  .object [("methods", .int s.methods), ("signal_funcs", .int s.signalFuncs),
    ("context_funcs", .int s.contextFuncs), ("edges", .int s.edges),
    ("sensitive_calls", .int s.sensitiveCalls),
    ("categories", .object (s.categories.map fun (c, n) => (c, .int n)))]

/-- The graph as a document. A graph without calls has none instead of an empty list. -/
def Graph.json (g : Graph) : Text.Json :=
  .object [("funcs", .array (g.funcs.map Func.json)),
    ("edges", if g.edges.isEmpty then .null else .array (g.edges.map Link.json)),
    ("stats", g.stats.json)]

end CallAtlas.Signal
