import CallAtlas.Facts.Naming
import CallAtlas.Facts.Store
import CallAtlas.Table

/-!
# Calls as edges

The calls of a fact store in the order of their source, and the callees of every caller.
-/

namespace CallAtlas.CallGraph

open Facts

/-- A call from one method to another at a place. -/
structure Edge where
  caller : Location
  callee : Location
  site : Location
  deriving DecidableEq, Repr

namespace Edge

/-- Edges by caller, then by line and position of the call, then by callee. -/
def cmp (a b : Edge) : Ordering :=
  (Location.cmp a.caller b.caller).then ((compare a.site.line b.site.line).then
    ((compare a.site.offset b.site.offset).then (Location.cmp a.callee b.callee)))

/-- `a` does not stand behind `b`. -/
def le (a b : Edge) : Bool :=
  (cmp a b).isLE

/-- The edge of a tuple of the invocation relation: caller, callee and the place of the call, which may be
    missing. -/
def ofTuple? : Tuple → Option Edge
  | caller :: callee :: site :: _ => some ⟨caller, callee, site⟩
  | [caller, callee] => some ⟨caller, callee, ⟨"", "", Location.noOffset, 0⟩⟩
  | _ => none

end Edge

/-- The wording for a store that has no calls at all. -/
def noInvocationsMessage : String := "callgraph: methodInvocation relation absent"

/-- The failure of asking for calls of a store that knows of no relation of calls. -/
def noInvocations : Failure :=
  { kind := .noInvocations, message := noInvocationsMessage }

/-- The calls of a store, none if it has no relation of calls. -/
def project? (s : Store) : Option (List Edge) :=
  (s.relation? relInvocation).map fun ts => (ts.filterMap Edge.ofTuple?).mergeSort Edge.le

/-- The calls of a store. -/
def project (s : Store) : Except Failure (List Edge) :=
  (project? s).elim (.error noInvocations) .ok

/-- A method and those it calls, as often as it does. -/
structure Caller where
  name : String
  callees : List String
  deriving DecidableEq, Repr

/-- The callers in ascending order, each with its callees in the order of the calls. -/
structure Adjacency where
  callers : List Caller
  deriving DecidableEq, Repr

namespace Adjacency

/-- The adjacency of calls, methods being called as a naming says. -/
def ofEdges (naming : Naming) (edges : List Edge) : Adjacency :=
  let calls := edges.map fun e => (naming.name e.caller, naming.name e.callee)
  let callees := groups calls
  ⟨(Text.sortDistinct (calls.map Prod.fst)).map fun c => ⟨c, callees.getD c []⟩⟩

/-- The names of the callers. -/
def names (a : Adjacency) : List String :=
  a.callers.map Caller.name

/-- The callees of a caller. -/
def callees (a : Adjacency) (caller : String) : List String :=
  ((a.callers.find? fun c => c.name == caller).map Caller.callees).getD []

/-- The number of calls. -/
def edgeCount (a : Adjacency) : Nat :=
  a.callers.foldl (fun n c => n + c.callees.length) 0

end Adjacency

/-- A graph of named methods in which no edge is repeated. -/
structure Network where
  nodes : List String
  edges : List (String × String)
  deriving DecidableEq, Repr

/-- The network of an adjacency: callers first, then the methods that call nothing, ascending. -/
def Network.ofAdjacency (a : Adjacency) : Network :=
  let edges := a.callers.flatMap fun c => c.callees.map fun callee => (c.name, callee)
  let callers := setOf a.names
  let leaves := (edges.map Prod.snd).filter fun n => !callers.contains n
  { nodes := a.names ++ Text.sortDistinct leaves, edges := distinct edges }

end CallAtlas.CallGraph
