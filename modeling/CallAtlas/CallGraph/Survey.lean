import CallAtlas.Closure
import CallAtlas.Facts.Naming
import CallAtlas.Program.Build
import CallAtlas.Table

/-!
# Survey of a program

The methods of a program and the calls between them as they are shown, where the program can be
entered, and what can be reached from there.
-/

namespace CallAtlas.CallGraph

open Facts Program

/-- A declared method. -/
structure Func where
  name : String
  /-- Its class, empty if it has none. -/
  owner : String
  /-- It has no code. -/
  isAbstract : Bool
  deriving DecidableEq, Repr

/-- How a call comes to lead to its target. -/
inductive Provenance where
  /-- The target is fixed when the call is written. -/
  | direct
  /-- The call names the target, but another may run. -/
  | virtual
  /-- The target overrides the one that the call names. -/
  | override
  /-- The target is found when the call is first made. -/
  | dynamic
  /-- The target is not declared at hand. -/
  | external
  | other (name : String)
  deriving DecidableEq, Hashable, Repr

namespace Provenance

def text : Provenance → String
  | .direct => "direct"
  | .virtual => "virtual"
  | .override => "override"
  | .dynamic => "dynamic"
  | .external => "external"
  | .other name => name

/-- The provenance with a name. -/
def ofText : String → Provenance
  | "direct" => .direct
  | "virtual" => .virtual
  | "override" => .override
  | "dynamic" => .dynamic
  | "external" => .external
  | name => .other name

/-- The provenance of the method that a call of a kind names. -/
def ofKind : Bytecode.InvokeKind → Provenance
  | .virtual => .virtual
  | .interface => .virtual
  | .dynamic => .dynamic
  | .special => .direct
  | .static => .direct

end Provenance

/-- A call that leads to a method. -/
structure Call where
  source : String
  target : String
  provenance : Provenance
  deriving DecidableEq, Hashable, Repr

/-- The methods of declarations whose names are not among those seen. -/
def funcsAfter (naming : Naming) (withCode : Std.HashSet Location) (seen : Std.HashSet String) :
    List Location → List Func
  | [] => []
  | d :: ds =>
    let name := naming.name d
    if seen.contains name then funcsAfter naming withCode seen ds
    else ⟨name, d.ownerName, !withCode.contains d⟩
      :: funcsAfter naming withCode (seen.insert name) ds

/-- The declared methods; those with one name are shown once, as the first of them. -/
def funcsOf (naming : Naming) (declarations withCode : List Location) : List Func :=
  funcsAfter naming (setOf withCode) ∅ declarations

/-- The calls to the targets of a site. `isNamed` says whether the first of them is the method that the call
    names. -/
def callsOfSite (naming : Naming) (declared : Std.HashSet Location) (source : String)
    (kind : Bytecode.InvokeKind) (isNamed : Bool) : List Location → List Call
  | [] => []
  | callee :: rest =>
    let provenance := if !declared.contains callee then .external
      else if isNamed then Provenance.ofKind kind else .override
    ⟨source, naming.name callee, provenance⟩
      :: callsOfSite naming declared source kind false rest

/-- The calls of a body. -/
def callsOfBody (naming : Naming) (declared : Std.HashSet Location) (b : Body) : List Call :=
  b.sites.flatMap fun s =>
    callsOfSite naming declared (naming.name b.declaration) s.site.kind true s.callees

/-- What is shown of a program. -/
structure Survey where
  funcs : List Func
  calls : List Call
  deriving DecidableEq, Repr

/-- The survey of facts and bodies. -/
def Survey.collect (s : Store) (bodies : List Body) (naming : Naming) : Survey :=
  let declared := s.declarations
  { funcs := funcsOf naming declared (bodies.map Body.declaration)
    calls := bodies.flatMap (callsOfBody naming (setOf declared)) }

/-- The number of calls of each provenance. -/
def provenanceCounts (calls : List Call) : List (Provenance × Nat) :=
  let all := calls.map Call.provenance
  let counts := countTable all
  (distinct all).map fun p => (p, counts.getD p 0)

/-- The methods with code that no other method calls, ascending. -/
def entryPoints (funcs : List Func) (calls : List Call) : List String :=
  let called := setOf ((calls.filter fun c => c.source != c.target).map Call.target)
  Text.sort ((funcs.filter fun f => !f.isAbstract && !called.contains f.name).map Func.name)

/-- The methods that each method calls. -/
def targetTable (calls : List Call) : Std.HashMap String (List String) :=
  groups (calls.map fun c => (c.source, c.target))

/-- The methods that can be reached from entries, these included, in the order of the search. -/
def reachable (entries : List String) (calls : List Call) : List String :=
  let targets := targetTable calls
  closure (entries ++ calls.map Call.target) (fun name => targets.getD name []) entries

end CallAtlas.CallGraph
