import CallAtlas.CallGraph.Survey
import CallAtlas.Drawing.Header

/-!
# Drawing of calls

The methods that call or are called, grouped by class, and the calls between them.
-/

namespace CallAtlas.Drawing

open CallGraph

/-- The colour of a call. -/
def Theme.edgeColor (t : Theme) : Provenance → String
  | .virtual => t.edgeVirtual
  | .override => t.edgeOverride
  | .dynamic => t.edgeDynamic
  | .external => t.edgeExternal
  | .direct => t.edgeDirect
  | .other _ => t.edgeDirect

/-- The line of a call. -/
def edgeStyle : Provenance → String
  | .override => "dotted"
  | .dynamic => "dashed"
  | .external => "dashed"
  | _ => "solid"

/-- The first `n` elements, all of them if `n` is not positive. -/
def limitTo {α : Type} (n : Int) (as : List α) : List α :=
  if 0 < n then as.take n.toNat else as

namespace CallChart

/-- The calls that have both ends. -/
def named (calls : List Call) : List Call :=
  calls.filter fun c => c.source != "" && c.target != ""

/-- The methods that take part in a call, at most `maxNodes` of them. -/
def shownFuncs (funcs : List Func) (calls : List Call) (maxNodes : Int) : List Func :=
  let ends := setOf (calls.flatMap fun c => [c.source, c.target])
  limitTo maxNodes (funcs.filter fun f => ends.contains f.name)

/-- The targets of shown methods that are not shown themselves, ascending. -/
def outside (shown : Std.HashSet String) (calls : List Call) : List String :=
  Text.sortDistinct ((calls.filter fun c =>
    shown.contains c.source && !shown.contains c.target).map Call.target)

/-- The classes of methods, ascending. -/
def owners (funcs : List Func) : List String :=
  Text.sortDistinct ((funcs.map Func.owner).filter (· != ""))

/-- The methods of each class. -/
def memberTable (funcs : List Func) : Std.HashMap String (List Func) :=
  groups (funcs.map fun f => (f.owner, f))

/-- The node of a method. -/
def funcNode (theme : Theme) (f : Func) (label : Text.RawText) : Statement :=
  .node (.named f.name) (.label label ::
    if f.isAbstract then
      [.quoted "fillcolor" theme.abstractFill, .quoted "style" "filled,dashed"]
    else [])

/-- The nodes of methods: in clusters for classes of several, then those without a class, then those that are
    alone in theirs. -/
def funcNodes (theme : Theme) (funcs : List Func) : List Statement :=
  let table := memberTable funcs
  let members (owner : String) := table.getD owner []
  let owners := owners funcs
  let clusters := owners.filter fun o => 2 ≤ (members o).length
  let alone := owners.filter fun o => (members o).length < 2
  clusters.map (fun o => classCluster theme o ((members o).map fun f =>
      funcNode theme f (Text.RawText.shorten 50 (stripOwner f.name o))))
    ++ (members "" ++ alone.flatMap members).map fun f =>
      funcNode theme f (Text.RawText.shorten 60 f.name)

/-- The node of a method that is not shown among its class. -/
def outsideNode (theme : Theme) (name : String) : Statement :=
  .node (.named name) [.label (Text.RawText.shorten 50 name), .bare "shape" "plaintext",
    .quoted "style" "", .bare "fillcolor" "none", .quoted "fontcolor" theme.externalText,
    .bare "fontsize" "8"]

/-- The edge of a call that is made `n` times. -/
def callEdge (theme : Theme) (c : Call) (n : Nat) : Statement :=
  let color := theme.edgeColor c.provenance
  .edge (.named c.source) (.named c.target)
    ([.quoted "color" color, .quoted "style" (edgeStyle c.provenance)]
      ++ (if 1 < n then [.bare "penwidth" (lineWidth n)] else [])
      ++ (if 2 < n then
          [.markup (font [("point-size", "7"), ("color", color)] s!"{n}x")] else []))

end CallChart

open CallChart in
/-- The drawing of the calls between methods. -/
def callDrawing (theme : Theme) (title : String) (maxNodes : Int) (funcs : List Func)
    (calls : List Call) : Sheet :=
  let calls := named calls
  let funcs := shownFuncs funcs calls maxNodes
  let names := setOf (funcs.map Func.name)
  let counts := countTable calls
  ⟨"callgraph", graphHeader theme title (methodShape "0.12,0.06")
    ++ funcNodes theme funcs ++ [.blank]
    ++ (outside names calls).map (outsideNode theme) ++ [.blank]
    ++ ((distinct calls).filter fun c => names.contains c.source).map fun c =>
      callEdge theme c (counts.getD c 0)⟩

end CallAtlas.Drawing
