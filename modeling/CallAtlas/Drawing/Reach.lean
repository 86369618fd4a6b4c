import CallAtlas.Drawing.Calls

/-!
# Drawing of what can be reached

The calls between methods that can be reached from the entries of a program.
-/

namespace CallAtlas.Drawing

open CallGraph

namespace ReachChart

/-- The classes of declared methods; of several methods of one name the last one counts. -/
def ownerTable (funcs : List Func) : Std.HashMap String String :=
  lastTable (funcs.map fun f => (f.name, f.owner))

/-- The calls between methods that can be reached. -/
def edges (reached : List String) (calls : List Call) : List (String × String) :=
  let reached := setOf reached
  (calls.filter fun c => reached.contains c.source && reached.contains c.target).map fun c =>
    (c.source, c.target)

/-- The node of a method. -/
def node (theme : Theme) (owners : Std.HashMap String String) (entries : Std.HashSet String)
    (limit : Nat) (name label : String) : Statement :=
  .node (.named name) (.label (Text.RawText.shorten limit label) ::
    if entries.contains name then
      [.bare "penwidth" "1.5", .quoted "color" theme.entryBorder]
    else if !owners.contains name then
      [.bare "shape" "plaintext", .quoted "style" "", .quoted "fontcolor" theme.externalText]
    else [])

/-- The nodes of methods with names in ascending order: in clusters for classes of several, then the others. -/
def nodes (theme : Theme) (funcs : List Func) (entries names : List String) : List Statement :=
  let owners := ownerTable funcs
  let entries := setOf entries
  let table := groups (names.map fun n => (owners.getD n "", n))
  let members (owner : String) := table.getD owner []
  let isCluster (owner : String) := owner != "" && 2 ≤ (members owner).length
  let classes := Text.sortDistinct (names.map fun n => owners.getD n "")
  let loose := names.filter fun n => !isCluster (owners.getD n "")
  (classes.filter isCluster).map (fun o => classCluster theme o
      ((members o).map fun n => node theme owners entries 50 n (stripOwner n o)))
    ++ loose.map fun n => node theme owners entries 50 n n

end ReachChart

open ReachChart in
/-- The drawing of the methods in `reached` and the calls between them. -/
def reachDrawing (theme : Theme) (title : String) (funcs : List Func) (calls : List Call)
    (reached entries : List String) : Sheet :=
  let edges := edges reached calls
  let names := Text.sortDistinct (edges.flatMap (fun e => [e.1, e.2]) ++ entries)
  let counts := countTable edges
  ⟨"reachable", graphHeader theme title (methodShape "0.12,0.06")
    ++ nodes theme funcs entries names ++ [.blank]
    ++ (distinct edges).map fun e =>
      let n := counts.getD e 0
      .edge (.named e.1) (.named e.2) ([.quoted "color" theme.edgeDirect]
        ++ if 1 < n then [.bare "penwidth" (lineWidth n)] else [])⟩

end CallAtlas.Drawing
