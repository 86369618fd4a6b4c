import CallAtlas.Drawing.Header
import CallAtlas.Signal.Graph

/-!
# Drawing of a signal graph

Methods that call sensitive ones in the colours of their severity, the methods around them in gray,
and the sensitive methods as leaves.
-/

namespace CallAtlas.Drawing

open Signal

namespace SignalChart

/-- The colours of a severity. -/
def severityAttributes : Severity → List Attribute
  | .high => [.quoted "fillcolor" "#FCE4EC", .quoted "color" "#C62828",
      .bare "penwidth" "1.5", .quoted "fontcolor" "#C62828"]
  | .medium => [.quoted "fillcolor" "#FFF3E0", .quoted "color" "#E65100",
      .bare "penwidth" "1.2", .quoted "fontcolor" "#E65100"]
  | .low => [.quoted "fillcolor" "#E3F2FD", .quoted "color" "#1565C0", .bare "penwidth" "1.0"]

/-- The label of a method: its name and, if it signals, its categories below. -/
def label (f : Func) : Text.RawText :=
  Text.RawText.shorten 40 (stripOwner f.name f.owner)
    ++ if f.role = .signal ∧ f.categories ≠ [] then
        "\n" ++ Text.RawText.shorten 30 (",".intercalate f.categories)
      else ""

/-- The attributes by which a method stands out. A severity that is not known leaves a gap. -/
def roleAttributes (theme : Theme) (f : Func) : List Attribute :=
  match f.role with
  | .signal => (f.severity.map severityAttributes).getD [.gap]
  | .context =>
    if f.isEntryPoint then [.bare "penwidth" "1.2", .quoted "color" theme.entryBorder]
    else [.quoted "fillcolor" "#F5F5F5", .quoted "color" "#BDBDBD",
      .quoted "fontcolor" "#757575"]

/-- The node of a method. -/
def funcNode (theme : Theme) (f : Func) : Statement :=
  .node (.named f.name) ([.label (label f), .quoted "tooltip" f.name] ++ roleAttributes theme f)

/-- The methods of a class by name. -/
def members (funcs : List Func) (owner : String) : List Func :=
  (funcs.filter fun f => f.owner == owner).mergeSort fun a b => decide (a.name ≤ b.name)

/-- The nodes of methods by class; those without one stand first and in no cluster. -/
def funcNodes (theme : Theme) (funcs : List Func) : List Statement :=
  (Text.sortDistinct (funcs.map Func.owner)).flatMap fun o =>
    let nodes := (members funcs o).map (funcNode theme)
    if o = "" then nodes else [classCluster theme o nodes]

/-- The sensitive methods that are called, ascending. -/
def apis (links : List Signal.Link) : List String :=
  Text.sortDistinct ((links.filter Signal.Link.sensitive).map Signal.Link.target)

/-- The node of a sensitive method. -/
def apiNode (theme : Theme) (name : String) : Statement :=
  .node (.api name) [.label (Text.RawText.shorten 60 name), .bare "shape" "rect",
    .quoted "style" "filled,rounded", .quoted "fillcolor" "#FFF8E1",
    .quoted "color" theme.edgeExternal, .quoted "fontcolor" theme.edgeExternal,
    .bare "fontsize" "7", .quoted "fontname" "Courier,monospace", .bare "height" "0.2"]

/-- The nodes of sensitive methods under a heading. -/
def apiNodes (theme : Theme) (names : List String) : List Statement :=
  if names.isEmpty then []
  else [.blank, .setting "// Sensitive APIs"] ++ names.map (apiNode theme)

/-- The edge of a call. -/
def link (theme : Theme) (l : Signal.Link) : Statement :=
  if l.sensitive then
    .edge (.named l.source) (.api l.target) [.bare "style" "dashed", .bare "penwidth" "0.6",
      .quoted "color" theme.edgeExternal]
  else .edge (.named l.source) (.named l.target) [.quoted "color" theme.edgeDirect]

end SignalChart

open SignalChart in
/-- The drawing of a signal graph. -/
def signalDrawing (theme : Theme) (title : String) (g : Graph) : Sheet :=
  ⟨"signal", graphHeader theme title (methodShape "0.10,0.05")
    ++ funcNodes theme g.funcs ++ apiNodes theme (apis g.edges) ++ [.blank]
    ++ g.edges.map (link theme)⟩

end CallAtlas.Drawing
