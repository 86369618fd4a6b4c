import CallAtlas.CallGraph.Edge
import CallAtlas.Drawing.Dot

/-!
# Drawing of a network

The plainest drawing of calls: a node for every method and an edge for every pair of caller and
callee.
-/

namespace CallAtlas.Drawing

open CallGraph

namespace NetworkChart

def blue : String := "#0B3D91"
def black : String := "#1A1A1A"
def gray : String := "#9E9E9E"
def light : String := "#F5F5F5"

/-- The node of a method. -/
def node (name : String) : Statement :=
  .node (.named name) <|
    if name = "main" then
      [.quoted "label" name, .quoted "fillcolor" blue, .bare "fontcolor" "white",
       .bare "penwidth" "0"]
    else if "anon#".isPrefixOf name then
      [.quoted "label" name, .quoted "style" "filled,dashed", .quoted "color" gray,
       .quoted "fontcolor" gray]
    else [.quoted "label" name]

/-- The statements that open the drawing. -/
def header (title : String) : List Statement :=
  [.setting "rankdir=LR;", .setting "splines=true;", .setting "nodesep=0.4;",
   .setting "ranksep=0.6;", .setting ("bgcolor=" ++ Text.quoted light ++ ";"),
   .setting ("node [" ++ attributesText [.bare "shape" "rect", .bare "style" "filled",
      .bare "fillcolor" "white", .quoted "color" black, .bare "penwidth" "0.5",
      .quoted "fontname" "Helvetica Neue,Helvetica,Arial", .bare "fontsize" "9",
      .quoted "fontcolor" black, .bare "height" "0.3", .quoted "margin" "0.12,0.06"] ++ "];"),
   .setting ("edge [" ++ attributesText [.quoted "color" gray, .bare "penwidth" "0.5",
      .bare "arrowsize" "0.5", .bare "arrowhead" "vee"] ++ "];")]
    ++ (if title = "" then [] else titleStatements "8" black title) ++ [.blank]

end NetworkChart

/-- The drawing of a network. -/
def networkDrawing (title : String) (g : Network) : Sheet :=
  ⟨"callgraph", NetworkChart.header title ++ g.nodes.map NetworkChart.node ++ [.blank]
    ++ g.edges.map fun (a, b) => .edge (.named a) (.named b) []⟩

end CallAtlas.Drawing
