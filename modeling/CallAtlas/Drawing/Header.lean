import CallAtlas.Drawing.Dot
import CallAtlas.Drawing.Theme

/-!
# Parts that drawings share

The opening of the drawings of methods and classes, the cluster of a class, and labels.
-/

namespace CallAtlas.Drawing

/-- The statements that open a drawing. -/
def graphHeader (theme : Theme) (title : String) (node : List Attribute) : List Statement :=
  [.setting "rankdir=LR;", .setting "compound=true;", .setting "splines=true;",
   .setting "nodesep=0.4;", .setting "ranksep=0.6;",
   .setting ("bgcolor=" ++ Text.quoted theme.background ++ ";"),
   .setting ("node [" ++ attributesText (node ++ [.quoted "fillcolor" theme.nodeFill,
      .quoted "color" theme.nodeBorder, .bare "penwidth" "0.5",
      .quoted "fontname" "Helvetica Neue,Helvetica,Arial",
      .quoted "fontcolor" theme.textColor]) ++ "];"),
   .setting "edge [penwidth=0.5, arrowsize=0.5, arrowhead=vee];"]
    ++ (if title = "" then [] else titleStatements "8" theme.textColor title) ++ [.blank]

/-- The shape of nodes that are methods. -/
def methodShape (margin : String) : List Attribute :=
  [.bare "shape" "rect", .bare "style" "filled", .bare "fontsize" "9", .bare "height" "0.3",
   .quoted "margin" margin]

/-- The cluster of the methods of a class. -/
def classCluster (theme : Theme) (owner : String) (nodes : List Statement) : Statement :=
  .cluster ("cluster_" ++ identifier owner)
    ([.setting ("label=<" ++ font [("point-size", "8"), ("color", theme.clusterLabel)]
        (Text.escaped owner) ++ ">;"),
      .setting ("style=dotted; color=" ++ Text.quoted theme.clusterBorder
        ++ "; penwidth=0.3;")] ++ nodes)

/-- The identity of a method without its class. -/
def stripOwner (name owner : String) : String :=
  if (owner ++ ".").isPrefixOf name then String.ofList (name.toList.drop (owner.length + 1))
  else name

/-- The width of a line for a number of calls: a half and a tenth for each. -/
def lineWidth (n : Nat) : String :=
  s!"{(5 + n) / 10}.{(5 + n) % 10}"

end CallAtlas.Drawing
