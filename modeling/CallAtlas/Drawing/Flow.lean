import CallAtlas.CallGraph.Flow
import CallAtlas.Drawing.Dot
import CallAtlas.Table

/-!
# Drawing of calls in the flow of control

Several methods side by side, each with the blocks that call something, branch or end the method,
and the calls from block to method. Blocks with nothing to show are passed over.
-/

namespace CallAtlas.Drawing

open Bytecode CallGraph

namespace FlowChart

def ink : String := "#2D2D2D"
def indigo : String := "#2D4A7A"
def vermilion : String := "#BF3F2F"
def paper : String := "#FAF6F0"
def gray : String := "#8E8E8E"

/-- The most calls that are listed in one block. -/
def maxCalls : Nat := 10

/-- A name that looks like a constant: capitals, digits and underscores, at least two. -/
def isAllCaps (s : String) : Bool :=
  2 ≤ s.length && s.toList.all fun c => c.isUpper || c.isDigit || c == '_'

/-- The block is drawn. -/
def isVisible (b : FlowBlock) : Bool :=
  b.block.id == 0 || !b.calls.isEmpty || 1 < b.block.successors.length
    || (b.block.terminal && b.block.successors.isEmpty)

/-- The first drawn block on the way from a block through blocks that are not drawn, if there is one within
    `steps` steps. -/
def resolve (bs : Array FlowBlock) : (steps : Nat) → Nat → Option Nat
  | 0, _ => none
  | steps + 1, id => do
    let b ← bs[id]?
    if isVisible b then return id
    let s ← b.block.successors.head?
    resolve bs steps s.block

/-- One row of the table of calls in a block. -/
def callRow (color text : String) : String :=
  "<tr><td align=\"left\">" ++ font [("point-size", "8"), ("color", color)] text ++ "</td></tr>"

/-- The label of a block: its calls, or where it stands. -/
def blockLabel (b : FlowBlock) : String :=
  let isEntry := b.block.id == 0
  let textColor := if isEntry then paper else ink
  let noteColor := if isEntry then "#D4C5A9" else "#8B7355"
  if b.calls.isEmpty then
    font [("point-size", "8"), ("color", textColor)]
      (if isEntry then "entry" else s!"@{b.block.start}")
  else
    "<table border=\"0\" cellborder=\"0\" cellspacing=\"0\" cellpadding=\"2\">"
      ++ String.join ((b.calls.take maxCalls).map fun c =>
          callRow textColor (Text.escaped c.callee))
      ++ (if maxCalls < b.calls.length then
          callRow noteColor s!"+{b.calls.length - maxCalls} more" else "")
      ++ "</table>"

/-- The node of a block of the `n`-th method. -/
def blockNode (n : Nat) (b : FlowBlock) : Statement :=
  let label := Attribute.markup (blockLabel b)
  .node (.methodBlock n b.block.id) <|
    if b.block.id = 0 then
      [label, .bare "style" "filled", .quoted "fillcolor" ink, .quoted "fontcolor" paper,
       .quoted "color" ink, .bare "penwidth" "0"]
    else if 1 < b.block.successors.length ∧ b.calls = [] then
      [.quoted "label" "", .bare "shape" "diamond", .bare "width" "0.15", .bare "height" "0.15",
       .quoted "color" ink, .bare "penwidth" "0.3"]
    else if b.block.successors.length ≤ 1 ∧ b.block.terminal ∧ b.block.successors = []
        ∧ b.calls = [] then
      [.quoted "label" "ret", .bare "shape" "plaintext", .bare "fontsize" "8",
       .quoted "fontcolor" gray]
    else [label]

/-- An edge of the flow of control, with its label if it has one. -/
def flowEdge (n source target : Nat) (l : Label) : Statement :=
  .edge (.methodBlock n source) (.methodBlock n target) <|
    if l = .always then []
    else
      let color := if l = .otherwise then vermilion else indigo
      [.quoted "color" color, .markup (font [("point-size", "8"), ("color", color)] l.text)]

/-- The edges from a block to the targets, each target once. -/
def flowEdgesTo (n source : Nat) (seen : List Nat) : List (Nat × Label) → List Statement
  | [] => []
  | (t, l) :: rest =>
    if seen.contains t then flowEdgesTo n source seen rest
    else flowEdge n source t l :: flowEdgesTo n source (t :: seen) rest

/-- The edges of the flow of control that leave a block. Two labelled edges to one target become one without a
    label. -/
def flowEdges (n : Nat) (bs : Array FlowBlock) (b : FlowBlock) : List Statement :=
  let targets := b.block.successors.filterMap fun s =>
    (resolve bs (bs.size + 1) s.block).map fun t => (t, s.label)
  match targets with
  | [(t, l), (u, m)] =>
    if t = u ∧ l ≠ .always ∧ m ≠ .always then [flowEdge n b.block.id t .always]
    else flowEdgesTo n b.block.id [] targets
  | _ => flowEdgesTo n b.block.id [] targets

/-- The numbers of methods by name; of several with one name the last one counts. -/
def methodNumbers (fs : List Flow) : Std.HashMap String Nat :=
  lastTable (fs.zipIdx.map fun (f, n) => (f.name, n))

/-- The statements for the calls of one block. `drawn` are the targets outside that have a node, `done` the
    targets that this block has an edge to. -/
def callStatements (numbers : Std.HashMap String Nat) (n : Nat) (source : Key) :
    (drawn done : Std.HashSet String) → List BlockCall → List Statement × Std.HashSet String
  | drawn, _, [] => ([], drawn)
  | drawn, done, c :: cs =>
    match numbers[c.callee]? with
    | some m =>
      let target := Key.methodBlock m 0
      if done.contains target.text then callStatements numbers n source drawn done cs
      else
        let attributes := if m = n then
            [.quoted "color" indigo, .bare "style" "dashed", .bare "penwidth" "0.4"]
          else [.quoted "lhead" s!"cluster_{m}", .quoted "color" indigo, .bare "penwidth" "0.5"]
        let (rest, drawn) := callStatements numbers n source drawn (done.insert target.text) cs
        (.edge source target attributes :: rest, drawn)
    | none =>
      let target := Key.named c.callee
      let capitals := isAllCaps c.callee
      let nodes := if drawn.contains c.callee then [] else
        [.node target ([.quoted "label" c.callee, .bare "shape" "plaintext"]
          ++ (if capitals then [.quoted "fontname" "Courier,monospace"] else [])
          ++ [.quoted "fontcolor" (if capitals then gray else vermilion), .bare "fontsize" "8"])]
      let drawn := drawn.insert c.callee
      if done.contains target.text then
        let (rest, drawn) := callStatements numbers n source drawn done cs
        (nodes ++ rest, drawn)
      else
        let edge := Statement.edge source target (if capitals then
            [.quoted "color" gray, .bare "style" "dotted", .bare "penwidth" "0.2"]
          else [.quoted "color" vermilion, .bare "style" "dashed", .bare "penwidth" "0.3"])
        let (rest, drawn) := callStatements numbers n source drawn (done.insert target.text) cs
        (nodes ++ edge :: rest, drawn)

/-- The statements for the calls of several blocks. -/
def callsOfBlocks (numbers : Std.HashMap String Nat) (n : Nat) :
    (drawn : Std.HashSet String) → List FlowBlock → List Statement × Std.HashSet String
  | drawn, [] => ([], drawn)
  | drawn, b :: bs =>
    let (own, drawn) := callStatements numbers n (.methodBlock n b.block.id) drawn ∅ b.calls
    let (rest, drawn) := callsOfBlocks numbers n drawn bs
    (own ++ rest, drawn)

/-- The cluster of a method: its drawn blocks and the flow of control between them. -/
def methodCluster (n : Nat) (f : Flow) : Statement :=
  let visible := f.blocks.filter isVisible
  .cluster s!"cluster_{n}"
    ([.setting ("label=<" ++ font [("face", "Helvetica Neue,Helvetica"), ("point-size", "8"),
        ("color", ink)] (Text.escaped f.name) ++ ">;"),
      .setting "style=dotted;", .setting ("color=" ++ Text.quoted gray ++ ";"),
      .setting "penwidth=0.3;"]
      ++ visible.map (blockNode n) ++ visible.flatMap (flowEdges n f.blocks.toArray))

/-- The statements of the methods from the `n`-th on. -/
def methodsFrom (numbers : Std.HashMap String Nat) (n : Nat) :
    (drawn : Std.HashSet String) → List Flow → List Statement
  | _, [] => []
  | drawn, f :: fs =>
    let (calls, drawn) := callsOfBlocks numbers n drawn (f.blocks.filter isVisible)
    [methodCluster n f, .blank] ++ calls ++ methodsFrom numbers (n + 1) drawn fs

/-- The statements that open the drawing. -/
def header (title : String) : List Statement :=
  [.setting "rankdir=LR;", .setting "splines=true;", .setting "nodesep=0.5;",
   .setting "ranksep=0.6;", .setting "compound=true;",
   .setting ("bgcolor=" ++ Text.quoted paper ++ ";"),
   .setting ("node [" ++ attributesText [.bare "shape" "rect", .quoted "style" "",
      .quoted "color" gray, .bare "penwidth" "0.3",
      .quoted "fontname" "Helvetica Neue,Helvetica,Arial", .bare "fontsize" "8",
      .quoted "fontcolor" ink, .bare "height" "0.3", .quoted "margin" "0.14,0.08"] ++ "];"),
   .setting ("edge [" ++ attributesText [.quoted "color" gray, .bare "penwidth" "0.4",
      .bare "arrowsize" "0.35", .bare "arrowhead" "vee"] ++ "];")]
    ++ (if title = "" then [] else titleStatements "8" ink title) ++ [.blank]

end FlowChart

/-- The drawing of the flow of control and the calls of methods. -/
def flowDrawing (title : String) (fs : List Flow) : Sheet :=
  ⟨"cfg", FlowChart.header title ++ FlowChart.methodsFrom (FlowChart.methodNumbers fs) 0 ∅ fs⟩

end CallAtlas.Drawing
