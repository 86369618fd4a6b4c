import CallAtlas.Bytecode.ControlFlow
import CallAtlas.Drawing.Dot
import CallAtlas.Drawing.Theme

/-!
# Drawing of a method

The basic blocks of one method with their instructions and the methods that these call.
-/

namespace CallAtlas.Drawing

open Bytecode

/-- The targets of an instruction with the keys of a switch before those behind the first. -/
def targetTexts : List Int → List Int → List String
  | [], _ => []
  | t :: ts, ks => toString t :: keyed ts ks
where
  /-- Targets with their keys, as far as there are keys. -/
  keyed : List Int → List Int → List String
    | [], _ => []
    | t :: ts, [] => toString t :: keyed ts []
    | t :: ts, k :: ks => s!"{k}:{t}" :: keyed ts ks

/-- An instruction as text: its name, then its constant and its targets. -/
def instructionText (i : Instruction) : String :=
  (if i.wide then "wide " else "") ++ i.mnemonic
    ++ (if i.index = 0 then "" else s!" #{i.index}")
    ++ (if i.targets = [] then "" else " " ++ ", ".intercalate (targetTexts i.targets i.keys))

/-- The instructions of consecutive blocks. -/
def bodies : List Block → List Instruction → List (Block × List Instruction)
  | [], _ => []
  | b :: bs, is => (b, is.take (b.stop - b.start)) :: bodies bs (is.drop (b.stop - b.start))

/-- One line of a block: position, instruction and the methods it calls. -/
def blockLine (calls : Int → Option (List String)) (i : Instruction) : String :=
  let line := s!"{i.offset}: {instructionText i}"
  match calls i.offset with
  | some (t :: ts) => Text.escaped (line ++ " ; " ++ ", ".intercalate (t :: ts))
  | _ => Text.escaped line

/-- At most twelve lines: of more only the first five and the last five. -/
def abbreviate (lines : List String) : List String :=
  if 12 < lines.length then
    lines.take 5 ++ [s!"... ({lines.length - 10} more)"] ++ lines.drop (lines.length - 5)
  else lines

/-- The node of a block. -/
def blockNode (theme : Theme) (calls : Int → Option (List String)) (b : Block)
    (is : List Instruction) : Statement :=
  let lines := abbreviate (is.map (blockLine calls))
  let label := "<br align=\"left\"/>".intercalate lines ++ "<br align=\"left\"/>"
  .node (.block b.id)
    ([.markup label]
      ++ (if b.entry then [.bare "penwidth" "1.5", .quoted "color" theme.entryBorder] else [])
      ++ (if b.terminal then [.quoted "fillcolor" theme.abstractFill] else []))

/-- The edge of a passage of control. -/
def successorEdge (theme : Theme) (b : Block) (s : Successor) : Statement :=
  .edge (.block b.id) (.block s.block) <|
    match s.label with
    | .taken => [.quoted "color" theme.condTrue,
        .markup (font [("point-size", "7"), ("color", theme.condTrue)] "T")]
    | .otherwise => [.quoted "color" theme.condFalse,
        .markup (font [("point-size", "7"), ("color", theme.condFalse)] "F")]
    | .always => [.quoted "color" theme.edgeDirect]
    | l => [.quoted "color" theme.edgeDirect,
        .markup (font [("point-size", "7")] (Text.escaped l.text))]

/-- The statements that open the drawing of a method. -/
def methodHeader (theme : Theme) (name : String) : List Statement :=
  [.setting "rankdir=TB;", .setting "nodesep=0.3;", .setting "ranksep=0.4;",
   .setting ("bgcolor=" ++ Text.quoted theme.background ++ ";"),
   .setting ("node [" ++ attributesText [.bare "shape" "rect", .bare "style" "filled",
      .quoted "fillcolor" theme.nodeFill, .quoted "color" theme.nodeBorder,
      .bare "penwidth" "0.5", .quoted "fontname" "Courier,monospace", .bare "fontsize" "8",
      .quoted "fontcolor" theme.textColor, .quoted "margin" "0.08,0.04"] ++ "];"),
   .setting "edge [penwidth=0.7, arrowsize=0.5, arrowhead=vee];"]
    ++ titleStatements "9" theme.textColor name ++ [.blank]

/-- The drawing of the blocks of a method, none if it has no block. -/
def methodDrawing? (theme : Theme) (name : String) (calls : Int → Option (List String))
    (is : List Instruction) : Option Sheet :=
  let bs := blocks is
  if bs = [] then none else
  some ⟨"cfg", methodHeader theme name
    ++ (bodies bs is).map (fun (b, own) => blockNode theme calls b own) ++ [.blank]
    ++ bs.flatMap fun b => b.successors.map (successorEdge theme b)⟩

/-- The text of the drawing of a method, empty if it has no block. -/
def methodText (theme : Theme) (name : String) (calls : Int → Option (List String))
    (is : List Instruction) : String :=
  (methodDrawing? theme name calls is).elim "" Sheet.text

end CallAtlas.Drawing
