import CallAtlas.Text.Quoted
import CallAtlas.Text.Entity

/-!
# Graph drawings

Drawings in the DOT language of Graphviz, as a list of statements that is printed line by line.
`Sheet.nodes` and `Sheet.edges` are what a drawing shows, before names become identifiers.
-/

namespace CallAtlas.Drawing

/-- What a node of a drawing stands for. -/
inductive Key where
  /-- A method or a class. -/
  | named (name : String)
  /-- A sensitive method outside, drawn apart from methods of the same name. -/
  | api (name : String)
  /-- A basic block of the only method drawn. -/
  | block (id : Nat)
  /-- A basic block of one of several methods. -/
  | methodBlock (method id : Nat)
  deriving DecidableEq, Repr

/-- A character that may stand in an identifier. -/
def isPlainChar (c : Char) : Bool :=
  c.isAlphanum || c == '_'

/-- A character as part of an identifier: itself or an underscore and its number. -/
def identifierChar (c : Char) : String :=
  if isPlainChar c then c.toString else "_" ++ Text.hexFill 4 c.toNat

/-- The identifier of a named node. -/
def identifier (name : String) : String :=
  "n_" ++ String.join (name.toList.map identifierChar)

/-- The identifier of a node. -/
def Key.text : Key → String
  | .named name => identifier name
  | .api name => "api_" ++ identifier name
  | .block id => s!"bb{id}"
  | .methodBlock method id => s!"f{method}_b{id}"

/-- The value of an attribute. -/
inductive Value where
  | bare (text : String)
  | quoted (text : Text.RawText)
  /-- Markup, which stands between angle brackets. -/
  | markup (text : String)

/-- The written form of a value. -/
def Value.text : Value → String
  | .bare s => s
  | .quoted t => Text.quoted t
  | .markup s => "<" ++ s ++ ">"

/-- An attribute of a node or an edge. -/
structure Attribute where
  name : String
  value : Value

namespace Attribute

/-- An attribute whose value needs no quotes. -/
def bare (name value : String) : Attribute := ⟨name, .bare value⟩

/-- An attribute whose value is put between quotes. -/
def quoted (name value : String) : Attribute := ⟨name, .quoted value⟩

/-- A label of plain text. -/
def label (text : Text.RawText) : Attribute := ⟨"label", .quoted text⟩

/-- A label of markup. -/
def markup (text : String) : Attribute := ⟨"label", .markup text⟩

/-- The place of an attribute that is left open. -/
def gap : Attribute := ⟨"", .bare ""⟩

/-- The written form of an attribute. -/
def text (a : Attribute) : String :=
  if a.name = "" then a.value.text else a.name ++ "=" ++ a.value.text

end Attribute

/-- Attributes as they stand between brackets. -/
def attributesText (as : List Attribute) : String :=
  ", ".intercalate (as.map Attribute.text)

/-- A statement of a drawing. -/
inductive Statement where
  | node (key : Key) (attributes : List Attribute)
  | edge (source target : Key) (attributes : List Attribute)
  /-- A line that sets properties of the drawing or of a cluster. -/
  | setting (text : String)
  | blank
  /-- Statements whose nodes are drawn together. -/
  | cluster (name : String) (body : List Statement)

/-- A drawing. -/
structure Sheet where
  name : String
  body : List Statement

/-- The lines of a statement. -/
def Statement.lines (indent : String) : Statement → List String
  | .node k as => [s!"{indent}{k.text} [{attributesText as}];\n"]
  | .edge s t [] => [s!"{indent}{s.text} -> {t.text};\n"]
  | .edge s t as => [s!"{indent}{s.text} -> {t.text} [{attributesText as}];\n"]
  | .setting s => [s!"{indent}{s}\n"]
  | .blank => ["\n"]
  | .cluster name body =>
    (indent ++ "subgraph " ++ name ++ " \x7b\n") :: linesOf (indent ++ "  ") body
      ++ [indent ++ "\x7d\n"]
where
  /-- The lines of several statements. -/
  linesOf (indent : String) : List Statement → List String
    | [] => []
    | s :: ss => s.lines indent ++ linesOf indent ss

/-- The text of a drawing. -/
def Sheet.text (d : Sheet) : String :=
  String.join (("digraph " ++ d.name ++ " \x7b\n") :: Statement.lines.linesOf "  " d.body ++ ["\x7d\n"])

/-- The nodes of a statement. -/
def Statement.nodes : Statement → List Key
  | .node k _ => [k]
  | .cluster _ body => nodesOf body
  | _ => []
where
  /-- The nodes of several statements. -/
  nodesOf : List Statement → List Key
    | [] => []
    | s :: ss => s.nodes ++ nodesOf ss

/-- The edges of a statement. -/
def Statement.edges : Statement → List (Key × Key)
  | .edge s t _ => [(s, t)]
  | .cluster _ body => edgesOf body
  | _ => []
where
  /-- The edges of several statements. -/
  edgesOf : List Statement → List (Key × Key)
    | [] => []
    | s :: ss => s.edges ++ edgesOf ss

/-- Every node statement of a drawing, in order. -/
def Sheet.nodes (d : Sheet) : List Key :=
  Statement.nodes.nodesOf d.body

/-- Every edge statement of a drawing, in order. -/
def Sheet.edges (d : Sheet) : List (Key × Key) :=
  Statement.edges.edgesOf d.body

/-- A text in a font of markup, given by the font's properties. -/
def font (properties : List (String × String)) (text : String) : String :=
  "<font" ++ String.join (properties.map fun (n, v) => " " ++ n ++ "=\"" ++ v ++ "\"") ++ ">"
    ++ text ++ "</font>"

/-- The statements that put a title over a drawing. -/
def titleStatements (size color title : String) : List Statement :=
  [.setting "labelloc=t;", .setting "labeljust=l;",
   .setting ("label=<" ++ font [("face", "Helvetica Neue,Helvetica"), ("point-size", size),
      ("color", color)] (Text.escaped title) ++ ">;")]

end CallAtlas.Drawing
