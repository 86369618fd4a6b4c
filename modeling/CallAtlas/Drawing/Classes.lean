import CallAtlas.Drawing.Calls
import CallAtlas.Report.Stats
import CallAtlas.Text.Decimal

/-!
# Drawing of classes

The classes that call each other. Calls between two classes are drawn as one edge.
-/

namespace CallAtlas.Drawing

open CallGraph

namespace ClassChart

/-- The class of methods that belong to none. -/
def unowned : String := "(unowned)"

/-- A name, or that of no class. -/
def orUnowned (owner : String) : String :=
  if owner = "" then unowned else owner

/-- The classes of declared methods; of several methods of one name the last one counts. -/
def ownerTable (funcs : List Func) : Std.HashMap String String :=
  lastTable (funcs.map fun f => (f.name, orUnowned f.owner))

/-- The class that the name of a method starts with, empty if there is none: the parameters are cut off, and
    then all from the last dot on. -/
def ownerInName (name : String) : String :=
  String.ofList (Text.beforeLast '.' (Text.beforeFirst '(' name.toList))

/-- The class of a method, from its name if it is not declared. -/
def ownerOf (owners : Std.HashMap String String) (name : String) : String :=
  owners.getD name (orUnowned (ownerInName name))

/-- A call between two classes, and whether its target is declared. -/
structure Crossing where
  source : String
  target : String
  declared : Bool

/-- The calls that lead from one class to another. -/
def crossings (funcs : List Func) (calls : List Call) : List Crossing :=
  let owners := ownerTable funcs
  (calls.map fun c => (⟨ownerOf owners c.source, ownerOf owners c.target,
    owners.contains c.target⟩ : Crossing)).filter fun x => x.source != x.target

/-- The classes with the number of calls that enter or leave each, most first. -/
def ranking (xs : List Crossing) : List Report.Count :=
  (Report.tally (xs.flatMap fun x => [x.source, x.target])).mergeSort Report.Count.le

/-- The number of declared methods of each class. -/
def methodCounts (funcs : List Func) : Std.HashMap String Nat :=
  countTable (funcs.map fun f => orUnowned f.owner)

/-- Pairs of texts in ascending order. -/
def pairLe (a b : String × String) : Bool :=
  ((compare a.1 b.1).then (compare a.2 b.2)).isLE

/-- The pairs of classes with calls between them, ascending. -/
def pairs (xs : List Crossing) : List (String × String) :=
  dropRepeats ((xs.map fun x => (x.source, x.target)).mergeSort pairLe)

/-- The number of calls from each class to each other. -/
def pairCounts (xs : List Crossing) : Std.HashMap (String × String) Nat :=
  countTable (xs.map fun x => (x.source, x.target))

/-- The greatest of numbers, at least one. -/
def atLeastOne (ns : List Nat) : Nat :=
  ns.foldl max 1

/-- The node of a class with a number of methods. -/
def classNode (theme : Theme) (isExternal : Bool) (methods most : Nat) (name : String) :
    Statement :=
  let sub := if isExternal then "external" else s!"{methods} methods"
  let label := font [("point-size", "10")] (Text.escaped name) ++ "<br/>"
    ++ font [("point-size", "7"), ("color", theme.externalText)] sub
  .node (.named name) ([.markup label]
    ++ (if isExternal || name == unowned then [.quoted "fillcolor" theme.abstractFill] else [])
    ++ [.bare "height" (Text.decimal 2 (Text.logScale 0.4 0.3 methods most))])

/-- The edge of `n` calls between two classes. -/
def classEdge (theme : Theme) (isExternal : Bool) (n most : Nat) (p : String × String) :
    Statement :=
  let color := if isExternal then theme.edgeExternal else theme.edgeDirect
  .edge (.named p.1) (.named p.2)
    ([.quoted "color" color,
      .bare "penwidth" (Text.decimal 1 (Text.logScale 0.5 2.0 n most))]
      ++ (if 1 < n then
          [.markup (font [("point-size", "7"), ("color", theme.externalText)] (toString n))]
        else []))

end ClassChart

open ClassChart in
/-- The drawing of the calls between classes, at most `maxNodes` of them. -/
def classDrawing (theme : Theme) (title : String) (maxNodes : Int) (funcs : List Func)
    (calls : List Call) : Sheet :=
  let xs := crossings funcs calls
  let external := setOf ((xs.filter fun x => !x.declared).map Crossing.target)
  let shown := (limitTo maxNodes (ranking xs)).map Report.Count.name
  let isShown := setOf shown
  let methods := methodCounts funcs
  let mostMethods := atLeastOne (shown.map fun n => methods.getD n 0)
  let edges := (pairs xs).filter fun p => isShown.contains p.1 && isShown.contains p.2
  let calls := pairCounts xs
  let mostCalls := atLeastOne (edges.map fun p => calls.getD p 0)
  ⟨"classgraph", graphHeader theme title
      [.bare "shape" "rect", .quoted "style" "filled,rounded", .bare "fontsize" "10",
       .bare "height" "0.4", .quoted "margin" "0.15,0.08"]
    ++ shown.map (fun n =>
      classNode theme (external.contains n) (methods.getD n 0) mostMethods n) ++ [.blank]
    ++ edges.map fun p => classEdge theme (external.contains p.2) (calls.getD p 0) mostCalls p⟩

end CallAtlas.Drawing
