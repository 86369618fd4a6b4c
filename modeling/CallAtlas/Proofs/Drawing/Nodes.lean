import CallAtlas.Drawing.Classes
import CallAtlas.Drawing.Reach
import CallAtlas.Drawing.Signals
import CallAtlas.Proofs.CallGraph.Reachability
import CallAtlas.Proofs.Signal.Canonical
import CallAtlas.Proofs.Tables

/-!
# Every node is drawn once

In a drawing, each end of each edge should be drawn as a node, and only once (`Sheet.DrawsOnce`). The nodes
of methods are spread over clusters, one for each class with several methods, and a rest; these parts
together are the methods again, in another order (`perm_flatMap_filter_of_mem`). The edges are chosen among
those whose ends are shown.

In the drawing of calls, an edge stands for all calls of one kind between two methods, and its attributes show
how many they are (`CallChart.ShowsCalls`).
-/

namespace CallAtlas

namespace Drawing

open CallGraph

/-! ### The nodes and edges of statements -/

namespace Statement

/-- The nodes of statements in a row. -/
@[simp]
theorem nodesOf_append (ss ts : List Statement) : nodes.nodesOf (ss ++ ts) =
    nodes.nodesOf ss ++ nodes.nodesOf ts := by
  induction ss with
  | nil => rfl
  | cons s ss ih => rw [List.cons_append, nodes.nodesOf, nodes.nodesOf, ih, List.append_assoc]

/-- The edges of statements in a row. -/
@[simp]
theorem edgesOf_append (ss ts : List Statement) : edges.edgesOf (ss ++ ts) =
    edges.edgesOf ss ++ edges.edgesOf ts := by
  induction ss with
  | nil => rfl
  | cons s ss ih => rw [List.cons_append, edges.edgesOf, edges.edgesOf, ih, List.append_assoc]

/-- The nodes of statements that are made one by one, as `Statement.nodes` has them. -/
theorem nodesOf_map {α : Type} (f : α → Statement) (as : List α) :
    nodes.nodesOf (as.map f) = as.flatMap fun a => (f a).nodes := by
  induction as with
  | nil => rfl
  | cons a as ih => rw [List.map_cons, nodes.nodesOf, ih, List.flatMap_cons]

/-- The edges of statements that are made one by one, as `Statement.edges` has them. -/
theorem edgesOf_map {α : Type} (f : α → Statement) (as : List α) :
    edges.edgesOf (as.map f) = as.flatMap fun a => (f a).edges := by
  induction as with
  | nil => rfl
  | cons a as ih => rw [List.map_cons, edges.edgesOf, ih, List.flatMap_cons]

/-- The nodes of statements that are made several at a time. -/
private theorem nodesOf_flatMap {α : Type} (f : α → List Statement) (as : List α) :
    nodes.nodesOf (as.flatMap f) = as.flatMap fun a => nodes.nodesOf (f a) := by
  induction as with
  | nil => rfl
  | cons a as ih => rw [List.flatMap_cons, nodesOf_append, ih, List.flatMap_cons]

/-- The edges of statements that are made several at a time. -/
private theorem edgesOf_flatMap {α : Type} (f : α → List Statement) (as : List α) :
    edges.edgesOf (as.flatMap f) = as.flatMap fun a => edges.edgesOf (f a) := by
  induction as with
  | nil => rfl
  | cons a as ih => rw [List.flatMap_cons, edgesOf_append, ih, List.flatMap_cons]

theorem nodesOf_blank : nodes.nodesOf [.blank] = [] :=
  rfl

theorem edgesOf_blank : edges.edgesOf [.blank] = [] :=
  rfl

/-- Statements that draw a node each. -/
theorem nodesOf_map_node {α : Type} {f : α → Statement} (key : α → Key) (h : ∀ a, (f a).nodes = [key a])
    (as : List α) : nodes.nodesOf (as.map f) = as.map key := by
  rw [nodesOf_map, List.map_eq_flatMap]
  simp only [h]

/-- Statements that draw no node. -/
theorem nodesOf_map_eq_nil {α : Type} {f : α → Statement} (h : ∀ a, (f a).nodes = []) (as : List α) :
    nodes.nodesOf (as.map f) = [] := by
  simp [nodesOf_map, h]

/-- Statements that draw an edge each. -/
theorem edgesOf_map_edge {α : Type} {f : α → Statement} {ends : α → Key × Key}
    (h : ∀ a, (f a).edges = [ends a]) (as : List α) : edges.edgesOf (as.map f) = as.map ends := by
  rw [edgesOf_map, List.map_eq_flatMap]
  simp only [h]

/-- Statements that draw no edge. -/
theorem edgesOf_map_eq_nil {α : Type} {f : α → Statement} (h : ∀ a, (f a).edges = []) (as : List α) :
    edges.edgesOf (as.map f) = [] := by
  simp [edgesOf_map, h]

/-- A `classCluster` has the nodes of the statements inside. -/
@[simp]
theorem nodes_classCluster (theme : Theme) (owner : String) (ss : List Statement) :
    (classCluster theme owner ss).nodes = nodes.nodesOf ss :=
  rfl

/-- A `classCluster` for each class has the nodes inside all of them. -/
private theorem nodesOf_map_classCluster (theme : Theme) (body : String → List Statement)
    (owners : List String) : nodes.nodesOf (owners.map fun o => classCluster theme o (body o)) =
      owners.flatMap fun o => nodes.nodesOf (body o) :=
  nodesOf_map _ owners

/-- A `classCluster` has the edges of the statements inside. -/
@[simp]
theorem edges_classCluster (theme : Theme) (owner : String) (ss : List Statement) :
    (classCluster theme owner ss).edges = edges.edgesOf ss :=
  rfl

/-- A `graphHeader` draws no node. -/
@[simp]
theorem nodesOf_graphHeader (theme : Theme) (title : String) (node : List Attribute) :
    nodes.nodesOf (graphHeader theme title node) = [] := by
  unfold graphHeader
  split <;> rfl

/-- A `graphHeader` draws no edge. -/
@[simp]
theorem edgesOf_graphHeader (theme : Theme) (title : String) (node : List Attribute) :
    edges.edgesOf (graphHeader theme title node) = [] := by
  unfold graphHeader
  split <;> rfl

end Statement

open Statement

/-! ### What attributes show -/

/-- The value of the first attribute of this name. -/
def valueOf? (name : String) (as : List Attribute) : Option Value :=
  (as.find? fun a => a.name == name).map Attribute.value

/-- The markup of a text in a size and a colour. -/
def sizedText (size color text : String) : String :=
  "<font point-size=\"" ++ size ++ "\" color=\"" ++ color ++ "\">" ++ text ++ "</font>"

/-- `font` with a size and a colour gives the markup of `sizedText`. -/
theorem font_eq_sizedText (size color text : String) :
    font [("point-size", size), ("color", color)] text = sizedText size color text := by
  have hopen : "<font point-size=\"" = "<font" ++ (" " ++ ("point-size" ++ "=\"")) := by decide
  have hcolor : "\" color=\"" = "\"" ++ (" " ++ ("color" ++ "=\"")) := by decide
  have hclose : "\">" = "\"" ++ ">" := by decide
  unfold font sizedText
  -- not `rw`, which would compare the two sides before they are cut into the same pieces
  rewrite [hopen, hcolor, hclose, List.map_cons, List.map_cons, List.map_nil, String.join_cons,
    String.join_cons, String.join_nil, String.append_empty]
  simp only [String.append_assoc]

/-- No node is drawn twice, and each end of an edge is drawn. -/
structure Sheet.DrawsOnce (d : Sheet) : Prop where
  nodup : d.nodes.Nodup
  ends : ∀ e ∈ d.edges, d.nodes.count e.1 = 1 ∧ d.nodes.count e.2 = 1

/-- A drawing without repeated nodes `DrawsOnce` if the ends of its edges are among them. -/
theorem Sheet.drawsOnce_of_mem {d : Sheet} (hnodup : d.nodes.Nodup)
    (hends : ∀ e ∈ d.edges, e.1 ∈ d.nodes ∧ e.2 ∈ d.nodes) : d.DrawsOnce :=
  ⟨hnodup, fun e he => ⟨List.count_eq_one_of_mem hnodup (hends e he).1,
    List.count_eq_one_of_mem hnodup (hends e he).2⟩⟩

/-- Nodes of different names are different. -/
theorem nodup_map_named {names : List String} (h : names.Nodup) : (names.map Key.named).Nodup :=
  h.map fun _ _ heq => Key.named.inj heq

/-! ### Calls -/

namespace CallChart

/-- `owners` are the classes with a name, none of them twice. -/
private theorem nodup_cons_owners (funcs : List Func) : ("" :: owners funcs).Nodup := by
  refine List.nodup_cons.2 ⟨fun h => ?_, Text.nodup_sortDistinct _⟩
  rw [owners, Text.mem_sortDistinct] at h
  simp at h

/-- The methods of each of the `owners`, and those of none, are all methods. -/
private theorem perm_flatMap_owners (funcs : List Func) :
    (("" :: owners funcs).flatMap fun o => funcs.filter fun f => f.owner == o).Perm funcs := by
  refine perm_flatMap_filter_of_mem (nodup_cons_owners funcs) fun f hf => ?_
  rw [List.mem_cons, owners, Text.mem_sortDistinct, List.mem_filter, bne_iff_ne]
  by_cases h : f.owner = ""
  · exact .inl h
  · exact .inr ⟨List.mem_map_of_mem hf, h⟩

/-- `funcNodes` draws each method once: in the cluster of its class, or behind all clusters. -/
theorem perm_nodesOf_funcNodes (theme : Theme) (funcs : List Func) :
    (nodes.nodesOf (funcNodes theme funcs)).Perm (funcs.map fun f => .named f.name) := by
  have hnode (label : Func → Text.RawText) (fs : List Func) :
      nodes.nodesOf (fs.map fun f => funcNode theme f (label f)) = fs.map fun f => Key.named f.name :=
    nodesOf_map_node _ (fun _ => rfl) fs
  -- clusters for the classes with two methods or more, then the methods of no class, then those alone in theirs
  have hnodes : nodes.nodesOf (funcNodes theme funcs) =
      ((((owners funcs).filter fun o => 2 ≤ (funcs.filter fun f => f.owner == o).length).flatMap
          fun o => funcs.filter fun f => f.owner == o) ++
        ((funcs.filter fun f => f.owner == "") ++
          ((owners funcs).filter fun o => !decide (2 ≤ (funcs.filter fun f => f.owner == o).length)).flatMap
            fun o => funcs.filter fun f => f.owner == o)).map fun f => .named f.name := by
    have halone (o : String) : decide ((funcs.filter fun f => f.owner == o).length < 2) =
        !decide (2 ≤ (funcs.filter fun f => f.owner == o).length) := by
      rw [← decide_not, decide_eq_decide]
      omega
    simp only [funcNodes, memberTable, getD_groups_map, nodesOf_append, nodesOf_map_classCluster, hnode, halone]
    simp only [List.map_append, List.map_flatMap]
  rw [hnodes]
  refine List.Perm.map _ ?_
  -- the methods without a class stand in the middle
  refine (List.perm_append_comm_assoc _ _ _).trans (.trans ?_ (perm_flatMap_owners funcs))
  rw [List.flatMap_cons, ← List.flatMap_append]
  exact ((List.filter_append_perm _ _).flatMap_right _).append_left _

/-- `funcNodes` draws no edge. -/
theorem edgesOf_funcNodes (theme : Theme) (funcs : List Func) : edges.edgesOf (funcNodes theme funcs) = [] := by
  have hnode (label : Func → Text.RawText) (fs : List Func) :
      edges.edgesOf (fs.map fun f => funcNode theme f (label f)) = [] := edgesOf_map_eq_nil (fun _ => rfl) fs
  simp [funcNodes, edgesOf_map, hnode]

section
variable (theme : Theme) (title : String) (maxNodes : Int) (funcs : List Func) (calls : List Call)

/-- `shownFuncs` are some of all methods, in their order. -/
private theorem shownFuncs_sublist : (shownFuncs funcs calls maxNodes).Sublist funcs := by
  unfold shownFuncs limitTo
  split
  · exact (List.take_sublist _ _).trans List.filter_sublist
  · exact List.filter_sublist

variable {calls} in
/-- `outside` are the methods that are called from a shown one, but not shown themselves. -/
private theorem mem_outside {shown : Std.HashSet String} {n : String} :
    n ∈ outside shown calls ↔ n ∉ shown ∧ ∃ c ∈ calls, c.source ∈ shown ∧ c.target = n := by
  rw [outside, Text.mem_sortDistinct]
  simp only [List.mem_map, List.mem_filter, Bool.and_eq_true, Bool.not_eq_true',
    ← Std.HashSet.mem_iff_contains, Std.HashSet.contains_eq_false_iff_not_mem]
  constructor
  · rintro ⟨c, ⟨hc, hsource, htarget⟩, rfl⟩
    exact ⟨htarget, c, hc, hsource, rfl⟩
  · rintro ⟨htarget, c, hc, hsource, rfl⟩
    exact ⟨c, ⟨hc, hsource, htarget⟩, rfl⟩

/-- The names of the methods that are drawn, and of those outside that they call. -/
def drawnNames (maxNodes : Int) (funcs : List Func) (calls : List Call) : List String :=
  (shownFuncs funcs (named calls) maxNodes).map Func.name ++
    outside (setOf ((shownFuncs funcs (named calls) maxNodes).map Func.name)) (named calls)

/-- The statements in front of the edges. -/
def front (funcs : List Func) (outside : List String) : List Statement :=
  graphHeader theme title (methodShape "0.12,0.06") ++ funcNodes theme funcs ++ [.blank]
    ++ outside.map (outsideNode theme) ++ [.blank]

/-- The statements of `callDrawing`: the `front`, and an edge for each call of a shown method. -/
theorem body_callDrawing : (callDrawing theme title maxNodes funcs calls).body =
    front theme title (shownFuncs funcs (named calls) maxNodes)
        (outside (setOf ((shownFuncs funcs (named calls) maxNodes).map Func.name)) (named calls)) ++
      ((distinct (named calls)).filter fun c =>
        (setOf ((shownFuncs funcs (named calls) maxNodes).map Func.name)).contains c.source).map
          fun c => callEdge theme c ((countTable (named calls)).getD c 0) :=
  rfl

/-- The `front` draws the methods and the names outside. -/
private theorem perm_nodesOf_front (names : List String) : (nodes.nodesOf (front theme title funcs names)).Perm
    ((funcs.map Func.name ++ names).map Key.named) := by
  have houtside : nodes.nodesOf (names.map (outsideNode theme)) = names.map Key.named :=
    nodesOf_map_node _ (fun _ => rfl) names
  simp only [front, nodesOf_append, nodesOf_graphHeader, houtside, nodesOf_blank, List.nil_append,
    List.append_nil, List.map_append, List.map_map]
  exact (perm_nodesOf_funcNodes theme funcs).append_right _

/-- The `front` draws no edge. -/
private theorem edgesOf_front (names : List String) : edges.edgesOf (front theme title funcs names) = [] := by
  have houtside : edges.edgesOf (names.map (outsideNode theme)) = [] := edgesOf_map_eq_nil (fun _ => rfl) names
  simp only [front, edgesOf_append, edgesOf_graphHeader, edgesOf_funcNodes, houtside, edgesOf_blank,
    List.nil_append]

/-- The nodes of `callDrawing` are `drawnNames`. -/
private theorem perm_nodes_callDrawing : (callDrawing theme title maxNodes funcs calls).nodes.Perm
    ((drawnNames maxNodes funcs calls).map Key.named) := by
  rw [Sheet.nodes, body_callDrawing, nodesOf_append, nodesOf_map_eq_nil fun _ => rfl, List.append_nil]
  exact perm_nodesOf_front theme title _ _

/-- The edges of `callDrawing` are the different calls of shown methods. -/
private theorem edges_callDrawing : (callDrawing theme title maxNodes funcs calls).edges =
    ((distinct (named calls)).filter fun c =>
      (setOf ((shownFuncs funcs (named calls) maxNodes).map Func.name)).contains c.source).map
        fun c => (.named c.source, .named c.target) := by
  rw [Sheet.edges, body_callDrawing, edgesOf_append, edgesOf_front, List.nil_append]
  exact edgesOf_map_edge (fun _ => rfl) _

variable {funcs} in
/-- `callDrawing` `DrawsOnce` if methods have names of their own. -/
private theorem drawsOnce_callDrawing (hfuncs : (funcs.map Func.name).Nodup) :
    (callDrawing theme title maxNodes funcs calls).DrawsOnce := by
  have hperm := perm_nodes_callDrawing theme title maxNodes funcs calls
  have hshown : ((shownFuncs funcs (named calls) maxNodes).map Func.name).Nodup :=
    hfuncs.sublist ((shownFuncs_sublist maxNodes funcs _).map Func.name)
  have hmem : ∀ n, n ∈ setOf ((shownFuncs funcs (named calls) maxNodes).map Func.name) ↔
      n ∈ (shownFuncs funcs (named calls) maxNodes).map Func.name := by
    intro n
    rw [Std.HashSet.mem_iff_contains, contains_setOf, List.contains_iff_mem]
  -- what is `outside` is not shown
  have hnodup : (drawnNames maxNodes funcs calls).Nodup := by
    refine List.nodup_append.2 ⟨hshown, Text.nodup_sortDistinct _, fun n hn m hm hnm => ?_⟩
    exact (mem_outside.1 hm).1 ((hmem m).2 (hnm ▸ hn))
  refine Sheet.drawsOnce_of_mem (hperm.nodup_iff.2 (nodup_map_named hnodup)) fun e he => ?_
  rw [edges_callDrawing] at he
  obtain ⟨c, hc, rfl⟩ := List.mem_map.1 he
  obtain ⟨hc, hsource⟩ := List.mem_filter.1 hc
  have hsource' := Std.HashSet.mem_iff_contains.2 hsource
  simp only [hperm.mem_iff]
  refine ⟨List.mem_map_of_mem (List.mem_append_left _ ((hmem _).1 hsource')), List.mem_map_of_mem ?_⟩
  -- a target is drawn with its class or outside
  by_cases htarget : c.target ∈ setOf ((shownFuncs funcs (named calls) maxNodes).map Func.name)
  · exact List.mem_append_left _ ((hmem _).1 htarget)
  · exact List.mem_append_right _ (mem_outside.2 ⟨htarget, c, mem_distinct.1 hc, hsource', rfl⟩)

end

/-- Calls that have both ends are all `named`. -/
private theorem named_eq_self {calls : List Call} (h : ∀ c ∈ calls, c.source ≠ "" ∧ c.target ≠ "") :
    named calls = calls := by
  rw [named, List.filter_eq_self]
  intro c hc
  simpa using h c hc

/-- Without a limit, every method at the end of a call is among `shownFuncs`. -/
private theorem mem_names_shownFuncs {funcs : List Func} {calls : List Call} {c : Call} (hc : c ∈ calls) :
    c.source ∈ (shownFuncs funcs calls 0).map Func.name ↔ c.source ∈ funcs.map Func.name := by
  have hshown : shownFuncs funcs calls 0 =
      funcs.filter fun f => (setOf (calls.flatMap fun c => [c.source, c.target])).contains f.name := rfl
  simp only [hshown, contains_setOf, List.mem_map, List.mem_filter, List.contains_iff_mem, List.mem_flatMap]
  constructor
  · rintro ⟨f, ⟨hf, -⟩, hname⟩
    exact ⟨f, hf, hname⟩
  · rintro ⟨f, hf, hname⟩
    exact ⟨f, ⟨hf, c, hc, by simp [hname]⟩, hname⟩

/-- The attributes of an edge show that `n` calls of a provenance are made: the provenance by colour and line,
    and the number by the width of the line from two calls on and in a label from three on. -/
structure ShowsCalls (theme : Theme) (p : Provenance) (n : Nat) (as : List Attribute) : Prop where
  color : valueOf? "color" as = some (.quoted (theme.edgeColor p))
  style : valueOf? "style" as = some (.quoted (edgeStyle p))
  width : valueOf? "penwidth" as =
    if 1 < n then some (.bare (toString ((5 + n) / 10) ++ "." ++ toString ((5 + n) % 10))) else none
  label : valueOf? "label" as =
    if 2 < n then some (.markup (sizedText "7" (theme.edgeColor p) (toString n ++ "x"))) else none

/-- A `callEdge` leads from the source of its call to the target and shows the number that it is given. -/
private theorem exists_callEdge (theme : Theme) (c : Call) (n : Nat) :
    ∃ as, callEdge theme c n = .edge (.named c.source) (.named c.target) as ∧
      ShowsCalls theme c.provenance n as := by
  refine ⟨_, rfl, ?_⟩
  -- three calls or more have both a width and a label, two have a width, and one has neither
  have htext (s : String) : toString s = s := rfl
  rcases (by omega : n ≤ 1 ∨ n = 2 ∨ 2 < n) with hone | rfl | hmany
  · constructor <;> simp [valueOf?, Attribute.quoted, show ¬ 1 < n by omega, show ¬ 2 < n by omega]
  · constructor <;> simp [valueOf?, Attribute.quoted, Attribute.bare, lineWidth, htext]
  · constructor <;> simp [valueOf?, Attribute.quoted, Attribute.bare, Attribute.markup, lineWidth, htext,
      font_eq_sizedText, show 1 < n by omega, hmany]

/-- Without a limit, the calls of each method are drawn as one edge for each target and provenance, which leads
    from `Call.source` to `Call.target` and shows how often `calls` has the call. -/
private theorem exists_triples_callDrawing (theme : Theme) (title : String) (funcs : List Func)
    {calls : List Call} (hcalls : ∀ c ∈ calls, c.source ≠ "" ∧ c.target ≠ "") :
    ∃ triples : List Call, triples.Nodup ∧
      (∀ c, c ∈ triples ↔ c ∈ calls ∧ c.source ∈ funcs.map Func.name) ∧
      (callDrawing theme title 0 funcs calls).edges =
        triples.map (fun c => (.named c.source, .named c.target)) ∧
      ∃ (front : List Statement) (attributes : Call → List Attribute),
        (callDrawing theme title 0 funcs calls).body =
          front ++ triples.map (fun c => .edge (.named c.source) (.named c.target) (attributes c)) ∧
        ∀ c ∈ triples, ShowsCalls theme c.provenance (calls.count c) (attributes c) := by
  have hnamed := named_eq_self hcalls
  have hbody := body_callDrawing theme title 0 funcs calls
  have hedges := edges_callDrawing theme title 0 funcs calls
  simp only [hnamed, getD_countTable] at hbody hedges
  -- for each call the attributes that `callEdge` gives it
  choose attributes hedge hshows using fun c => exists_callEdge theme c (calls.count c)
  simp only [hedge] at hbody
  refine ⟨_, (nodup_distinct calls).filter _, fun c => ?_, hedges, _, attributes, hbody, fun c _ => hshows c⟩
  rw [List.mem_filter, mem_distinct, contains_setOf, List.contains_iff_mem]
  exact and_congr_right fun hc => mem_names_shownFuncs hc

end CallChart

/-! ### Classes -/

namespace ClassChart

/-- `tally` counts each name once. -/
theorem names_tally (names : List String) : (Report.tally names).map Report.Count.name = distinct names := by
  rw [Report.tally, List.map_map]
  exact List.map_id _

/-- No class is in the `ranking` twice. -/
theorem nodup_names_ranking (xs : List Crossing) : ((ranking xs).map Report.Count.name).Nodup := by
  have hperm := (List.mergeSort_perm (Report.tally (xs.flatMap fun x => [x.source, x.target]))
    Report.Count.le).map Report.Count.name
  rw [names_tally] at hperm
  exact hperm.nodup_iff.2 (nodup_distinct _)

/-- The classes that are drawn. -/
def drawnClasses (maxNodes : Int) (funcs : List Func) (calls : List Call) : List String :=
  (limitTo maxNodes (ranking (crossings funcs calls))).map Report.Count.name

/-- `drawnClasses` are not repeated, cut off or not. -/
private theorem nodup_drawnClasses (maxNodes : Int) (funcs : List Func) (calls : List Call) :
    (drawnClasses maxNodes funcs calls).Nodup := by
  unfold drawnClasses limitTo
  split
  · exact (nodup_names_ranking _).sublist ((List.take_sublist _ _).map _)
  · exact nodup_names_ranking _

section
variable (theme : Theme) (title : String) (maxNodes : Int) (funcs : List Func) (calls : List Call)

/-- The nodes of `classDrawing` are `drawnClasses`. -/
theorem nodes_classDrawing : (classDrawing theme title maxNodes funcs calls).nodes =
    (drawnClasses maxNodes funcs calls).map Key.named := by
  rw [Sheet.nodes, classDrawing]
  simp only [nodesOf_append, nodesOf_graphHeader, nodesOf_blank, List.nil_append, List.append_nil]
  rw [nodesOf_map_node Key.named fun _ => rfl, nodesOf_map_eq_nil fun _ => rfl, List.append_nil]
  rfl

/-- The edges of `classDrawing` are the `pairs` of classes that are both drawn. -/
theorem edges_classDrawing : (classDrawing theme title maxNodes funcs calls).edges =
    ((pairs (crossings funcs calls)).filter fun p => (setOf (drawnClasses maxNodes funcs calls)).contains p.1 &&
      (setOf (drawnClasses maxNodes funcs calls)).contains p.2).map fun p => (.named p.1, .named p.2) := by
  rw [Sheet.edges, classDrawing]
  simp only [edgesOf_append, edgesOf_graphHeader, edgesOf_blank, List.nil_append, List.append_nil]
  rw [edgesOf_map_eq_nil fun _ => rfl, List.nil_append]
  exact edgesOf_map_edge (fun _ => rfl) _

/-- `classDrawing` `DrawsOnce`. -/
private theorem drawsOnce_classDrawing : (classDrawing theme title maxNodes funcs calls).DrawsOnce := by
  refine Sheet.drawsOnce_of_mem ?_ fun e he => ?_
  · rw [nodes_classDrawing]
    exact nodup_map_named (nodup_drawnClasses maxNodes funcs calls)
  · rw [edges_classDrawing] at he
    obtain ⟨p, hp, rfl⟩ := List.mem_map.1 he
    simp only [List.mem_filter, Bool.and_eq_true, contains_setOf, List.contains_iff_mem] at hp
    rw [nodes_classDrawing]
    exact ⟨List.mem_map_of_mem hp.2.1, List.mem_map_of_mem hp.2.2⟩

end
end ClassChart

/-! ### What can be reached -/

namespace ReachChart

/-- `ReachChart.nodes` draws each name once: in the cluster of its class, or loose. -/
private theorem perm_nodesOf_nodes (theme : Theme) (funcs : List Func) (entries names : List String) :
    (Statement.nodes.nodesOf (nodes theme funcs entries names)).Perm (names.map Key.named) := by
  have hnode (label : String → String) (ns : List String) : Statement.nodes.nodesOf (ns.map fun n =>
      node theme (ownerTable funcs) (setOf entries) 50 n (label n)) = ns.map Key.named :=
    nodesOf_map_node _ (fun _ => rfl) ns
  simp only [nodes, getD_groups_map, nodesOf_append, nodesOf_map_classCluster, hnode]
  rw [← List.map_flatMap, ← List.map_append]
  refine List.Perm.map _ ?_
  -- the clusters hold the methods whose class has one, and the rest is loose
  refine ((perm_flatMap_filter ((Text.nodup_sortDistinct _).filter _) _ names).append_right _).trans ?_
  refine .trans (.of_eq (congrArg (· ++ _) (List.filter_congr fun n hn => ?_)))
    (List.filter_append_perm _ names)
  rw [Bool.eq_iff_iff, List.contains_iff_mem, List.mem_filter, Text.mem_sortDistinct]
  exact and_iff_right (List.mem_map_of_mem hn)

/-- `ReachChart.nodes` draws no edge. -/
private theorem edgesOf_nodes (theme : Theme) (funcs : List Func) (entries names : List String) :
    Statement.edges.edgesOf (nodes theme funcs entries names) = [] := by
  have hnode (label : String → String) (ns : List String) : Statement.edges.edgesOf (ns.map fun n =>
      node theme (ownerTable funcs) (setOf entries) 50 n (label n)) = [] := edgesOf_map_eq_nil (fun _ => rfl) ns
  simp [nodes, edgesOf_map, hnode]

/-- `reachDrawing` `DrawsOnce`, whatever is reached. -/
private theorem drawsOnce_reachDrawing (theme : Theme) (title : String) (funcs : List Func) (calls : List Call)
    (reached entries : List String) : (reachDrawing theme title funcs calls reached entries).DrawsOnce := by
  -- entries are drawn even if no edge ends there
  have hnodes : (reachDrawing theme title funcs calls reached entries).nodes.Perm
      ((Text.sortDistinct ((edges reached calls).flatMap (fun e => [e.1, e.2]) ++ entries)).map Key.named) := by
    rw [Sheet.nodes, reachDrawing]
    simp only [nodesOf_append, nodesOf_graphHeader, nodesOf_blank, List.nil_append, List.append_nil]
    rw [nodesOf_map_eq_nil fun _ => rfl, List.append_nil]
    exact perm_nodesOf_nodes theme funcs entries _
  have hedges : (reachDrawing theme title funcs calls reached entries).edges =
      (distinct (edges reached calls)).map fun e => (.named e.1, .named e.2) := by
    rw [Sheet.edges, reachDrawing]
    simp only [edgesOf_append, edgesOf_graphHeader, edgesOf_nodes, edgesOf_blank, List.nil_append]
    exact edgesOf_map_edge (fun _ => rfl) _
  have hnodup := hnodes.nodup_iff.2 (nodup_map_named (Text.nodup_sortDistinct _))
  refine Sheet.drawsOnce_of_mem hnodup fun e he => ?_
  rw [hedges] at he
  obtain ⟨p, hp, rfl⟩ := List.mem_map.1 he
  -- the names to draw are collected from the edges
  have hmem : ∀ n ∈ [p.1, p.2], n ∈ Text.sortDistinct
      ((edges reached calls).flatMap (fun e => [e.1, e.2]) ++ entries) := by
    intro n hn
    rw [Text.mem_sortDistinct]
    exact List.mem_append_left _ (List.mem_flatMap.2 ⟨p, mem_distinct.1 hp, hn⟩)
  simp only [hnodes.mem_iff]
  exact ⟨List.mem_map_of_mem (hmem p.1 (by simp)), List.mem_map_of_mem (hmem p.2 (by simp))⟩

end ReachChart

/-! ### Signal graphs -/

namespace SignalChart

open Signal

/-- The `members` of each class are all methods. -/
private theorem perm_flatMap_members (funcs : List Signal.Func) :
    ((Text.sortDistinct (funcs.map Signal.Func.owner)).flatMap (members funcs)).Perm funcs := by
  -- members are sorted in each class, which only changes their order
  have hmembers : ((Text.sortDistinct (funcs.map Signal.Func.owner)).flatMap (members funcs)).Perm
      ((Text.sortDistinct (funcs.map Signal.Func.owner)).flatMap
        fun o => funcs.filter fun f => f.owner == o) :=
    List.Perm.flatMap_left _ fun o _ => List.mergeSort_perm _ _
  refine hmembers.trans (perm_flatMap_filter_of_mem (Text.nodup_sortDistinct _) fun f hf => ?_)
  exact Text.mem_sortDistinct.2 (List.mem_map_of_mem hf)

/-- `funcNodes` draws each method of a signal graph once, in a cluster or not. -/
theorem perm_nodesOf_funcNodes (theme : Theme) (funcs : List Signal.Func) :
    (nodes.nodesOf (funcNodes theme funcs)).Perm (funcs.map fun f => .named f.name) := by
  have hnode (fs : List Signal.Func) :
      nodes.nodesOf (fs.map (funcNode theme)) = fs.map fun f => Key.named f.name :=
    nodesOf_map_node _ (fun _ => rfl) fs
  have hclass (o : String) : nodes.nodesOf (if o = "" then (members funcs o).map (funcNode theme)
      else [classCluster theme o ((members funcs o).map (funcNode theme))]) =
        (members funcs o).map fun f => .named f.name := by
    split
    · exact hnode _
    · rw [← hnode, nodes.nodesOf, nodes.nodesOf, List.append_nil, nodes_classCluster]
  simp only [funcNodes, nodesOf_flatMap, hclass]
  rw [← List.map_flatMap]
  exact (perm_flatMap_members funcs).map _

/-- `funcNodes` draws no edge of a signal graph. -/
theorem edgesOf_funcNodes (theme : Theme) (funcs : List Signal.Func) :
    edges.edgesOf (funcNodes theme funcs) = [] := by
  have hnode (fs : List Signal.Func) : edges.edgesOf (fs.map (funcNode theme)) = [] :=
    edgesOf_map_eq_nil (fun _ => rfl) fs
  rw [funcNodes, edgesOf_flatMap, List.flatMap_eq_nil_iff]
  intro o _
  split
  · exact hnode _
  · rw [edges.edgesOf, edges.edgesOf, List.append_nil, edges_classCluster, hnode]

/-- `apiNodes` draws a leaf for each sensitive method. -/
private theorem nodesOf_apiNodes (theme : Theme) (names : List String) :
    nodes.nodesOf (apiNodes theme names) = names.map Key.api := by
  have hnode : nodes.nodesOf (names.map (apiNode theme)) = names.map Key.api :=
    nodesOf_map_node _ (fun _ => rfl) names
  unfold apiNodes
  split
  · rename_i hempty
    rw [List.isEmpty_iff.1 hempty]
    rfl
  · exact hnode

/-- `apiNodes` draws no edge. -/
private theorem edgesOf_apiNodes (theme : Theme) (names : List String) :
    edges.edgesOf (apiNodes theme names) = [] := by
  have hnode : edges.edgesOf (names.map (apiNode theme)) = [] := edgesOf_map_eq_nil (fun _ => rfl) names
  unfold apiNodes
  split
  · rfl
  · exact hnode

section
variable (theme : Theme) (title : String) (g : Graph)

/-- The nodes of `signalDrawing` are the methods of the graph, and the `apis` as leaves. -/
private theorem perm_nodes_signalDrawing : (signalDrawing theme title g).nodes.Perm
    ((g.funcs.map Signal.Func.name).map Key.named ++ (apis g.edges).map Key.api) := by
  have hlinks : nodes.nodesOf (g.edges.map (link theme)) = [] := by
    refine nodesOf_map_eq_nil (fun l => ?_) _
    unfold link
    split <;> rfl
  rw [Sheet.nodes, signalDrawing]
  simp only [nodesOf_append, nodesOf_graphHeader, nodesOf_apiNodes, nodesOf_blank, hlinks, List.nil_append,
    List.append_nil, List.map_map]
  exact (perm_nodesOf_funcNodes theme g.funcs).append_right _

/-- The edges of `signalDrawing` are the links of the graph. Those to a sensitive method end at its leaf. -/
private theorem edges_signalDrawing : (signalDrawing theme title g).edges = g.edges.map fun l =>
    (.named l.source, if l.sensitive then .api l.target else .named l.target) := by
  rw [Sheet.edges, signalDrawing]
  simp only [edgesOf_append, edgesOf_graphHeader, edgesOf_funcNodes, edgesOf_apiNodes, edgesOf_blank,
    List.nil_append]
  refine edgesOf_map_edge (fun l => ?_) _
  unfold link
  split <;> rfl

variable {g} in
/-- `signalDrawing` `DrawsOnce` if methods are listed once, and links lead from one of them to others, or to
    sensitive methods. -/
private theorem drawsOnce_signalDrawing (hnodup : (g.funcs.map Signal.Func.name).Nodup)
    (hsource : ∀ l ∈ g.edges, l.source ∈ g.funcs.map Signal.Func.name)
    (htarget : ∀ l ∈ g.edges, l.sensitive = false → l.target ∈ g.funcs.map Signal.Func.name) :
    (signalDrawing theme title g).DrawsOnce := by
  have hperm := perm_nodes_signalDrawing theme title g
  have hapis : ((apis g.edges).map Key.api).Nodup :=
    (Text.nodup_sortDistinct _).map fun _ _ heq => Key.api.inj heq
  -- a method and a leaf have keys of different kinds
  have hapart : ∀ k ∈ (g.funcs.map Signal.Func.name).map Key.named, ∀ k' ∈ (apis g.edges).map Key.api,
      k ≠ k' := by
    intro k hk k' hk'
    obtain ⟨n, -, rfl⟩ := List.mem_map.1 hk
    obtain ⟨n', -, rfl⟩ := List.mem_map.1 hk'
    exact Key.noConfusion
  refine Sheet.drawsOnce_of_mem (hperm.nodup_iff.2 (List.nodup_append.2
    ⟨nodup_map_named hnodup, hapis, hapart⟩)) fun e he => ?_
  rw [edges_signalDrawing] at he
  obtain ⟨l, hl, rfl⟩ := List.mem_map.1 he
  simp only [hperm.mem_iff]
  refine ⟨List.mem_append_left _ (List.mem_map_of_mem (hsource l hl)), ?_⟩
  -- a link ends at a leaf or at another method
  by_cases hsensitive : l.sensitive = true
  · rw [if_pos hsensitive]
    refine List.mem_append_right _ (List.mem_map_of_mem ?_)
    rw [apis, Text.mem_sortDistinct]
    exact List.mem_map_of_mem (List.mem_filter.2 ⟨hl, hsensitive⟩)
  · rw [if_neg hsensitive]
    exact List.mem_append_left _ (List.mem_map_of_mem (htarget l hl (Bool.not_eq_true _ ▸ hsensitive)))

end

/-- `signalDrawing` of a graph that `build` makes `DrawsOnce`. -/
private theorem drawsOnce_build (theme : Theme) (title : String) (rules : List Rule) (naming : Naming)
    (hops : Int) (edges : List Edge) (declarations : List Location) :
    (signalDrawing theme title (build rules naming hops edges declarations)).DrawsOnce := by
  refine drawsOnce_signalDrawing theme title ?_ (fun l hl => ?_) fun l hl hplain => ?_
  · exact (perm_names_build rules naming hops edges declarations).nodup_iff.2
      (nodup_keptNames rules naming hops edges declarations)
  · obtain ⟨f, hf, hsource, -⟩ := mem_edges_build.1 hl
    exact hsource ▸ List.mem_map_of_mem hf
  · obtain ⟨f, -, -, ⟨-, -, htarget⟩ | ⟨hsensitive, -⟩⟩ := mem_edges_build.1 hl
    · exact htarget
    · exact absurd (hplain.symm.trans hsensitive) Bool.false_ne_true

/-- The `signalDrawing` of `startingCalls` has an edge to the sensitive method. -/
private theorem exec_mem_edges_starting :
    (.named "A.f", .api "java.lang.Runtime.exec") ∈ (signalDrawing .standard ""
    (build standardRules .short 1 startingCalls startingDeclarations)).edges := by
  have hname : Naming.short.name startingCalls[0].caller = "A.f" := by decide +kernel
  have htarget : Naming.short.name startingCalls[0].callee = "java.lang.Runtime.exec" := by decide +kernel
  have hlink : ⟨Naming.short.name startingCalls[0].caller, Naming.short.name startingCalls[0].callee, true⟩ ∈
      (build standardRules .short 1 startingCalls startingDeclarations).edges :=
    sensitive_mem_edges_of_call (List.getElem_mem _) callsSensitive_starting.2
  rw [hname, htarget] at hlink
  rw [edges_signalDrawing]
  exact List.mem_map.2 ⟨_, hlink, rfl⟩

end SignalChart

/-! ### All drawings -/

/-- All drawings are such that each node is drawn once, those at the ends of edges among them (`DrawsOnce`). In
    `callDrawing` the calls of each method are one edge for each target and provenance, which shows their number
    (`ShowsCalls`). -/
theorem drawsOnce_drawings (theme : Theme) (title : String) (maxNodes : Int) {funcs : List Func}
    {calls : List Call} (hfuncs : (funcs.map Func.name).Nodup)
    (hcalls : ∀ c ∈ calls, c.source ≠ "" ∧ c.target ≠ "") :
    (callDrawing theme title maxNodes funcs calls).DrawsOnce ∧
    (classDrawing theme title maxNodes funcs calls).DrawsOnce ∧
    (∀ entries, (reachDrawing theme title funcs calls (reachable entries calls) entries).DrawsOnce) ∧
    (∀ (rules : List Signal.Rule) (naming : Naming) (hops : Int) (edges : List Edge)
      (declarations : List Location),
      (signalDrawing theme title (Signal.build rules naming hops edges declarations)).DrawsOnce) ∧
    ∃ triples : List Call, triples.Nodup ∧
      (∀ c, c ∈ triples ↔ c ∈ calls ∧ c.source ∈ funcs.map Func.name) ∧
      (callDrawing theme title 0 funcs calls).edges =
        triples.map (fun c => (.named c.source, .named c.target)) ∧
      ∃ (front : List Statement) (attributes : Call → List Attribute),
        (callDrawing theme title 0 funcs calls).body =
          front ++ triples.map (fun c => .edge (.named c.source) (.named c.target) (attributes c)) ∧
        ∀ c ∈ triples, CallChart.ShowsCalls theme c.provenance (calls.count c) (attributes c) :=
  ⟨CallChart.drawsOnce_callDrawing theme title maxNodes calls hfuncs,
    ClassChart.drawsOnce_classDrawing theme title maxNodes funcs calls,
    fun entries => ReachChart.drawsOnce_reachDrawing theme title funcs calls (reachable entries calls) entries,
    SignalChart.drawsOnce_build theme title,
    CallChart.exists_triples_callDrawing theme title funcs hcalls⟩

/-- The calls of `diamond`, with the one that leads outside made three times. -/
def repeatedCalls : List Call :=
  diamond.calls ++ [⟨"d", "z", .external⟩, ⟨"d", "z", .external⟩]

/-- `drawsOnce_drawings` on `diamond` and `repeatedCalls`: a method that is not declared is drawn once as well.
    The three calls to it are one edge, whose label has their number. In the `signalDrawing` of `startingCalls`
    the sensitive method that is called is a leaf, once. -/
theorem drawsOnce_drawings_diamond :
    (diamond.funcs.map Func.name).Nodup ∧ (∀ c ∈ repeatedCalls, c.source ≠ "" ∧ c.target ≠ "") ∧
    (callDrawing .standard "" 2 diamond.funcs repeatedCalls).DrawsOnce ∧
    (classDrawing .standard "" 2 diamond.funcs repeatedCalls).DrawsOnce ∧
    (reachDrawing .standard "" diamond.funcs repeatedCalls (reachable ["c"] repeatedCalls) ["c"]).DrawsOnce ∧
    (signalDrawing .standard "" (Signal.build Signal.standardRules .short 1 Signal.startingCalls
      Signal.startingDeclarations)).nodes.count (.api "java.lang.Runtime.exec") = 1 ∧
    (callDrawing .standard "" 0 diamond.funcs repeatedCalls).edges.count (.named "d", .named "z") = 1 ∧
    ∃ as, .edge (.named "d") (.named "z") as ∈ (callDrawing .standard "" 0 diamond.funcs repeatedCalls).body ∧
      valueOf? "label" as = some (.markup (sizedText "7" (Theme.standard.edgeColor .external) "3x")) := by
  have hfuncs : (diamond.funcs.map Func.name).Nodup := by decide
  have hcalls : ∀ c ∈ repeatedCalls, c.source ≠ "" ∧ c.target ≠ "" := by decide
  obtain ⟨hcall, hclass, hreach, hsignal, triples, hnodup, htriples, hedges, front, attributes, hbody,
    hshows⟩ := drawsOnce_drawings .standard "" 2 hfuncs hcalls
  have hdrawn : (⟨"d", "z", .external⟩ : Call) ∈ triples := (htriples _).2 (by decide)
  -- the leaf is the end of an edge, and so drawn once
  have hlink := SignalChart.exec_mem_edges_starting
  refine ⟨hfuncs, hcalls, hcall, hclass, hreach ["c"], ((hsignal _ _ _ _ _).ends _ hlink).2, ?_,
    attributes ⟨"d", "z", .external⟩, ?_, ?_⟩
  · -- no other call has both ends, so that the ends stand for the triple
    have honly : ∀ c ∈ triples, c.source = "d" → c.target = "z" → c = ⟨"d", "z", .external⟩ := by
      intro c hc
      have hall : ∀ c ∈ repeatedCalls, c.source = "d" → c.target = "z" → c = ⟨"d", "z", .external⟩ := by decide
      exact hall c ((htriples c).1 hc).1
    have hcount : triples.count ⟨"d", "z", .external⟩ = 1 := List.count_eq_one_of_mem hnodup hdrawn
    rw [hedges, List.count_eq_countP, List.countP_map, ← hcount, List.count_eq_countP]
    refine List.countP_congr fun c hc => ?_
    simp only [Function.comp_apply, beq_iff_eq, Prod.mk.injEq, Key.named.injEq]
    constructor
    · exact fun h => honly c hc h.1 h.2
    · rintro rfl
      exact ⟨rfl, rfl⟩
  · rw [hbody]
    exact List.mem_append_right _ (List.mem_map.2 ⟨_, hdrawn, rfl⟩)
  · rw [(hshows _ hdrawn).label]
    have hcount : repeatedCalls.count ⟨"d", "z", .external⟩ = 3 := by decide
    rw [hcount]
    rfl

end Drawing
end CallAtlas
