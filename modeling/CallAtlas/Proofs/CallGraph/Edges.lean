import Mathlib.Algebra.BigOperators.Group.List.Basic
import Mathlib.Algebra.GroupWithZero.Nat
import Mathlib.Data.List.Perm.Basic
import CallAtlas.CallGraph.Edge
import CallAtlas.Proofs.Facts.History
import CallAtlas.Proofs.Orders
import CallAtlas.Proofs.Program.Overriding

/-!
# No call is lost on the way to a report

Every tuple of the relation of calls becomes one edge (`projects_of_relation?`), and the edges come in the
order of `Edge.InOrder`. Gathering them by caller keeps each of them under the name of its caller, in its
place (`gathers_ofEdges`). Names of callers may coincide. Whole locations of methods do not, so a caller
that is called by its location has its callees in the order of its lines (`pairwise_atOrBefore`).
-/

namespace CallAtlas

namespace CallGraph

open Facts

/-! ### Projecting -/

/-- The place of a call that is not known. -/
def noSite : Location :=
  ⟨"", "", Location.noOffset, 0⟩

/-- The edge says what the tuple says: who calls whom, and where if that is in the tuple. -/
structure Edge.Reads (e : Edge) (t : Tuple) : Prop where
  caller : t[0]? = some e.caller
  callee : t[1]? = some e.callee
  site : e.site = t[2]?.getD noSite

/-- The order of edges: by caller, then line, then position of the call, then callee. -/
def Edge.InOrder (a b : Edge) : Prop :=
  Location.cmp a.caller b.caller = .lt ∨ Location.cmp a.caller b.caller = .eq ∧
    (a.site.line < b.site.line ∨ a.site.line = b.site.line ∧
      (a.site.offset < b.site.offset ∨ a.site.offset = b.site.offset ∧
        Location.le a.callee b.callee = true))

/-- The edges are those of the tuples, each as often as it is there, in order. -/
structure Projects (ts : List Tuple) (edges : List Edge) : Prop where
  perm : ∃ us : List Tuple, us.Perm ts ∧ List.Forall₂ Edge.Reads edges us
  sorted : edges.Pairwise Edge.InOrder

namespace Edge

/-- `Edge.le` is the order `InOrder`. -/
private theorem le_iff_inOrder {a b : Edge} : le a b = true ↔ a.InOrder b := by
  simp only [le, cmp, InOrder, Ordering.isLE_then_iff_or, Std.compare_eq_lt, Std.compare_eq_iff_eq,
    Location.le]

instance : Std.TransCmp cmp := by
  have hcaller := transCmp_comap Location.cmp caller
  have hcallee := transCmp_comap Location.cmp callee
  have hcmp : cmp = compareLex (fun a b => Location.cmp a.caller b.caller)
      (compareLex (compareOn fun e => e.site.line) (compareLex (compareOn fun e => e.site.offset)
        fun a b => Location.cmp a.callee b.callee)) := rfl
  rw [hcmp]
  infer_instance

/-- `Edge.le` is a total preorder. -/
theorem totalPreorder_le : TotalPreorder le :=
  totalPreorder_cmp cmp

/-- `ofTuple?` makes an edge of a tuple of at least two locations, which says what the tuple says (`Reads`). -/
private theorem exists_reads {t : Tuple} (h : 2 ≤ t.length) : ∃ e, ofTuple? t = some e ∧ e.Reads t := by
  obtain _ | ⟨a, _ | ⟨b, _ | ⟨c, rest⟩⟩⟩ := t
  · simp at h
  · simp at h
  · exact ⟨_, rfl, rfl, rfl, rfl⟩
  · exact ⟨_, rfl, rfl, rfl, rfl⟩

/-- The edges of tuples of at least two locations say what the tuples say one by one (`Reads`), so none is
    passed over. -/
private theorem forall₂_reads {ts : List Tuple} (h : ∀ t ∈ ts, 2 ≤ t.length) :
    List.Forall₂ Reads (ts.filterMap ofTuple?) ts := by
  induction ts with
  | nil => exact .nil
  | cons t ts ih =>
    obtain ⟨e, he, hreads⟩ := exists_reads (h t List.mem_cons_self)
    rw [List.filterMap_cons_some he]
    exact .cons hreads (ih fun u hu => h u (List.mem_cons_of_mem t hu))

end Edge

/-- `project` gives the edges of the tuples of the relation of calls, each once and in order (`Projects`). -/
theorem projects_of_relation? {s : Store} {ts : List Tuple} (hs : s.relation? relInvocation = some ts)
    (hts : ∀ t ∈ ts, 2 ≤ t.length) : ∃ edges, project s = .ok edges ∧ Projects ts edges := by
  refine ⟨(ts.filterMap Edge.ofTuple?).mergeSort Edge.le, by simp [project, project?, hs], ?_, ?_⟩
  · -- sorting mixes the edges, and the tuples are put in the same order
    have hperm : ((ts.filterMap Edge.ofTuple?).mergeSort Edge.le).Perm (ts.filterMap Edge.ofTuple?) :=
      List.mergeSort_perm _ _
    obtain ⟨us, hreads, hus⟩ := List.perm_comp_forall₂ hperm (Edge.forall₂_reads hts)
    exact ⟨us, hus, hreads⟩
  · exact (Edge.totalPreorder_le.pairwise_mergeSort _).imp Edge.le_iff_inOrder.1

/-! ### Gathering -/

/-- The adjacency has all that the edges say about callers and callees, as a naming calls them. -/
structure Gathers (naming : Naming) (edges : List Edge) (a : Adjacency) : Prop where
  /-- Callers are listed once, ascending. -/
  ascending : a.names.Pairwise (· < ·)
  callers : ∀ n, n ∈ a.names ↔ ∃ e ∈ edges, naming.name e.caller = n
  /-- A caller has the callees of its edges, in their order, as often as they are there. -/
  callees : ∀ n, a.callees n =
    (edges.filter fun e => naming.name e.caller == n).map fun e => naming.name e.callee
  edgeCount : a.edgeCount = edges.length
  edgeCount_eq_sum : a.edgeCount = (a.names.map fun n => (a.callees n).length).sum

namespace Adjacency

/-- The `names` of `ofEdges` are those of the callers, sorted and each once. -/
theorem names_ofEdges (naming : Naming) (edges : List Edge) :
    (ofEdges naming edges).names = Text.sortDistinct (edges.map fun e => naming.name e.caller) := by
  simp [names, ofEdges, Function.comp_def]

/-- Looking for a name in a list of names. -/
private theorem find?_beq (names : List String) (n : String) :
    names.find? (· == n) = if n ∈ names then some n else none := by
  induction names with
  | nil => rfl
  | cons m names ih =>
    by_cases h : m = n
    · simp [h]
    · simp [h, Ne.symm h, ih]

/-- The `callees` of `ofEdges` under a name are those of the edges whose callers have it. There are none under a
    name that no caller has. -/
theorem callees_ofEdges (naming : Naming) (edges : List Edge) (n : String) :
    (ofEdges naming edges).callees n =
      (edges.filter fun e => naming.name e.caller == n).map fun e => naming.name e.callee := by
  have hgroup : (groups (edges.map fun e => (naming.name e.caller, naming.name e.callee))).getD n [] =
      (edges.filter fun e => naming.name e.caller == n).map fun e => naming.name e.callee := by
    rw [getD_groups, List.filter_map, List.map_map]
    rfl
  simp only [callees, ofEdges, List.find?_map, Function.comp_def, find?_beq, Text.mem_sortDistinct]
  split
  · exact hgroup
  · rename_i hnot
    -- a name that is not listed has no calls
    have hnone : (edges.filter fun e => naming.name e.caller == n) = [] := by
      rw [List.filter_eq_nil_iff]
      intro e he hname
      refine hnot ?_
      simp only [List.map_map, List.mem_map, Function.comp_apply]
      exact ⟨e, he, eq_of_beq hname⟩
    rw [hnone]
    rfl

/-- Elements are as many as there are under all names together, if each has one of the names. -/
private theorem sum_length_filter {α : Type} (f : α → String) {names : List String} (hnodup : names.Nodup)
    (es : List α) (h : ∀ e ∈ es, f e ∈ names) :
    (names.map fun n => (es.filter fun e => f e == n).length).sum = es.length := by
  -- along the names, each taking its elements away
  induction names generalizing es with
  | nil =>
    cases es with
    | nil => rfl
    | cons e es => exact absurd (h e List.mem_cons_self) List.not_mem_nil
  | cons n names ih =>
    obtain ⟨hnew, hrest⟩ := List.nodup_cons.1 hnodup
    -- what is not under the first name is counted under the others
    have hother := ih hrest (es.filter fun e => !(f e == n)) (by
      intro e he
      obtain ⟨hmem, hne⟩ := List.mem_filter.1 he
      rcases List.mem_cons.1 (h e hmem) with heq | hin
      · simp [heq] at hne
      · exact hin)
    have hsame : (names.map fun m => ((es.filter fun e => !(f e == n)).filter fun e => f e == m).length) =
        names.map fun m => (es.filter fun e => f e == m).length := by
      refine List.map_congr_left fun m hm => ?_
      have hmn : m ≠ n := fun heq => hnew (heq ▸ hm)
      rw [List.filter_filter]
      refine congrArg List.length (List.filter_congr fun e _ => ?_)
      by_cases hem : f e = m
      · simp [hem, hmn]
      · simp [hem]
    rw [hsame] at hother
    rw [List.map_cons, List.sum_cons, hother]
    exact (List.length_eq_length_filter_add fun e => f e == n).symm

/-- `edgeCount` is the number of `callees` under all `names` together. -/
theorem edgeCount_eq_sum (naming : Naming) (edges : List Edge) :
    (ofEdges naming edges).edgeCount =
      ((ofEdges naming edges).names.map fun n => ((ofEdges naming edges).callees n).length).sum := by
  -- the count is kept in an accumulator
  have hfold : ∀ (cs : List Caller) (k : Nat),
      cs.foldl (fun n c => n + c.callees.length) k = k + (cs.map fun c => c.callees.length).sum := by
    intro cs
    induction cs with
    | nil => intro k; rfl
    | cons c cs ih => intro k; rw [List.foldl_cons, ih, List.map_cons, List.sum_cons]; omega
  simp only [callees_ofEdges]
  rw [edgeCount, hfold, Nat.zero_add, names, List.map_map]
  simp only [ofEdges, List.map_map]
  refine congrArg List.sum (List.map_congr_left fun n _ => ?_)
  simp only [Function.comp_apply, getD_groups, List.filter_map, List.map_map]
  rfl

/-- `ofEdges` loses, invents, merges and reorders nothing (`Gathers`). -/
theorem gathers_ofEdges (naming : Naming) (edges : List Edge) :
    Gathers naming edges (ofEdges naming edges) := by
  have hascending : (ofEdges naming edges).names.Pairwise (· < ·) := by
    rw [names_ofEdges]
    exact Text.pairwise_sortDistinct _
  have hcallers : ∀ n, n ∈ (ofEdges naming edges).names ↔ ∃ e ∈ edges, naming.name e.caller = n := by
    intro n
    rw [names_ofEdges, Text.mem_sortDistinct, List.mem_map]
  have hnodup : (ofEdges naming edges).names.Nodup := by
    refine hascending.imp ?_
    rintro a b hlt rfl
    exact String.lt_irrefl a hlt
  -- every call is counted under the one name of its caller
  have hsum := sum_length_filter (fun e : Edge => naming.name e.caller) hnodup edges
    fun e he => (hcallers _).2 ⟨e, he, rfl⟩
  refine ⟨hascending, hcallers, callees_ofEdges naming edges, ?_, edgeCount_eq_sum naming edges⟩
  rw [edgeCount_eq_sum]
  simp only [callees_ofEdges, List.length_map]
  exact hsum

end Adjacency

/-! ### The calls of a program -/

open Program

/-- The call of one edge does not stand behind that of the other in the source. -/
def Edge.AtOrBefore (a b : Edge) : Prop :=
  a.site.line < b.site.line ∨ a.site.line = b.site.line ∧ a.site.offset ≤ b.site.offset

/-- Edges `InOrder` that have one caller are in the order of the source. -/
theorem Edge.InOrder.atOrBefore {a b : Edge} (h : a.InOrder b) (hcaller : a.caller = b.caller) :
    a.AtOrBefore b := by
  have heq : Location.cmp a.caller b.caller = .eq := Location.cmp_eq_iff.2 (by rw [hcaller])
  rcases h with hlt | ⟨-, hline | ⟨hline, hoffset | ⟨hoffset, -⟩⟩⟩
  · rw [heq] at hlt
    exact nomatch hlt
  · exact .inl hline
  · exact .inr ⟨hline, Int.le_of_lt hoffset⟩
  · exact .inr ⟨hline, Int.le_of_eq hoffset⟩

/-- Every edge that is projected says what one of the tuples says (`Reads`). -/
private theorem Projects.exists_reads {ts : List Tuple} {edges : List Edge} (h : Projects ts edges) {e : Edge}
    (he : e ∈ edges) : ∃ t ∈ ts, e.Reads t := by
  obtain ⟨us, hperm, hreads⟩ := h.perm
  obtain ⟨i, hi, rfl⟩ := List.getElem_of_mem he
  have hi' : i < us.length := hreads.length_eq ▸ hi
  exact ⟨us[i], hperm.mem_iff.1 (List.getElem_mem hi'), hreads.get hi hi'⟩

section
variable {dispatch : Dispatch} {cs : List LoadedClass} {failures : List LoadFailure}
  {warnings : List Diagnostic}

/-- The tuples of calls that `buildLoaded` stores start with the declaration of a loaded method. -/
private theorem exists_call_of_mem_tuples {t : Tuple}
    (ht : t ∈ (buildLoaded dispatch cs failures warnings).store.tuples relInvocation) :
    ∃ c ∈ cs, ∃ m ∈ c.methods, ∃ callee site, t = [m.declaration, callee, site] := by
  have hfact := (records_invocations dispatch cs failures warnings).subset t ht
  obtain ⟨c, hc, m, hm, -, -, s, -, l, -, rfl⟩ := mem_invocationFacts.1 hfact
  exact ⟨c, hc, m, hm, l, _, rfl⟩

/-- `project` succeeds on the store of `buildLoaded`. -/
private theorem projects_buildLoaded (dispatch : Dispatch) (cs : List LoadedClass)
    (failures : List LoadFailure) (warnings : List Diagnostic) :
    ∃ edges, project (buildLoaded dispatch cs failures warnings).store = .ok edges ∧
      Projects ((buildLoaded dispatch cs failures warnings).store.tuples relInvocation) edges := by
  apply projects_of_relation? (relation?_invocation dispatch cs failures warnings)
  intro t ht
  obtain ⟨c, -, m, -, callee, site, rfl⟩ := exists_call_of_mem_tuples ht
  simp

/-- The callers in a program are methods. -/
private theorem isMethod_caller (hcs : IsProgram cs) {edges : List Edge}
    (h : Projects ((buildLoaded dispatch cs failures warnings).store.tuples relInvocation) edges)
    {e : Edge} (he : e ∈ edges) : e.caller.IsMethod := by
  obtain ⟨t, ht, hread⟩ := h.exists_reads he
  obtain ⟨c, hc, m, hm, callee, site, rfl⟩ := exists_call_of_mem_tuples ht
  rw [← Option.some.inj hread.caller]
  exact hcs.isMethod hc hm

/-- The edges of a caller come in the order of the source (`AtOrBefore`) if callers are called by their
    locations, which is what `Naming.uri` does. -/
theorem pairwise_atOrBefore (hcs : IsProgram cs) {edges : List Edge}
    (h : Projects ((buildLoaded dispatch cs failures warnings).store.tuples relInvocation) edges)
    (n : String) :
    (edges.filter fun e => Naming.uri.name e.caller == n).Pairwise Edge.AtOrBefore := by
  have hsorted := h.sorted.filter fun e => Naming.uri.name e.caller == n
  refine hsorted.imp_of_mem fun {a b} ha hb hab => ?_
  obtain ⟨ha, hna⟩ := List.mem_filter.1 ha
  obtain ⟨hb, hnb⟩ := List.mem_filter.1 hb
  -- the texts of both callers are `n`, and methods are told apart by their texts
  have htext : a.caller.text = b.caller.text := (eq_of_beq hna).trans (eq_of_beq hnb).symm
  exact hab.atOrBefore ((isMethod_caller hcs h ha).eq_of_text_eq (isMethod_caller hcs h hb) htext)

end

/-- `project` gives an edge for each tuple, in order, and `Adjacency.ofEdges` keeps each edge under its caller.
    In a program whose methods are called by their locations, callees therefore stand in the order of the
    source. -/
theorem calls_preserved :
    (∀ (ops : List Operation) (r : Relation), (replay .empty ops).get? relInvocation = some r →
      2 ≤ r.arity → ∃ edges, project (replay .empty ops) = .ok edges ∧ Projects r.tuples edges) ∧
    (∀ naming edges, Gathers naming edges (.ofEdges naming edges)) ∧
    (∀ (options : BuildOptions) (entries : List ClassEntry) (built : Built),
      build options entries = .ok built →
      ∃ edges, project built.store = .ok edges ∧ Projects (built.store.tuples relInvocation) edges ∧
        ∀ n, ∃ calls : List Edge, calls = edges.filter (fun e => Naming.uri.name e.caller == n) ∧
          (Adjacency.ofEdges .uri edges).callees n = calls.map (fun e => Naming.uri.name e.callee) ∧
          calls.Pairwise Edge.AtOrBefore) := by
  refine ⟨?_, Adjacency.gathers_ofEdges, ?_⟩
  · -- a store that was filled call by call has tuples of the arity of its relation
    intro ops r hr harity
    have hsound := (Store.sound_empty.replay ops).relation relInvocation r hr
    apply projects_of_relation? (by rw [Store.relation?, hr]; rfl)
    intro t ht
    have hlength := hsound.arity t ht
    omega
  · -- a build stores calls of methods only, which are told apart by their texts
    intro options entries built hbuild
    obtain rfl := eq_buildLoaded hbuild
    have hcs := isProgram_keptClasses options.limits entries
    obtain ⟨edges, hproject, hedges⟩ := projects_buildLoaded options.dispatch _ _ _
    refine ⟨edges, hproject, hedges, fun n => ⟨_, rfl, ?_, pairwise_atOrBefore hcs hedges n⟩⟩
    exact Adjacency.callees_ofEdges .uri edges n

/-- Calls of which no place is known, one of them said twice. -/
def placelessCalls : List Operation :=
  [.declare relInvocation 2,
   .add relInvocation [.ofMethod "A" "f" [], .ofMethod "B" "g" ["int"]],
   .add relInvocation [.ofMethod "A" "f" [], .ofMethod "B" "g" []],
   .add relInvocation [.ofMethod "A" "f" [], .ofMethod "B" "g" []]]

/-- `calls_preserved` on the store of `placelessCalls` and on the program `receivers`. -/
theorem calls_preserved_receivers :
    (∃ r edges, (replay .empty placelessCalls).get? relInvocation = some r ∧ r.arity = 2 ∧
      project (replay .empty placelessCalls) = .ok edges ∧ Projects r.tuples edges) ∧
    ∃ built edges, build { dispatch := .overrides } receivers = .ok built ∧
      project built.store = .ok edges ∧ Projects (built.store.tuples relInvocation) edges ∧
      (edges.filter fun e => Naming.uri.name e.caller == "java+method:///P/run()").Pairwise
        Edge.AtOrBefore := by
  obtain ⟨hproject, -, hbuilt⟩ := calls_preserved
  constructor
  · -- the store has the relation, as it was declared with success
    have hdeclared : (.declare relInvocation 2, .ok ()) ∈ answers .empty placelessCalls :=
      List.mem_cons_self
    obtain ⟨r, hr, harity⟩ := arity_of_mem_answers hdeclared
    obtain ⟨edges, hedges⟩ := hproject placelessCalls r hr (by omega)
    exact ⟨r, edges, hr, harity, hedges⟩
  · have hbuild : build { dispatch := .overrides } receivers = .ok _ := build_eq _ _
    obtain ⟨edges, hok, hedges, hordered⟩ := hbuilt _ _ _ hbuild
    obtain ⟨calls, rfl, -, hcalls⟩ := hordered "java+method:///P/run()"
    exact ⟨_, edges, hbuild, hok, hedges, hcalls⟩

end CallGraph
end CallAtlas
