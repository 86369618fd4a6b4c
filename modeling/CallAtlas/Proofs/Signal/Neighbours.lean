import Mathlib.Combinatorics.SimpleGraph.Metric
import CallAtlas.Proofs.Neighbourhood
import CallAtlas.Proofs.Orders
import CallAtlas.Signal.Graph

/-!
# The methods of a signal graph

The signal graph is made of the methods near to those that call a sensitive one. Near means: at a distance
of at most so many calls in the undirected graph of the calls of declared methods (`network`). The search
counts links in a row; that this is the distance is `edist_le_iff_hops`. What the graph tells about each of
its methods is read off the calls that stand in it (`Func.Describes`).
-/

namespace CallAtlas

/-! ### Links in a row and distances -/

section
variable {α : Type} {link : α → α → Prop}

/-- One link and `Hops` more in a row. -/
theorem Hops.cons {a b c : α} {n : Nat} (hlink : link a b) (h : Hops link n b c) :
    Hops link (n + 1) a c := by
  induction h with
  | none => exact (Hops.none a).one_more hlink
  | one_more _ hlast ih => exact (ih hlink).one_more hlast

/-- In the graph of links, a distance of at most `n` is at most `n` links in a row (`Hops`): links from an
    element to itself lead nowhere. -/
theorem edist_le_iff_hops {G : SimpleGraph α} (hadj : ∀ a b, G.Adj a b ↔ a ≠ b ∧ link a b) {n : Nat}
    {a b : α} : G.edist a b ≤ n ↔ ∃ k ≤ n, Hops link k a b := by
  constructor
  · intro hle
    have hfinite : G.edist a b ≠ ⊤ := ne_top_of_le_ne_top (ENat.natCast_ne_top n) hle
    obtain ⟨w, hw⟩ := SimpleGraph.exists_walk_of_edist_ne_top hfinite
    rw [← hw, Nat.cast_le] at hle
    -- every step of a walk is a link
    have hops : ∀ {u v : α} (w : G.Walk u v), Hops link w.length u v := by
      intro u v w
      induction w with
      | nil => exact .none _
      | cons hstep _ ih => exact ih.cons ((hadj _ _).1 hstep).2
    exact ⟨w.length, hle, hops w⟩
  · rintro ⟨k, hk, h⟩
    have hwalk : ∃ w : G.Walk a b, w.length ≤ k := by
      clear hk
      -- a walk is built along the links, and a link from an element to itself adds nothing to it
      induction h with
      | none => exact ⟨.nil, Nat.le_refl 0⟩
      | @one_more k a b c _ hlink ih =>
        obtain ⟨w, hw⟩ := ih
        by_cases hbc : b = c
        · subst hbc
          exact ⟨w, Nat.le_succ_of_le hw⟩
        · refine ⟨w.concat ((hadj b c).2 ⟨hbc, hlink⟩), ?_⟩
          rw [SimpleGraph.Walk.length_concat]
          exact Nat.succ_le_succ hw
    obtain ⟨w, hw⟩ := hwalk
    exact (SimpleGraph.edist_le w).trans (by exact_mod_cast hw.trans hk)

end

namespace Signal

open CallGraph

/-! ### The names that are kept -/

/-- One of the calls leads from one name to the other. -/
def Joined (calls : List Call) (a b : String) : Prop :=
  ∃ c ∈ calls, c.source = a ∧ c.target = b ∨ c.source = b ∧ c.target = a

/-- `neighbourTable` lists under a name what is `Joined` to it. -/
private theorem mem_neighbourTable {calls : List Call} {a b : String} :
    b ∈ (neighbourTable calls).getD a [] ↔ Joined calls a b := by
  rw [neighbourTable, getD_groups]
  simp only [List.filter_append, List.map_append, List.mem_append, List.mem_map, List.mem_filter,
    beq_iff_eq, Joined]
  constructor
  · -- first the calls forwards, then those backwards
    rintro (⟨p, ⟨⟨c, hc, rfl⟩, hsource⟩, htarget⟩ | ⟨p, ⟨⟨c, hc, rfl⟩, hsource⟩, htarget⟩)
    · exact ⟨c, hc, .inl ⟨hsource, htarget⟩⟩
    · exact ⟨c, hc, .inr ⟨htarget, hsource⟩⟩
  · rintro ⟨c, hc, ⟨hsource, htarget⟩ | ⟨hsource, htarget⟩⟩
    · exact .inl ⟨_, ⟨⟨c, hc, rfl⟩, hsource⟩, htarget⟩
    · exact .inr ⟨_, ⟨⟨c, hc, rfl⟩, htarget⟩, hsource⟩

/-- `within` finds the names that so many calls lead to, in whichever direction. -/
theorem mem_within {calls : List Call} {hops : Nat} {names : List String} {n : String} :
    n ∈ within calls hops names ↔ ∃ k ≤ hops, ∃ r ∈ names, Hops (Joined calls) k r n := by
  have hleads : Leads (calls.flatMap fun c => [c.source, c.target])
      (fun n => (neighbourTable calls).getD n []) = Joined calls := by
    funext a b
    refine propext ⟨fun h => mem_neighbourTable.1 h.1, fun h => ⟨mem_neighbourTable.2 h, ?_⟩⟩
    obtain ⟨c, hc, ⟨-, htarget⟩ | ⟨hsource, -⟩⟩ := h
    · exact List.mem_flatMap.2 ⟨c, hc, by simp [htarget]⟩
    · exact List.mem_flatMap.2 ⟨c, hc, by simp [hsource]⟩
  rw [within, mem_neighbourhood, hleads]

section
variable (rules : List Rule) (naming : Naming) (edges : List Edge) (declarations : List Location)

/-- A declared method has the name. -/
def IsDeclared (n : String) : Prop :=
  ∃ d ∈ declarations, naming.name d = n

/-- The undirected graph of the names of methods, in which a call joins its ends if the method called is
    declared. -/
def network : SimpleGraph String :=
  .fromRel fun a b => ∃ e ∈ edges, naming.name e.caller = a ∧ naming.name e.callee = b ∧
    IsDeclared naming declarations b

/-- The edge is a call of a sensitive method from one of the name. -/
def CallsSensitive (n : String) (e : Edge) : Prop :=
  naming.name e.caller = n ∧ classify rules e.callee ≠ []

/-- A method of the name calls a sensitive one. -/
def IsSignal (n : String) : Prop :=
  ∃ e ∈ edges, CallsSensitive rules naming n e

/-- The calls of declared methods. -/
def innerCalls : List Call :=
  (edges.map (Call.ofEdge rules naming)).filter fun c =>
    (ownersOf naming declarations).contains c.target

/-- The calls of sensitive methods. -/
def sensitiveCalls : List Call :=
  (edges.map (Call.ofEdge rules naming)).filter Call.isSensitive

/-- The names of the methods in the graph. -/
def keptNames (hops : Int) : List String :=
  within (innerCalls rules naming edges declarations) hops.toNat
    (Text.sortDistinct ((sensitiveCalls rules naming edges).map Call.source))

end

section
variable {rules : List Rule} {naming : Naming} {edges : List Edge} {declarations : List Location}
  {n : String}

/-- `ownersOf` has the names of declared methods (`IsDeclared`). -/
theorem contains_ownersOf :
    (ownersOf naming declarations).contains n = true ↔ IsDeclared naming declarations n := by
  rw [ownersOf, contains_lastTable, List.map_map, List.contains_iff_mem, List.mem_map]
  rfl

/-- `sensitiveCalls` are those of edges to methods that `classify` puts in some category. -/
theorem mem_sensitiveCalls {c : Call} :
    c ∈ sensitiveCalls rules naming edges ↔
      ∃ e ∈ edges, classify rules e.callee ≠ [] ∧ c = .ofEdge rules naming e := by
  simp only [sensitiveCalls, List.mem_filter, List.mem_map, Call.isSensitive]
  constructor
  · rintro ⟨⟨e, he, rfl⟩, hne⟩
    exact ⟨e, he, by simpa [Call.ofEdge] using hne, rfl⟩
  · rintro ⟨e, he, hne, rfl⟩
    exact ⟨⟨e, he, rfl⟩, by simpa [Call.ofEdge] using hne⟩

/-- The names to start from are those that `IsSignal`. -/
private theorem mem_signalNames :
    n ∈ Text.sortDistinct ((sensitiveCalls rules naming edges).map Call.source) ↔
      IsSignal rules naming edges n := by
  rw [Text.mem_sortDistinct, List.mem_map]
  constructor
  · rintro ⟨c, hc, rfl⟩
    obtain ⟨e, he, hne, rfl⟩ := mem_sensitiveCalls.1 hc
    exact ⟨e, he, rfl, hne⟩
  · rintro ⟨e, he, rfl, hne⟩
    exact ⟨_, mem_sensitiveCalls.2 ⟨e, he, hne, rfl⟩, rfl⟩

variable (rules) in
/-- Two names are adjacent in the `network` if they differ and one of the `innerCalls` joins them. -/
private theorem adj_network_iff (a b : String) : (network naming edges declarations).Adj a b ↔
    a ≠ b ∧ Joined (innerCalls rules naming edges declarations) a b := by
  -- calls count if the target is declared, in either direction
  have hinner : ∀ x y, (∃ e ∈ edges, naming.name e.caller = x ∧ naming.name e.callee = y ∧
      IsDeclared naming declarations y) ↔
      ∃ c ∈ innerCalls rules naming edges declarations, c.source = x ∧ c.target = y := by
    intro x y
    simp only [innerCalls, List.mem_filter, List.mem_map, contains_ownersOf]
    constructor
    · rintro ⟨e, he, rfl, rfl, hdeclared⟩
      exact ⟨_, ⟨⟨e, he, rfl⟩, hdeclared⟩, rfl, rfl⟩
    · rintro ⟨c, ⟨⟨e, he, rfl⟩, hdeclared⟩, rfl, rfl⟩
      exact ⟨e, he, rfl, rfl, hdeclared⟩
  rw [network, SimpleGraph.fromRel_adj, hinner a b, hinner b a, Joined]
  refine and_congr_right fun _ => ?_
  rw [← exists_or]
  exact exists_congr fun c => by rw [← and_or_left]

/-- `keptNames` are those at a distance of at most so many calls in the `network`. -/
private theorem mem_keptNames {hops : Int} :
    n ∈ keptNames rules naming edges declarations hops ↔ ∃ s, IsSignal rules naming edges s ∧
      (network naming edges declarations).edist s n ≤ (max hops 0).toNat := by
  have hhops : (max hops 0).toNat = hops.toNat := by omega
  rw [keptNames, mem_within, hhops]
  simp only [edist_le_iff_hops (adj_network_iff rules), mem_signalNames]
  constructor
  · rintro ⟨k, hk, s, hs, h⟩
    exact ⟨s, hs, k, hk, h⟩
  · rintro ⟨s, hs, k, hk, h⟩
    exact ⟨k, hk, s, hs, h⟩

end

/-! ### What is told about a method -/

/-- What the graph tells about a method is what its calls of sensitive methods say. -/
structure Func.Describes (rules : List Rule) (naming : Naming) (edges : List Edge) (f : Func) :
    Prop where
  role_iff : f.role = .signal ↔ IsSignal rules naming edges f.name
  /-- The categories of a method that signals, each once, ascending. -/
  categories : f.role = .signal → f.categories.Pairwise (· < ·) ∧ ∀ c, c ∈ f.categories ↔
    ∃ e ∈ edges, CallsSensitive rules naming f.name e ∧ c ∈ classify rules e.callee
  /-- The sensitive methods that it calls, each once, ascending. -/
  apis : f.role = .signal → f.apis.Pairwise (· < ·) ∧ ∀ a, a ∈ f.apis ↔
    ∃ e ∈ edges, CallsSensitive rules naming f.name e ∧ naming.name e.callee = a
  other : f.role ≠ .signal → f.role = .context ∧ f.categories = [] ∧ f.apis = []

section
variable {rules : List Rule} {naming : Naming} {edges : List Edge} {declarations : List Location}
  {n : String}

/-- The sensitive calls listed under a name are those that stand in a method of this name (`CallsSensitive`). -/
private theorem mem_own {c : Call} :
    c ∈ (groups ((sensitiveCalls rules naming edges).map fun c => (c.source, c))).getD n [] ↔
      ∃ e ∈ edges, CallsSensitive rules naming n e ∧ c = .ofEdge rules naming e := by
  rw [getD_groups, List.filter_map, List.map_map]
  simp only [Function.comp_def, List.map_id', List.mem_filter, beq_iff_eq, mem_sensitiveCalls]
  constructor
  · rintro ⟨⟨e, he, hne, rfl⟩, hname⟩
    exact ⟨e, he, ⟨hname, hne⟩, rfl⟩
  · rintro ⟨e, he, ⟨hname, hne⟩, rfl⟩
    exact ⟨⟨e, he, hne, rfl⟩, hname⟩

/-- `funcOf` `Describes` a method by its calls of sensitive ones. -/
theorem describes_funcOf (owners : Std.HashMap String String) (called : Std.HashSet String) :
    (funcOf owners (groups ((sensitiveCalls rules naming edges).map fun c => (c.source, c))) called
      n).Describes rules naming edges := by
  unfold funcOf
  have hown := @mem_own rules naming edges n
  generalize (groups ((sensitiveCalls rules naming edges).map fun c => (c.source, c))).getD n [] = own
    at hown
  by_cases hnil : own = []
  · -- without sensitive calls there is nothing to tell
    subst hnil
    have hnone : ¬ IsSignal rules naming edges n := by
      rintro ⟨e, he, hcall⟩
      exact absurd (hown.2 ⟨e, he, hcall, rfl⟩) List.not_mem_nil
    constructor
    · simp [hnone]
    · simp
    · simp
    · simp [Text.sortDistinct, Text.sort, dropRepeats]
  · -- with sensitive calls, categories and methods called are read off them
    have hsignal : IsSignal rules naming edges n := by
      obtain ⟨c, hc⟩ := List.exists_mem_of_ne_nil own hnil
      obtain ⟨e, he, hcall, -⟩ := hown.1 hc
      exact ⟨e, he, hcall⟩
    have hempty : own.isEmpty = false := by simpa using hnil
    constructor
    · simp [hempty, hsignal]
    · intro _
      -- categories, and then the methods called in the same way
      refine ⟨Text.pairwise_sortDistinct _, fun c => ?_⟩
      simp only [Text.mem_sortDistinct, List.mem_flatMap, hown]
      constructor
      · rintro ⟨_, ⟨e, he, hcall, rfl⟩, hc⟩
        exact ⟨e, he, hcall, hc⟩
      · rintro ⟨e, he, hcall, hc⟩
        exact ⟨_, ⟨e, he, hcall, rfl⟩, hc⟩
    · intro _
      refine ⟨Text.pairwise_sortDistinct _, fun a => ?_⟩
      simp only [Text.mem_sortDistinct, List.mem_map, hown]
      constructor
      · rintro ⟨_, ⟨e, he, hcall, rfl⟩, ha⟩
        exact ⟨e, he, hcall, ha⟩
      · rintro ⟨e, he, hcall, ha⟩
        exact ⟨_, ⟨e, he, hcall, rfl⟩, ha⟩
    · simp [hempty]

end

section
variable (rules : List Rule) (naming : Naming) (hops : Int) (edges : List Edge)
  (declarations : List Location)

/-- The methods of `build` are made of the names that are kept, and then put in order. -/
private theorem exists_perm_funcs : ∃ owners called, (build rules naming hops edges declarations).funcs.Perm
    ((keptNames rules naming edges declarations hops).map (funcOf owners
      (groups ((sensitiveCalls rules naming edges).map fun c => (c.source, c))) called)) :=
  ⟨_, _, List.mergeSort_perm _ _⟩

/-- The names of the methods of `build` are `keptNames`, in another order. -/
theorem perm_names_build : ((build rules naming hops edges declarations).funcs.map Func.name).Perm
    (keptNames rules naming edges declarations hops) := by
  obtain ⟨owners, called, hperm⟩ := exists_perm_funcs rules naming hops edges declarations
  have hnames := hperm.map Func.name
  rw [List.map_map] at hnames
  exact hnames.trans (List.Perm.of_eq (List.map_id _))

/-- `keptNames` lists no name twice. -/
theorem nodup_keptNames : (keptNames rules naming edges declarations hops).Nodup := by
  apply nodup_neighbourhood
  exact Text.nodup_sortDistinct _

/-- `build` has the methods within `hops` calls of one that calls a sensitive method. -/
theorem mem_names_build_iff (n : String) :
    n ∈ (build rules naming hops edges declarations).funcs.map Func.name ↔
      ∃ s, IsSignal rules naming edges s ∧
        (network naming edges declarations).edist s n ≤ (max hops 0).toNat := by
  rw [(perm_names_build rules naming hops edges declarations).mem_iff, mem_keptNames]

/-- The methods of `build` are those within so many calls of one that calls a sensitive method, each of them
    once. Exactly those that do so themselves signal (`IsSignal`), and only about them there is more to tell
    (`Describes`). -/
theorem funcs_build_eq_ball :
    ((build rules naming hops edges declarations).funcs.map Func.name).Nodup ∧
    (∀ n, n ∈ (build rules naming hops edges declarations).funcs.map Func.name ↔
      ∃ s, IsSignal rules naming edges s ∧
        (network naming edges declarations).edist s n ≤ (max hops 0).toNat) ∧
    ∀ f ∈ (build rules naming hops edges declarations).funcs, f.Describes rules naming edges := by
  have hnames := perm_names_build rules naming hops edges declarations
  refine ⟨hnames.nodup_iff.2 (nodup_keptNames rules naming hops edges declarations),
    mem_names_build_iff rules naming hops edges declarations, fun f hf => ?_⟩
  obtain ⟨owners, called, hperm⟩ := exists_perm_funcs rules naming hops edges declarations
  obtain ⟨n, -, rfl⟩ := List.mem_map.1 (hperm.mem_iff.1 hf)
  exact describes_funcOf owners called

end

/-- A method that starts a program, one that calls it, and one that calls that one and itself. -/
def startingCalls : List Edge :=
  [⟨⟨"java+method", "/A/f()", -1, 0⟩, ⟨"java+method", "/java/lang/Runtime/exec(java.lang.String)", -1, 0⟩,
    ⟨"java+invocation", "/A/f()", 0, 1⟩⟩,
   ⟨⟨"java+method", "/B/g()", -1, 0⟩, ⟨"java+method", "/A/f()", -1, 0⟩,
    ⟨"java+invocation", "/B/g()", 0, 1⟩⟩,
   ⟨⟨"java+method", "/C/h()", -1, 0⟩, ⟨"java+method", "/B/g()", -1, 0⟩,
    ⟨"java+invocation", "/C/h()", 0, 1⟩⟩,
   ⟨⟨"java+method", "/C/h()", -1, 0⟩, ⟨"java+method", "/C/h()", -1, 0⟩,
    ⟨"java+invocation", "/C/h()", 3, 2⟩⟩]

def startingDeclarations : List Location :=
  [⟨"java+method", "/A/f()", -1, 0⟩, ⟨"java+method", "/B/g()", -1, 0⟩,
   ⟨"java+method", "/C/h()", -1, 0⟩]

/-- In `startingCalls`, the first call is that of a sensitive method. -/
theorem callsSensitive_starting : CallsSensitive standardRules .short "A.f" startingCalls[0] :=
  ⟨by decide +kernel, by decide +kernel⟩

/-- In `startingCalls`, `A.f` calls a sensitive method. -/
theorem isSignal_starting : IsSignal standardRules .short startingCalls "A.f" :=
  ⟨startingCalls[0], List.getElem_mem _, callsSensitive_starting⟩

/-- The second call of `startingCalls` joins its ends in the `network`, as its target is declared. -/
theorem adj_starting : (network .short startingCalls startingDeclarations).Adj "A.f" "B.g" := by
  refine (SimpleGraph.fromRel_adj _ _ _).2 ⟨by decide, .inr ⟨startingCalls[1], List.getElem_mem _,
    by decide +kernel, by decide +kernel, startingDeclarations[0], List.getElem_mem _, ?_⟩⟩
  decide +kernel

/-- `funcs_build_eq_ball` on `startingCalls`: of three methods in a row, two are within one call of the one that
    signals. -/
theorem funcs_build_eq_ball_starting :
    ∃ f ∈ (build standardRules .short 1 startingCalls startingDeclarations).funcs,
    ∃ g ∈ (build standardRules .short 1 startingCalls startingDeclarations).funcs,
      f.name = "A.f" ∧ f.role = .signal ∧ "exec" ∈ f.categories ∧ "java.lang.Runtime.exec" ∈ f.apis ∧
      g.name = "B.g" ∧ g.role = .context ∧ g.categories = [] ∧ g.apis = [] := by
  obtain ⟨-, hmem, hdescribes⟩ :=
    funcs_build_eq_ball standardRules .short 1 startingCalls startingDeclarations
  have hfirst : startingCalls[0] ∈ startingCalls := List.getElem_mem _
  -- `B.g` calls nothing sensitive itself
  have hquiet : ¬ IsSignal standardRules .short startingCalls "B.g" := by
    have hnone : ∀ e ∈ startingCalls,
        ¬ (Naming.short.name e.caller = "B.g" ∧ classify standardRules e.callee ≠ []) := by
      decide +kernel
    rintro ⟨e, he, hcall⟩
    exact hnone e he hcall
  obtain ⟨f, hf, hfname⟩ := List.mem_map.1 ((hmem "A.f").2 ⟨"A.f", isSignal_starting, by simp⟩)
  -- `B.g` is one call away from a method that signals
  obtain ⟨g, hg, hgname⟩ := List.mem_map.1 ((hmem "B.g").2
    ⟨"A.f", isSignal_starting, (SimpleGraph.edist_eq_one_iff_adj.2 adj_starting).le⟩)
  have hfrole : f.role = .signal := (hdescribes f hf).role_iff.2 (hfname ▸ isSignal_starting)
  have hgrole : g.role ≠ .signal := fun h => hquiet (hgname ▸ (hdescribes g hg).role_iff.1 h)
  refine ⟨f, hf, g, hg, hfname, hfrole, ?_, ?_, hgname, (hdescribes g hg).other hgrole⟩
  · rw [((hdescribes f hf).categories hfrole).2, hfname]
    exact ⟨_, hfirst, callsSensitive_starting, by decide +kernel⟩
  · rw [((hdescribes f hf).apis hfrole).2, hfname]
    exact ⟨_, hfirst, callsSensitive_starting, by decide +kernel⟩

end Signal
end CallAtlas
