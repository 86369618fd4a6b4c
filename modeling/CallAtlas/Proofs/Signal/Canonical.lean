import CallAtlas.Proofs.Signal.Choices
import CallAtlas.Proofs.Tables

/-!
# What a signal graph says

A signal graph tells of each method in it why it is there and whether other methods call it, and has all
calls among its methods and all calls of sensitive ones (`Graph.Complete`). Its figures count what it lists.
-/

namespace CallAtlas.Signal

open CallGraph

/-! ### Severities -/

namespace Severity

end Severity

/-! ### What is told about a method -/

section
variable {owners : Std.HashMap String String} {calls : List Call} {called : Std.HashSet String} {n : String}

end

/-! ### The whole graph -/

section
variable {rules : List Rule} {naming : Naming} {hops : Int} {edges : List Edge}
  {declarations : List Location} {f : Func}

/-- The methods of `build` are `foundFuncs`, in another order. -/
private theorem perm_funcs_build : (build rules naming hops edges declarations).funcs.Perm
    (foundFuncs (ownersOf naming declarations) (edges.map (Call.ofEdge rules naming)) hops.toNat) :=
  List.mergeSort_perm _ _

/-- A method of `build` is made of its name by `funcOf`. -/
theorem exists_name_of_mem_funcs (h : f ∈ (build rules naming hops edges declarations).funcs) :
    ∃ n, f = funcOf (ownersOf naming declarations) (sensitiveTable (edges.map (Call.ofEdge rules naming)))
      (calledSet (innerOf (ownersOf naming declarations) (edges.map (Call.ofEdge rules naming)))) n := by
  obtain ⟨n, -, rfl⟩ := List.mem_map.1 (perm_funcs_build.mem_iff.1 h)
  exact ⟨n, rfl⟩

/-- The calls of declared methods, by their names. -/
private theorem exists_mem_innerOf {a b : String} :
    (∃ c ∈ innerOf (ownersOf naming declarations) (edges.map (Call.ofEdge rules naming)),
      c.source = a ∧ c.target = b) ↔
    IsDeclared naming declarations b ∧ ∃ e ∈ edges, naming.name e.caller = a ∧ naming.name e.callee = b := by
  simp only [innerOf, List.mem_filter, List.mem_map, contains_ownersOf]
  constructor
  · rintro ⟨_, ⟨⟨e, he, rfl⟩, hdeclared⟩, rfl, rfl⟩
    exact ⟨hdeclared, e, he, rfl, rfl⟩
  · rintro ⟨hdeclared, e, he, rfl, rfl⟩
    exact ⟨_, ⟨⟨e, he, rfl⟩, hdeclared⟩, rfl, rfl⟩

/-- The links of `build` lead from its methods to others of them, and to sensitive ones. -/
theorem mem_edges_build {l : Link} : l ∈ (build rules naming hops edges declarations).edges ↔
    ∃ f ∈ (build rules naming hops edges declarations).funcs, l.source = f.name ∧
      (l.sensitive = false ∧ (IsDeclared naming declarations l.target ∧
          ∃ e ∈ edges, naming.name e.caller = f.name ∧ naming.name e.callee = l.target) ∧
        l.target ∈ (build rules naming hops edges declarations).funcs.map Func.name ∨
        l.sensitive = true ∧ l.target ∈ f.apis) := by
  have hnames := perm_names_build rules naming hops edges declarations
  have hlinks : l ∈ (build rules naming hops edges declarations).edges ↔
      l ∈ linksAmong (ownersOf naming declarations) (edges.map (Call.ofEdge rules naming))
        (keptNames rules naming edges declarations hops)
        (build rules naming hops edges declarations).funcs := by
    rw [build_eq]
    exact mem_dropRepeats.trans List.mem_mergeSort
  rw [hlinks, mem_linksAmong]
  simp only [exists_mem_innerOf, hnames.mem_iff]

/-- `build` `Describes` each of its methods. -/
theorem describes_of_mem (h : f ∈ (build rules naming hops edges declarations).funcs) :
    f.Describes rules naming edges := by
  obtain ⟨n, rfl⟩ := exists_name_of_mem_funcs h
  exact describes_funcOf _ _

/-- The sensitive links of `build` lead from methods that signal to what they list. -/
private theorem sensitive_mem_edges_iff (a b : String) :
    ⟨a, b, true⟩ ∈ (build rules naming hops edges declarations).edges ↔
      ∃ f ∈ (build rules naming hops edges declarations).funcs, f.role = .signal ∧ f.name = a ∧ b ∈ f.apis := by
  rw [mem_edges_build]
  simp only [Bool.true_eq_false, false_and, true_and, false_or]
  constructor
  · rintro ⟨f, hf, rfl, hb⟩
    -- only methods that signal have anything listed
    have hrole : f.role = .signal := by
      by_cases hsignal : f.role = .signal
      · exact hsignal
      · rw [((describes_of_mem hf).other hsignal).2.2] at hb
        exact absurd hb List.not_mem_nil
    exact ⟨f, hf, hrole, rfl, hb⟩
  · rintro ⟨f, hf, -, rfl, hb⟩
    exact ⟨f, hf, rfl, hb⟩

/-- A call of a sensitive method is an edge of `build`, from the method that makes it. -/
theorem sensitive_mem_edges_of_call {e : Edge} (he : e ∈ edges) (hclass : classify rules e.callee ≠ []) :
    ⟨naming.name e.caller, naming.name e.callee, true⟩ ∈
      (build rules naming hops edges declarations).edges := by
  have hcall : CallsSensitive rules naming (naming.name e.caller) e := ⟨rfl, hclass⟩
  have hsignal : IsSignal rules naming edges (naming.name e.caller) := ⟨e, he, hcall⟩
  -- a method that signals is in the graph, at no distance from itself
  obtain ⟨f, hf, hname⟩ := List.mem_map.1
    ((mem_names_build_iff rules naming hops edges declarations (naming.name e.caller)).2 ⟨_, hsignal, by simp⟩)
  have hdescribes := describes_of_mem hf
  have hrole : f.role = .signal := hdescribes.role_iff.2 (hname ▸ hsignal)
  refine (sensitive_mem_edges_iff _ _).2 ⟨f, hf, hrole, hname, ?_⟩
  exact ((hdescribes.apis hrole).2 _).2 ⟨e, he, hname ▸ hcall, rfl⟩

/-! ### Figures -/

end

section
variable (rules : List Rule) (naming : Naming) (hops : Int) (edges : List Edge)
  (declarations : List Location)

end

end CallAtlas.Signal
