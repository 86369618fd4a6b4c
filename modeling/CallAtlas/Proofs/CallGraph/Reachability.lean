import Mathlib.Order.WellFoundedSet
import CallAtlas.Proofs.CallGraph.EntryPoints
import CallAtlas.Proofs.Worklist

/-!
# What can be reached from the entries

The search for what can be reached needs no bound: it is a search with a queue that comes to its end by
itself (`Worklist.exists_ends_closure`), and what it has found then is what calls lead to (`mem_reachable`).

Where no method calls itself by way of others, one gets from every method back to an entry: as long as another
method calls it, go on with that one (`exists_entry`). So everything with code can be reached from the
entries (`reachable_complete`).
-/

namespace CallAtlas

/-! ### The search along links -/

section
variable {α : Type} [BEq α] [Hashable α] [LawfulBEq α] [DecidableEq α]

/-- The search along links, to which everything counts. -/
def searchAlong (next : α → List α) : Worklist α α :=
  ⟨id, next, fun _ => true⟩

/-- The search before its first turn: it has come across its roots. -/
def searchFrom (next : α → List α) (roots : List α) : Worklist.State α α :=
  roots.foldl (searchAlong next).meet ⟨[], [], []⟩

end

namespace CallGraph

/-! ### What calls lead to -/

/-- The `targetTable` lists under a name what it `Calls`. -/
theorem mem_targetTable {calls : List Call} {a b : String} :
    b ∈ (targetTable calls).getD a [] ↔ Calls calls a b := by
  simp only [targetTable, getD_groups, List.mem_map, List.mem_filter, beq_iff_eq, Calls]
  constructor
  · rintro ⟨p, ⟨⟨c, hc, rfl⟩, hsource⟩, htarget⟩
    exact ⟨c, hc, hsource, htarget⟩
  · rintro ⟨c, hc, rfl, rfl⟩
    exact ⟨_, ⟨⟨c, hc, rfl⟩, rfl⟩, rfl⟩

/-- What is called is within reach of the search: `Calls` leads to targets of calls only. -/
private theorem mem_domain_of_calls {entries : List String} {calls : List Call} {a b : String}
    (h : Calls calls a b) : b ∈ entries ++ calls.map Call.target := by
  obtain ⟨c, hc, -, rfl⟩ := h
  exact List.mem_append_right entries (List.mem_map_of_mem hc)

/-- `reachable` lists exactly what `Calls` leads to from the entries, in any number of steps. -/
theorem mem_reachable {entries : List String} {calls : List Call} {x : String} :
    x ∈ reachable entries calls ↔ ∃ e ∈ entries, Relation.ReflTransGen (Calls calls) e x := by
  have hleads : Leads (entries ++ calls.map Call.target) (fun name => (targetTable calls).getD name []) =
      Calls calls := by
    funext a b
    rw [Leads, mem_targetTable]
    exact propext (and_iff_left_of_imp mem_domain_of_calls)
  -- the closure is bounded by the entries and all targets, which keeps no call out
  rw [reachable, mem_closure, Reached, hleads]
  refine exists_congr fun e => and_congr_right fun he => ?_
  rw [and_iff_right (List.mem_append_left _ he)]

/-- The search along calls from entries comes to its end (`Worklist.Ends`) with what `reachable` lists. -/
private theorem exists_ends_reachable (entries : List String) (calls : List Call) :
    ∃ t, (searchAlong fun name => (targetTable calls).getD name []).Ends
      (searchFrom (fun name => (targetTable calls).getD name []) entries) t ∧
      t.found = reachable entries calls :=
  Worklist.exists_ends_closure _ _ (fun _ he => by simp [he])
    fun _ _ hb => by simpa using mem_domain_of_calls (mem_targetTable.1 hb)

/-! ### Programs without recursion by way of others -/

section
variable {funcs : List Func} {calls : List Call}
  (hacyclic : ∀ x, ¬ Relation.TransGen (CallsOther calls) x x)
include hacyclic

/-- Going from callee to caller comes to an end: `CallsOther` is well-founded where it has no cycle. -/
private theorem wellFounded_callsOther : WellFounded (CallsOther calls) := by
  have hstrict : IsStrictOrder String (Relation.TransGen (CallsOther calls)) :=
    { irrefl := hacyclic, trans := fun _ _ _ => Relation.TransGen.trans }
  -- only finitely many names stand in calls
  have hfinite : {x | x ∈ calls.map Call.source ++ calls.map Call.target}.Finite := List.finite_toSet _
  have hwf := Set.wellFoundedOn_iff.1 (hfinite.wellFoundedOn (r := Relation.TransGen (CallsOther calls)))
  refine Subrelation.wf (fun {a b} hab => ?_) hwf
  obtain ⟨c, hc, hsource, htarget⟩ := hab.1
  exact ⟨.single hab, List.mem_append_left _ (List.mem_map.2 ⟨c, hc, hsource⟩),
    List.mem_append_right _ (List.mem_map.2 ⟨c, hc, htarget⟩)⟩

/-- `Calls` leads from one of the `entryPoints` to every method with code, if all callers have code. -/
theorem exists_entry (hcallers : ∀ c ∈ calls, ∃ f ∈ funcs, f.name = c.source ∧ f.isAbstract = false)
    {f : Func} (hf : f ∈ funcs) (hcode : f.isAbstract = false) :
    ∃ e ∈ entryPoints funcs calls, Relation.ReflTransGen (Calls calls) e f.name := by
  obtain ⟨n, hn⟩ : ∃ n, f.name = n := ⟨_, rfl⟩
  rw [hn]
  -- up the callers of the method: one that no other method calls is an entry itself
  induction n using (wellFounded_callsOther hacyclic).induction generalizing f with
  | _ n ih =>
    by_cases hcalled : ∃ a, CallsOther calls a n
    · obtain ⟨a, ha⟩ := hcalled
      obtain ⟨c, hc, hsource, -⟩ := ha.1
      obtain ⟨g, hg, hname, hcode⟩ := hcallers c hc
      obtain ⟨e, he, hpath⟩ := ih a ha hg hcode (hname.trans hsource)
      exact ⟨e, he, hpath.tail ha.1⟩
    · exact ⟨n, mem_entryPoints.2 ⟨⟨f, hf, hn, hcode⟩, not_exists.1 hcalled⟩, .refl⟩

end

/-- The search from entries comes to its end, and `reachable` lists exactly what calls lead to from them. If all
    calls are made by methods with code, and no method calls itself by way of others, all methods with code are
    `reachable` from the `entryPoints` of the program. -/
theorem reachable_complete (entries : List String) (funcs : List Func) (calls : List Call) :
    (∃ t, (searchAlong fun name => (targetTable calls).getD name []).Ends
      (searchFrom (fun name => (targetTable calls).getD name []) entries) t ∧
      t.found = reachable entries calls) ∧
    (∀ x, x ∈ reachable entries calls ↔ ∃ e ∈ entries, Relation.ReflTransGen (Calls calls) e x) ∧
    ((∀ c ∈ calls, ∃ f ∈ funcs, f.name = c.source ∧ f.isAbstract = false) →
      (∀ x, ¬ Relation.TransGen (CallsOther calls) x x) →
      ∀ f ∈ funcs, f.isAbstract = false → f.name ∈ reachable (entryPoints funcs calls) calls) := by
  refine ⟨exists_ends_reachable entries calls, fun x => mem_reachable, fun hcallers hacyclic f hf hcode => ?_⟩
  exact mem_reachable.2 (exists_entry hacyclic hcallers hf hcode)

/-- `a` calls itself, `b` and `c`, which both call `d`. From `d` a call leads outside. Nothing calls the
    abstract method `e`. -/
def diamond : Survey :=
  { funcs := [⟨"a", "", false⟩, ⟨"b", "", false⟩, ⟨"c", "", false⟩, ⟨"d", "", false⟩, ⟨"e", "", true⟩]
    calls := [⟨"a", "a", .direct⟩, ⟨"a", "c", .direct⟩, ⟨"a", "b", .direct⟩, ⟨"b", "d", .virtual⟩,
      ⟨"c", "d", .direct⟩, ⟨"d", "z", .external⟩] }

/-- In `diamond`, `CallsOther` leads to greater names only, so there is no cycle. -/
private theorem lt_of_callsOther_diamond {a b : String} (h : Relation.TransGen (CallsOther diamond.calls) a b) :
    a < b := by
  have hcall : ∀ c ∈ diamond.calls, c.source ≠ c.target → c.source < c.target := by decide
  have hlink : ∀ {a b}, CallsOther diamond.calls a b → a < b := by
    rintro _ _ ⟨⟨c, hc, rfl, rfl⟩, hne⟩
    exact hcall c hc hne
  induction h with
  | single h => exact hlink h
  | tail _ h ih => exact String.lt_trans ih (hlink h)

/-- `reachable_complete` on `diamond`: from the entry `a` a call leads to `d`, and from `c` one leads
    outside. -/
theorem reachable_complete_diamond :
    (∀ c ∈ diamond.calls, ∃ f ∈ diamond.funcs, f.name = c.source ∧ f.isAbstract = false) ∧
    (∀ x, ¬ Relation.TransGen (CallsOther diamond.calls) x x) ∧
    "d" ∈ reachable (entryPoints diamond.funcs diamond.calls) diamond.calls ∧
    "z" ∈ reachable ["c"] diamond.calls := by
  obtain ⟨-, hexact, hcomplete⟩ := reachable_complete ["c"] diamond.funcs diamond.calls
  have hcallers : ∀ c ∈ diamond.calls, ∃ f ∈ diamond.funcs, f.name = c.source ∧ f.isAbstract = false := by
    decide
  -- all calls lead to greater names
  have hacyclic : ∀ x, ¬ Relation.TransGen (CallsOther diamond.calls) x x :=
    fun x hx => String.lt_irrefl x (lt_of_callsOther_diamond hx)
  have hcd : Calls diamond.calls "c" "d" := ⟨⟨"c", "d", .direct⟩, by decide, rfl, rfl⟩
  have hdz : Calls diamond.calls "d" "z" := ⟨⟨"d", "z", .external⟩, by decide, rfl, rfl⟩
  exact ⟨hcallers, hacyclic, hcomplete hcallers hacyclic ⟨"d", "", false⟩ (by decide) rfl,
    (hexact "z").2 ⟨"c", by decide, .tail (.single hcd) hdz⟩⟩

end CallGraph
end CallAtlas
