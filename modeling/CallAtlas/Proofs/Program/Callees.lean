import CallAtlas.Program.Build
import CallAtlas.Proofs.Closure
import CallAtlas.Proofs.Facts.MethodIdentity

/-!
# The methods that a call leads to

A call leads to the method it names and, at most, to methods that override it in subtypes. Each of
them stands in a class of its own, so no method is listed twice (`nodup_callees`).
-/

namespace CallAtlas.Program

namespace Hierarchy

/-- `get?` finds a class under its own name. -/
theorem name_of_get? {h : Hierarchy} {name : String} {c : ClassFile} (hc : h.get? name = some c) :
    c.name = name := by
  rw [get?, h.byName_eq, getElem?_firstTable] at hc
  generalize h.classes = cs at hc
  -- along the classes: the first one of the name stands in the table
  induction cs with
  | nil => simp at hc
  | cons d ds ih =>
    rw [List.map_cons, List.lookup_cons] at hc
    split at hc
    · rename_i hname
      rw [← Option.some.inj hc]
      exact (eq_of_beq hname).symm
    · exact ih hc

/-- `subtypes` lists no name twice. -/
private theorem nodup_subtypes (h : Hierarchy) (name : String) : (h.subtypes name).Nodup := by
  have hnodup := (nodup_closure h.names h.directSubtypes (h.directSubtypes name)).sublist
    (List.filter_sublist (p := (· != name)))
  exact (List.mergeSort_perm _ _).nodup_iff.2 hnodup

/-- `subtypes` of a name does not list the name itself. -/
private theorem notMem_subtypes_self (h : Hierarchy) (name : String) : name ∉ h.subtypes name := by
  intro hmem
  rw [subtypes, Text.sort, List.mem_mergeSort] at hmem
  have := (List.mem_filter.1 hmem).2
  simp at this

/-- The classes picked for some names bear these names, in the same order. -/
theorem map_name_filterMap_sublist {g : String → Option ClassFile}
    (hg : ∀ n c, g n = some c → c.name = n) (names : List String) :
    ((names.filterMap g).map ClassFile.name).Sublist names := by
  induction names with
  | nil => exact List.Sublist.slnil
  | cons n names ih =>
    cases hn : g n with
    | none =>
      rw [List.filterMap_cons_none hn]
      exact ih.cons n
    | some c =>
      rw [List.filterMap_cons_some hn, List.map_cons, hg n c hn]
      exact ih.cons_cons n

/-- The classes of `overriders` are `subtypes` of the one that has the method, in the same order. -/
theorem map_name_overriders_sublist (h : Hierarchy) (f : Found) :
    ((h.overriders f).map ClassFile.name).Sublist (h.subtypes f.owner.name) := by
  unfold overriders
  split
  · exact List.nil_sublist _
  · apply map_name_filterMap_sublist
    intro n c hc
    simp only [Option.bind_eq_bind, Option.bind_eq_some_iff] at hc
    -- the class is looked up by its name
    obtain ⟨d, hd, m, -, hif⟩ := hc
    split at hif
    · rw [← Option.some.inj hif]
      exact name_of_get? hd
    · exact nomatch hif

/-- `resolve` finds no method for a class that is not at hand. -/
theorem resolve_eq_none {h : Hierarchy} {owner : String} (howner : h.get? owner = none)
    (name descriptor : String) : h.resolve owner name descriptor = none := by
  have hchain : h.chain owner = [] := by
    unfold chain
    cases h.classes.length with
    | zero => rfl
    | succ n => simp [chainFrom, howner]
  have hinherited : h.inherited [] name descriptor = [] := by
    simp [inherited, superinterfaces, closure, fresh, explore]
  simp [resolve, hchain, hinherited]

end Hierarchy

/-- `resolveSite` gives locations of methods only. -/
theorem isMethod_of_mem_callees {h : Hierarchy} {dispatch : Dispatch} {s : NamedSite} {l : Location}
    (hl : l ∈ (resolveSite h dispatch s).1) : l.IsMethod := by
  unfold resolveSite at hl
  split at hl
  · rw [List.mem_singleton.1 hl]
    exact Location.isMethod_ofMethod ..
  · rcases List.mem_cons.1 hl with rfl | hl
    · exact Location.isMethod_ofMethod ..
    · obtain ⟨c, -, rfl⟩ := List.mem_map.1 hl
      exact Location.isMethod_ofMethod ..

/-- `resolveSite` lists no method twice. -/
theorem nodup_callees (h : Hierarchy) (dispatch : Dispatch) (s : NamedSite) :
    (resolveSite h dispatch s).1.Nodup := by
  unfold resolveSite
  split
  · simp
  · rename_i f _
    -- the classes that override, or none of them, all bear names of subtypes
    simp only
    generalize hmore : (if (s.site.kind == .virtual || s.site.kind == .interface) &&
      dispatch == .overrides then h.overriders f else []) = more
    have hsub : (more.map ClassFile.name).Sublist (h.subtypes f.owner.name) := by
      rw [← hmore]
      split
      · exact h.map_name_overriders_sublist f
      · exact List.nil_sublist _
    -- the target is no subtype of itself, and subtypes have names of their own
    refine List.nodup_cons.2 ⟨fun hmem => ?_, ?_⟩
    · obtain ⟨c, hc, heq⟩ := List.mem_map.1 hmem
      have howner := Location.owner_eq_of_ofMethod_eq heq
      have hsubtype := hsub.mem (List.mem_map_of_mem hc)
      rw [howner] at hsubtype
      exact h.notMem_subtypes_self f.owner.name hsubtype
    · have hdistinct := List.pairwise_map.1 ((h.nodup_subtypes f.owner.name).sublist hsub)
      refine List.pairwise_map.2 (hdistinct.imp fun hne heq => ?_)
      exact hne (Location.owner_eq_of_ofMethod_eq heq)

end CallAtlas.Program
