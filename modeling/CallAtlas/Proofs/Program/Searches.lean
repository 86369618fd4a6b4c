import CallAtlas.Proofs.Program.MethodLookup
import CallAtlas.Proofs.Program.Subtyping

/-!
# Searches through the hierarchy are transitive closures

The search up from a class goes from each class to the superclass and the interfaces that it names, the
search down from a name to the classes that name it. Both start with a queue of one name and go on until it
is empty (`searchUp`, `searchDown`). They come to their end whatever cycles there are, and what they find is
what `Hierarchy.supertypes` and `Hierarchy.subtypes` list.

The two go by different links: an interface names a superclass, but is no subtype of it. Every link down is
a link up, so what is found below a class finds that class above.
-/

namespace CallAtlas.Program

open ClassFile

/-- The class names the other one as its superclass or as an interface. -/
def NamesParent (c : ClassFile) (b : String) : Prop :=
  (c.super = b ∧ b ≠ "") ∨ b ∈ c.interfaces

instance (c : ClassFile) (b : String) : Decidable (NamesParent c b) :=
  inferInstanceAs (Decidable ((c.super = b ∧ b ≠ "") ∨ b ∈ c.interfaces))

/-- Both classes are at hand, and the first one names the second one. -/
def IsParent (cs : List ClassFile) (a b : ClassFile) : Prop :=
  a ∈ cs ∧ b ∈ cs ∧ NamesParent a b.name

/-- `parents` lists what a class names (`NamesParent`). -/
private theorem mem_parents {c : ClassFile} {b : String} : b ∈ Hierarchy.parents c ↔ NamesParent c b := by
  unfold Hierarchy.parents NamesParent
  split
  · rename_i hnone
    -- a class without a superclass names the empty text
    have habsent : ¬ (c.super = b ∧ b ≠ "") := by
      rintro ⟨rfl, hne⟩
      exact hne hnone
    simp [habsent]
  · rename_i hsome
    rw [List.mem_cons]
    refine or_congr_left ⟨?_, fun h => h.1.symm⟩
    rintro rfl
    exact ⟨rfl, hsome⟩

namespace Hierarchy

variable {h : Hierarchy}

/-- The search up: from a name to those that the class of this name names, as far as they are at hand. -/
def searchUp (h : Hierarchy) : Worklist String String :=
  ⟨id, h.parentsOf, fun name => (h.get? name).isSome⟩

/-- The search down: from a name to the classes that name it. -/
def searchDown (h : Hierarchy) : Worklist String String :=
  ⟨id, h.directSubtypes, fun _ => true⟩

/-! ### The search up -/

/-- `searchUp` comes to its end, since only names of classes at hand count to it. -/
private theorem exists_ends_searchUp (hnames : h.names.Nodup) (name : String) :
    ∃ t, h.searchUp.Ends (.startAt name) t :=
  Worklist.exists_ends _ h.names.toFinset
    (fun _ _ _ hcounts => List.mem_toFinset.2 ((isSome_get? hnames).1 hcounts)) _

/-- A link of `searchUp` leads from a class at hand to one that it names (`IsParent`). -/
theorem link_up_iff (hnames : h.names.Nodup) {a b : String} :
    Worklist.Link h.parentsOf (fun name => (h.get? name).isSome) a b ↔
      ∃ c d, IsParent h.classes c d ∧ c.name = a ∧ d.name = b := by
  rw [Worklist.Link, isSome_get? hnames, names, List.mem_map, parentsOf]
  constructor
  · rintro ⟨hlink, d, hd, rfl⟩
    -- no link leaves a name that stands for no class
    cases hget : h.get? a with
    | none =>
      rw [hget] at hlink
      exact absurd hlink List.not_mem_nil
    | some c =>
      rw [hget] at hlink
      obtain ⟨hc, hname⟩ := (get?_eq_some hnames).1 hget
      exact ⟨c, d, ⟨hc, hd, mem_parents.1 hlink⟩, hname, rfl⟩
  · rintro ⟨c, d, ⟨hc, hd, hnamed⟩, rfl, rfl⟩
    rw [get?_name hnames hc]
    exact ⟨mem_parents.2 hnamed, d, hd, rfl⟩

/-- Links of `searchUp` in a row are classes of which each one names the next. -/
private theorem transGen_link_up_iff (hnames : h.names.Nodup) {c : ClassFile} (hc : c ∈ h.classes)
    {b : String} : Relation.TransGen (Worklist.Link h.parentsOf fun name => (h.get? name).isSome) c.name b ↔
      ∃ d, Relation.TransGen (IsParent h.classes) c d ∧ d.name = b := by
  constructor
  · intro hpath
    -- a name stands for one class only, so links fit together as classes
    induction hpath with
    | single hlink =>
      obtain ⟨a, d, hparent, hname, rfl⟩ := (link_up_iff hnames).1 hlink
      rw [eq_of_name_eq hnames hparent.1 hc hname] at hparent
      exact ⟨d, .single hparent, rfl⟩
    | tail _ hlink ih =>
      obtain ⟨d, hd, rfl⟩ := ih
      obtain ⟨a, e, hparent, hname, rfl⟩ := (link_up_iff hnames).1 hlink
      have hmem : d ∈ h.classes := by
        obtain ⟨_, -, hlast⟩ := Relation.TransGen.tail'_iff.1 hd
        exact hlast.2.1
      rw [eq_of_name_eq hnames hparent.1 hmem hname] at hparent
      exact ⟨e, .tail hd hparent, rfl⟩
  · rintro ⟨d, hpath, rfl⟩
    exact hpath.lift ClassFile.name fun a b hab => (link_up_iff hnames).2 ⟨a, b, hab, rfl, rfl⟩

/-- The search of `supertypes`, which starts with the `parents` of a class, gets as far as `searchUp` from the
    class. -/
private theorem reached_parents_iff (hnames : h.names.Nodup) {c : ClassFile} (hc : c ∈ h.classes) {b : String} :
    Reached h.names h.parentsOf (parents c) b ↔
      Relation.TransGen (Worklist.Link h.parentsOf fun name => (h.get? name).isSome) c.name b := by
  -- both follow the same links, and the parents are one link away
  have hlead : Leads h.names h.parentsOf =
      Worklist.Link h.parentsOf fun name => (h.get? name).isSome := by
    funext x y
    rw [Leads, Worklist.Link, isSome_get? hnames]
  have hparents : h.parentsOf c.name = parents c := by
    rw [parentsOf, get?_name hnames hc]
    rfl
  rw [Reached, ← hlead, Relation.TransGen.head'_iff]
  simp only [Leads, hparents, and_assoc]

/-- `supertypes` of a class are the other classes that it leads to by `IsParent`. -/
private theorem mem_supertypes (hnames : h.names.Nodup) {c d : ClassFile} (hc : c ∈ h.classes) :
    d ∈ h.supertypes c ↔ d ≠ c ∧ Relation.TransGen (IsParent h.classes) c d := by
  rw [supertypes, List.mem_filterMap]
  simp only [Text.mem_sort, List.mem_filter, mem_closure, bne_iff_ne, reached_parents_iff hnames hc,
    transGen_link_up_iff hnames hc]
  constructor
  · rintro ⟨name, ⟨⟨e, hpath, rfl⟩, hne⟩, hget⟩
    obtain ⟨hd, hname⟩ := (get?_eq_some hnames).1 hget
    have he : e ∈ h.classes := by
      obtain ⟨_, -, hlast⟩ := Relation.TransGen.tail'_iff.1 hpath
      exact hlast.2.1
    obtain rfl := eq_of_name_eq hnames hd he hname
    exact ⟨fun heq => hne (congrArg _ heq), hpath⟩
  · rintro ⟨hne, hpath⟩
    have hd : d ∈ h.classes := by
      obtain ⟨_, -, hlast⟩ := Relation.TransGen.tail'_iff.1 hpath
      exact hlast.2.1
    exact ⟨d.name, ⟨⟨d, hpath, rfl⟩, fun heq => hne (eq_of_name_eq hnames hd hc heq)⟩, get?_name hnames hd⟩

/-- `supertypes` are listed in ascending order of their names. -/
private theorem pairwise_supertypes (h : Hierarchy) (c : ClassFile) :
    (h.supertypes c).Pairwise fun a b => a.name < b.name := by
  have hnodup := nodup_closure h.names h.parentsOf (parents c)
  have hsorted := Text.pairwise_sort (hnodup.sublist (List.filter_sublist (p := (· != c.name))))
  rw [← List.pairwise_map]
  exact hsorted.sublist (map_name_filterMap_sublist (fun _ _ hget => name_of_get? hget) _)

/-- What `searchUp` has found at its end, in order, are the `supertypes`. -/
private theorem supertypes_eq_of_ends (hnames : h.names.Nodup) {c : ClassFile} (hc : c ∈ h.classes)
    {t : Worklist.State String String} (ht : h.searchUp.Ends (.startAt c.name) t) :
    h.supertypes c = (Text.sort t.found).filterMap h.get? := by
  obtain ⟨hnodup, hmem⟩ := ht.nodup_and_mem_found_iff
  have hnodup' := (nodup_closure h.names h.parentsOf (parents c)).sublist
    (List.filter_sublist (p := (· != c.name)))
  rw [supertypes, Text.sort_eq_of_perm ((List.perm_ext_iff_of_nodup hnodup' hnodup).2 fun b => ?_)]
  rw [hmem, List.mem_filter, mem_closure, reached_parents_iff hnames hc, bne_iff_ne, and_comm]

/-! ### The search down -/

/-- `searchDown` comes to its end, since links lead to names of classes at hand only. -/
private theorem exists_ends_searchDown (h : Hierarchy) (name : String) :
    ∃ t, h.searchDown.Ends (.startAt name) t :=
  Worklist.exists_ends _ h.names.toFinset
    (fun _ _ hlink _ => List.mem_toFinset.2 (mem_directSubtypes.1 hlink).mem_names) _

/-- Links of `searchDown` in a row are `IsSubtype`, turned round. -/
private theorem transGen_link_down_iff {a b : String} :
    Relation.TransGen (Worklist.Link h.directSubtypes fun _ => true) b a ↔ IsSubtype h.classes a b := by
  have hlink : Worklist.Link h.directSubtypes (fun _ => true) = Function.swap (IsDirectSubtype h.classes) := by
    funext x y
    simp only [Worklist.Link, and_true, mem_directSubtypes, Function.swap]
  rw [hlink, Relation.transGen_swap]
  rfl

/-- What `searchDown` has found at its end, in order, are the `subtypes`. -/
private theorem subtypes_eq_of_ends {name : String} {t : Worklist.State String String}
    (ht : h.searchDown.Ends (.startAt name) t) : h.subtypes name = Text.sort t.found := by
  obtain ⟨hnodup, hmem⟩ := ht.nodup_and_mem_found_iff
  have hnodup' := (nodup_closure h.names h.directSubtypes (h.directSubtypes name)).sublist
    (List.filter_sublist (p := (· != name)))
  refine Text.sort_eq_of_perm ((List.perm_ext_iff_of_nodup hnodup' hnodup).2 fun a => ?_)
  rw [hmem, transGen_link_down_iff, List.mem_filter, mem_closure, reached_iff_isSubtype, bne_iff_ne, and_comm]

/-- Both searches come to their end. The `supertypes` of a class are the other classes that it leads to by way
    of classes at hand; the `subtypes` of a name are the other names that lead to it. Whoever is below a class
    has that class above. -/
theorem supertypes_subtypes_closed {h : Hierarchy} (hnames : h.names.Nodup) :
    (∀ c ∈ h.classes,
      (∃ t, h.searchUp.Ends (.startAt c.name) t ∧
        h.supertypes c = (Text.sort t.found).filterMap h.get?) ∧
      ((h.supertypes c).Pairwise fun a b => a.name < b.name) ∧
      ∀ d, d ∈ h.supertypes c ↔ d ≠ c ∧ Relation.TransGen (IsParent h.classes) c d) ∧
    (∀ name,
      (∃ t, h.searchDown.Ends (.startAt name) t ∧ h.subtypes name = Text.sort t.found) ∧
      (h.subtypes name).Pairwise (· < ·) ∧
      ∀ s, s ∈ h.subtypes name ↔ s ≠ name ∧ IsSubtype h.classes s name) ∧
    ∀ t ∈ h.classes, ∀ s ∈ h.subtypes t.name, ∃ c ∈ h.classes, c.name = s ∧ t ∈ h.supertypes c := by
  refine ⟨fun c hc => ⟨?_, pairwise_supertypes h c, fun d => mem_supertypes hnames hc⟩,
    fun name => ⟨?_, pairwise_subtypes h name, fun s => mem_subtypes⟩, fun t ht s hs => ?_⟩
  · obtain ⟨t, ht⟩ := exists_ends_searchUp hnames c.name
    exact ⟨t, ht, supertypes_eq_of_ends hnames hc ht⟩
  · obtain ⟨t, ht⟩ := exists_ends_searchDown h name
    exact ⟨t, ht, subtypes_eq_of_ends ht⟩
  · -- every link down is a link up
    obtain ⟨hne, hsub⟩ := mem_subtypes.1 hs
    obtain ⟨c, hc, rfl⟩ := List.mem_map.1 hsub.mem_names
    exact ⟨c, hc, rfl, mem_supertypes_of_isSubtype hnames hc ht (Ne.symm hne) hsub⟩

/-! ### Classes that name each other -/

/-- `A` and `B` are each other's superclass, `I` and `J` each other's interface. `A` names `I` twice, and `J`
    names an interface that is not at hand. -/
def tangled : Hierarchy :=
  .ofClasses [sketch "A" "B" 0x21 ["I", "I"] [], sketch "B" "A" 0x21 [] [],
    sketch "I" "java/lang/Object" 0x601 ["J"] [], sketch "J" "java/lang/Object" 0x601 ["X", "I"] []]

/-- The classes of `tangled` have different names. -/
private theorem nodup_names_tangled : tangled.names.Nodup := by decide

/-- `supertypes_subtypes_closed` on `tangled`: `B` leads to `J` by way of `A` and `I`, whichever way one
    goes. -/
theorem supertypes_subtypes_closed_tangled :
    (∃ t, tangled.searchUp.Ends (.startAt "B") t) ∧
    sketch "J" "java/lang/Object" 0x601 ["X", "I"] [] ∈ tangled.supertypes (sketch "B" "A" 0x21 [] []) ∧
    "B" ∈ tangled.subtypes "J" ∧ "J" ∉ tangled.subtypes "J" ∧
    ∃ c ∈ tangled.classes, c.name = "B" ∧
      sketch "J" "java/lang/Object" 0x601 ["X", "I"] [] ∈ tangled.supertypes c := by
  obtain ⟨hup, hdown, hboth⟩ := supertypes_subtypes_closed nodup_names_tangled
  obtain ⟨⟨t, ht, -⟩, -, hsuper⟩ := hup (sketch "B" "A" 0x21 [] []) (by decide)
  obtain ⟨-, -, hsub⟩ := hdown "J"
  -- `B` is below `J` by way of `A` and `I`, in spite of the cycles
  have hbelow : "B" ∈ tangled.subtypes "J" := by
    refine (hsub "B").2 ⟨by decide, ?_⟩
    have hBA : IsDirectSubtype tangled.classes "B" "A" :=
      ⟨sketch "B" "A" 0x21 [] [], by decide, rfl, .inl ⟨rfl, by decide, by decide⟩⟩
    have hAI : IsDirectSubtype tangled.classes "A" "I" :=
      ⟨sketch "A" "B" 0x21 ["I", "I"] [], by decide, rfl, .inr (by decide)⟩
    have hIJ : IsDirectSubtype tangled.classes "I" "J" :=
      ⟨sketch "I" "java/lang/Object" 0x601 ["J"] [], by decide, rfl, .inr (by decide)⟩
    exact .tail (.tail (.single hBA) hAI) hIJ
  refine ⟨⟨t, ht⟩, (hsuper _).2 ⟨by decide, ?_⟩, hbelow, fun hself => ((hsub "J").1 hself).1 rfl,
    hboth (sketch "J" "java/lang/Object" 0x601 ["X", "I"] []) (by decide) "B" hbelow⟩
  have hBA : IsParent tangled.classes (sketch "B" "A" 0x21 [] []) (sketch "A" "B" 0x21 ["I", "I"] []) :=
    ⟨by decide, by decide, by decide⟩
  have hAI : IsParent tangled.classes (sketch "A" "B" 0x21 ["I", "I"] [])
      (sketch "I" "java/lang/Object" 0x601 ["J"] []) := ⟨by decide, by decide, by decide⟩
  have hIJ : IsParent tangled.classes (sketch "I" "java/lang/Object" 0x601 ["J"] [])
      (sketch "J" "java/lang/Object" 0x601 ["X", "I"] []) := ⟨by decide, by decide, by decide⟩
  exact .tail (.tail (.single hBA) hAI) hIJ

end Hierarchy
end CallAtlas.Program
