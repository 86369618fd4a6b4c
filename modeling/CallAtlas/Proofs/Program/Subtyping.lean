import Mathlib.Data.List.Nodup
import Mathlib.Logic.Relation
import CallAtlas.Proofs.Closure
import CallAtlas.Proofs.Orders
import CallAtlas.Proofs.Program.Callees

/-!
# Subtypes and the searches for them

One class is a subtype of another if a chain of links leads from it there: a class that is no interface
links to its superclass, and every class to the interfaces that it names (`IsSubtype`). The search down
from a class finds its subtypes (`mem_subtypes`), the search up from a class finds at least all classes
that it is a subtype of (`mem_supertypes_of_isSubtype`).
-/

namespace CallAtlas.Program

open ClassFile

/-! ### Links -/

/-- The class names `b` as its superclass and is no interface, or names `b` as an interface. -/
def Declares (c : ClassFile) (b : String) : Prop :=
  (c.super = b ∧ b ≠ "" ∧ c.isInterface = false) ∨ b ∈ c.interfaces

/-- A class called `a` is at hand and declares `b` as a supertype. -/
def IsDirectSubtype (cs : List ClassFile) (a b : String) : Prop :=
  ∃ c ∈ cs, c.name = a ∧ Declares c b

/-- A chain of links leads from `a` to `b`. -/
def IsSubtype (cs : List ClassFile) : String → String → Prop :=
  Relation.TransGen (IsDirectSubtype cs)

/-- `directSupertypes` lists what a class `Declares`. -/
private theorem mem_directSupertypes {c : ClassFile} {b : String} :
    b ∈ directSupertypes c ↔ Declares c b := by
  rw [directSupertypes, mem_distinct, List.mem_append, Declares]
  refine or_congr_left ?_
  split
  · rename_i hnone
    -- interfaces and classes without a superclass declare no superclass
    have habsent : ¬ (c.super = b ∧ b ≠ "" ∧ c.isInterface = false) := by
      rintro ⟨rfl, hne, hclass⟩
      rcases hnone with hempty | hinterface
      · exact hne hempty
      · rw [hclass] at hinterface
        exact Bool.noConfusion hinterface
    simp [habsent]
  · -- the superclass of a class is declared, whether it is at hand or not
    rename_i hsome
    rw [not_or, Bool.not_eq_true] at hsome
    rw [List.mem_singleton]
    constructor
    · rintro rfl
      exact ⟨rfl, hsome.1, hsome.2⟩
    · exact fun h => h.1.symm

/-- `subtypePairs` holds the links of `IsDirectSubtype`, turned round. -/
private theorem mem_subtypePairs {cs : List ClassFile} {a b : String} :
    (b, a) ∈ subtypePairs cs ↔ IsDirectSubtype cs a b := by
  simp only [subtypePairs, List.mem_flatMap, List.mem_mergeSort, List.mem_map, Prod.mk.injEq,
    mem_directSupertypes, IsDirectSubtype]
  constructor
  · rintro ⟨c, hc, s, hs, rfl, rfl⟩
    exact ⟨c, hc, rfl, hs⟩
  · rintro ⟨c, hc, rfl, hs⟩
    exact ⟨c, hc, b, hs, rfl, rfl⟩

/-- Only classes at hand are in `IsDirectSubtype` to others. -/
theorem IsDirectSubtype.mem_names {cs : List ClassFile} {a b : String} (h : IsDirectSubtype cs a b) :
    a ∈ cs.map ClassFile.name := by
  obtain ⟨c, hc, rfl, -⟩ := h
  exact List.mem_map_of_mem hc

/-- Only classes at hand are in `IsSubtype` to others. -/
theorem IsSubtype.mem_names {cs : List ClassFile} {a b : String} (h : IsSubtype cs a b) :
    a ∈ cs.map ClassFile.name := by
  obtain ⟨c, hac, -⟩ := Relation.TransGen.head'_iff.1 h
  exact hac.mem_names

/-- At most one class bears a name. -/
theorem eq_of_name_eq {cs : List ClassFile} (hnames : (cs.map ClassFile.name).Nodup) {c d : ClassFile}
    (hc : c ∈ cs) (hd : d ∈ cs) (hname : c.name = d.name) : c = d :=
  List.inj_on_of_nodup_map hnames hc hd hname

namespace Hierarchy

variable {h : Hierarchy}

/-! ### Classes by name -/

/-- `get?` finds exactly the classes at hand, under their names. -/
theorem get?_eq_some (hnames : h.names.Nodup) {name : String} {c : ClassFile} :
    h.get? name = some c ↔ c ∈ h.classes ∧ c.name = name := by
  -- no class is hidden by another of its name
  have hkeys : ((h.classes.map fun c => (c.name, c)).map Prod.fst).Nodup := by
    rw [List.map_map]
    exact hnames
  rw [get?, h.byName_eq, getElem?_firstTable_eq_some hkeys, List.mem_map]
  constructor
  · rintro ⟨d, hd, heq⟩
    obtain ⟨rfl, rfl⟩ := Prod.mk.inj heq
    exact ⟨hd, rfl⟩
  · rintro ⟨hc, rfl⟩
    exact ⟨c, hc, rfl⟩

/-- `get?` finds a class at hand under its name. -/
theorem get?_name (hnames : h.names.Nodup) {c : ClassFile} (hc : c ∈ h.classes) :
    h.get? c.name = some c :=
  (get?_eq_some hnames).2 ⟨hc, rfl⟩

/-! ### The search down -/

/-- `directSubtypes` lists what is in `IsDirectSubtype` to the name. -/
theorem mem_directSubtypes {a b : String} :
    a ∈ h.directSubtypes b ↔ IsDirectSubtype h.classes a b := by
  rw [directSubtypes, h.subtypesOf_eq, getD_groups, ← mem_subtypePairs, List.mem_map]
  constructor
  · rintro ⟨p, hp, rfl⟩
    obtain ⟨hmem, hkey⟩ := List.mem_filter.1 hp
    rw [← eq_of_beq hkey]
    exact hmem
  · intro hmem
    exact ⟨(b, a), List.mem_filter.2 ⟨hmem, beq_self_eq_true b⟩, rfl⟩

/-- What is `Reached` from the direct subtypes of a class along links are its subtypes (`IsSubtype`). -/
theorem reached_iff_isSubtype {a b : String} :
    Reached h.names h.directSubtypes (h.directSubtypes b) a ↔ IsSubtype h.classes a b := by
  constructor
  · rintro ⟨r, hr, -, hpath⟩
    have hroot : IsSubtype h.classes r b := .single (mem_directSubtypes.1 hr)
    -- from the root of the search on, one link at its end
    induction hpath with
    | refl => exact hroot
    | tail _ hlead ih => exact .head (mem_directSubtypes.1 hlead.1) ih
  · intro hsub
    -- from the lower end of the chain, where the search arrives last
    induction hsub using Relation.TransGen.head_induction_on with
    | single hdirect => exact ⟨_, mem_directSubtypes.2 hdirect, hdirect.mem_names, .refl⟩
    | head hdirect _ ih =>
      obtain ⟨r, hr, hname, hpath⟩ := ih
      exact ⟨r, hr, hname, hpath.tail ⟨mem_directSubtypes.2 hdirect, hdirect.mem_names⟩⟩

/-- `subtypes` lists the other names that are in `IsSubtype` to the name. -/
theorem mem_subtypes {a b : String} : a ∈ h.subtypes b ↔ a ≠ b ∧ IsSubtype h.classes a b := by
  rw [subtypes, Text.mem_sort, List.mem_filter, mem_closure, reached_iff_isSubtype, bne_iff_ne,
    and_comm]

/-- `subtypes` are listed in ascending order. -/
theorem pairwise_subtypes (h : Hierarchy) (name : String) : (h.subtypes name).Pairwise (· < ·) := by
  have hnodup := nodup_closure h.names h.directSubtypes (h.directSubtypes name)
  exact Text.pairwise_sort (hnodup.sublist List.filter_sublist)

/-! ### The search up -/

/-- What a class `Declares` is among its `parents`. -/
private theorem mem_parents_of_declares {c : ClassFile} {b : String} (hb : Declares c b) : b ∈ parents c := by
  unfold parents
  rcases hb with ⟨rfl, hne, -⟩ | hb
  · rw [if_neg hne]
    exact List.mem_cons_self
  · split
    · exact hb
    · exact List.mem_cons_of_mem _ hb

/-- The search up from the `parents` of a class gets to everything that the class is a subtype of. -/
private theorem reached_parents (hnames : h.names.Nodup) {c : ClassFile} (hc : c ∈ h.classes) {b : String}
    (hsub : IsSubtype h.classes c.name b) (hb : b ∈ h.names) :
    Reached h.names h.parentsOf (parents c) b := by
  induction hsub with
  | single hdirect =>
    obtain ⟨d, hd, hname, hdeclares⟩ := hdirect
    obtain rfl := eq_of_name_eq hnames hd hc hname
    exact ⟨_, mem_parents_of_declares hdeclares, hb, .refl⟩
  | @tail x y _ hdirect ih =>
    -- the class in between is at hand, for it declares the next one
    obtain ⟨r, hr, hrname, hpath⟩ := ih hdirect.mem_names
    obtain ⟨d, hd, rfl, hdeclares⟩ := hdirect
    have hlead : y ∈ h.parentsOf d.name := by
      rw [parentsOf, get?_name hnames hd]
      exact mem_parents_of_declares hdeclares
    exact ⟨r, hr, hrname, hpath.tail ⟨hlead, hb⟩⟩

/-- `supertypes` lists every other class at hand that the class is a subtype of (`IsSubtype`). -/
theorem mem_supertypes_of_isSubtype (hnames : h.names.Nodup) {c d : ClassFile} (hc : c ∈ h.classes)
    (hd : d ∈ h.classes) (hne : d.name ≠ c.name) (hsub : IsSubtype h.classes c.name d.name) :
    d ∈ h.supertypes c := by
  have hreached := reached_parents hnames hc hsub (List.mem_map_of_mem hd)
  refine List.mem_filterMap.2 ⟨d.name, ?_, get?_name hnames hd⟩
  rw [Text.mem_sort, List.mem_filter, mem_closure, bne_iff_ne]
  exact ⟨hreached, hne⟩

/-- Induction over `supertypes`: whatever holds of the `parents` of a class and passes from every class to its
    `parents` holds of the classes that the search up finds. -/
theorem supertypes_induction (hnames : h.names.Nodup) {c : ClassFile} {p : String → Prop}
    (hroots : ∀ b ∈ parents c, b ∈ h.names → p b)
    (hstep : ∀ d ∈ h.classes, p d.name → ∀ b ∈ parents d, b ∈ h.names → p b) {d : ClassFile}
    (hd : d ∈ h.supertypes c) : p d.name := by
  obtain ⟨name, hmem, hget⟩ := List.mem_filterMap.1 hd
  obtain ⟨-, rfl⟩ := (get?_eq_some hnames).1 hget
  rw [Text.mem_sort, List.mem_filter, mem_closure] at hmem
  obtain ⟨⟨r, hr, hrname, hpath⟩, -⟩ := hmem
  generalize d.name = target at hpath
  -- along the search, from the parents of the class on
  induction hpath with
  | refl => exact hroots r hr hrname
  | @tail x y _ hlead ih =>
    obtain ⟨hy, hyname⟩ := hlead
    unfold parentsOf at hy
    -- no link leaves a name that stands for no class
    cases hx : h.get? x with
    | none =>
      rw [hx] at hy
      exact absurd hy List.not_mem_nil
    | some b =>
      rw [hx] at hy
      obtain ⟨hb, rfl⟩ := (get?_eq_some hnames).1 hx
      exact hstep b hb ih y hy hyname

/-- `supertypes` lists classes at hand only. -/
theorem mem_classes_of_mem_supertypes (hnames : h.names.Nodup) {c d : ClassFile}
    (hd : d ∈ h.supertypes c) : d ∈ h.classes := by
  obtain ⟨name, -, hget⟩ := List.mem_filterMap.1 hd
  exact ((get?_eq_some hnames).1 hget).1

end Hierarchy
end CallAtlas.Program
