import CallAtlas.Proofs.Program.Overriding

/-!
# What runs and what is called

An object runs the method that is nearest on the chain of superclasses of its class. A virtual call is
said to lead to methods of the class that its target belongs to and of the subtypes of this class. Where
the target can be overridden, this covers every method that objects run, as long as the class with the
method is below the one that the call names or on the way up from the object to it
(`receiver_method_called_iff`). It does not cover a method that an object has from a superclass apart from
the class that the call names, nor the namesake of a private method (`receivers_not_covered`).
-/

namespace CallAtlas.Program

open Facts

/-- Whatever object of a class at hand the call is made on, the call leads to the method that runs. -/
def CoversReceivers (cs : List ClassFile) (s : NamedSite) : Prop :=
  ∀ c ∈ cs, c.isInterface = false → ClassFile.hasAccess c.access .isAbstract = false →
    (c.name = s.ref.owner ∨ IsSubtype cs c.name s.ref.owner) →
    ∀ d, Nearest cs (Implements · s.ref.name s.ref.descriptor) c d →
      s.inClass d ∈ (resolveSite (.ofClasses cs) .overrides s).1

/-! ### Ways up from a class -/

/-- A way up by `IsSuperclass` with at least one step leads to a supertype (`IsSubtype`). -/
private theorem isSubtype_of_path {cs : List ClassFile} {b c d : ClassFile} (hb : b ∈ cs)
    (hfirst : IsSuperclass cs b c) (hpath : Relation.ReflTransGen (IsSuperclass cs) c d) :
    IsSubtype cs b.name d.name := by
  have hlink : IsSubtype cs b.name c.name := .single (hfirst.isDirectSubtype hb)
  have hc : c ∈ cs := hfirst.2.2.1
  induction hpath with
  | refl => exact hlink
  | @tail x y hx hstep ih =>
    -- each class on the way is one that is at hand, the first by assumption
    have hmem : x ∈ cs := by
      rcases Relation.ReflTransGen.cases_tail hx with rfl | ⟨w, -, hw⟩
      · exact hc
      · exact hw.2.2.1
    exact ih.tail (hstep.isDirectSubtype hmem)

/-- If the way up from a class passes `o`, then the class `NearestAfter` it comes before `o` or is the `Nearest`
    one from `o` on. -/
private theorem NearestAfter.below_or_nearest {cs : List ClassFile} (hnames : (cs.map ClassFile.name).Nodup)
    {p : ClassFile → Prop} {n : Nat} {c d o : ClassFile} (hc : c ∈ cs)
    (hpath : Relation.ReflTransGen (IsSuperclass cs) c o) (hd : NearestAfter cs p n c d) :
    IsSubtype cs d.name o.name ∨ Nearest cs p o d := by
  induction hd with
  | @here c hp =>
    rcases Relation.ReflTransGen.cases_head hpath with rfl | ⟨b, hstep, hrest⟩
    · exact .inr ⟨0, .here hp⟩
    · exact .inl (isSubtype_of_path hc hstep hrest)
  | @above n c b d hnot hsuper hd ih =>
    rcases Relation.ReflTransGen.cases_head hpath with rfl | ⟨b', hstep, hrest⟩
    · exact .inr ⟨n + 1, .above hnot hsuper hd⟩
    · -- there is one way up
      obtain rfl := hsuper.unique hnames hstep
      exact ih hsuper.2.2.1 hrest

/-! ### The classes that a call leads to -/

namespace Hierarchy

variable {h : Hierarchy} (hnames : h.names.Nodup)
include hnames

/-- What is below the class that a call names is below the class of its target, which `resolve` finds above. -/
theorem below_target {owner name descriptor : String} {f : Found}
    (hf : h.resolve owner name descriptor = some f) {d : String}
    (hd : d = owner ∨ IsSubtype h.classes d owner) :
    d = f.owner.name ∨ IsSubtype h.classes d f.owner.name := by
  obtain ⟨-, -, howner⟩ := resolve_eq_some hnames hf
  rcases hd with rfl | hd
  · exact howner.imp Eq.symm id
  · rcases howner with heq | habove
    · exact .inr (heq ▸ hd)
    · exact .inr (hd.trans habove)

/-- If the way up from an object passes the class that a call names, then the `Nearest` declaration is below
    this class, or it is the target of the call. -/
private theorem below_target_of_path {owner name descriptor : String} {f : Found}
    (hf : h.resolve owner name descriptor = some f) {c d o : ClassFile} (hc : c ∈ h.classes)
    (ho : o ∈ h.classes) (howner : o.name = owner)
    (hpath : Relation.ReflTransGen (IsSuperclass h.classes) c o)
    (hd : Nearest h.classes (HasMethod name descriptor) c d) :
    d.name = f.owner.name ∨ IsSubtype h.classes d.name f.owner.name := by
  obtain ⟨n, hd⟩ := hd
  rcases hd.below_or_nearest hnames hc hpath with hsub | hnearest
  · exact below_target hnames hf (.inr (howner ▸ hsub))
  · -- no method is found in a class without a name
    have hnamed : o.name ≠ "" := by
      rintro hempty
      rw [← howner, hempty, resolve_empty] at hf
      cases hf
    obtain ⟨m, -, hresolve⟩ := resolve_of_nearest hnames ho hnamed hnearest
    rw [howner, hf, Option.some.injEq] at hresolve
    rw [hresolve]
    exact .inl rfl

/-- The callees of `resolveSite` are methods of the class of the target `f` and, if `f` can be overridden, of
    its subtypes. -/
theorem below_of_inClass_mem {s : NamedSite} {f : Found}
    (hf : h.resolve s.ref.owner s.ref.name s.ref.descriptor = some f) {d : ClassFile}
    (hd : s.inClass d ∈ (resolveSite h .overrides s).1) :
    d.name = f.owner.name ∨ (isDispatched f.method = true ∧ IsSubtype h.classes d.name f.owner.name) := by
  rw [resolveSite_eq hnames .overrides hf] at hd
  rcases List.mem_cons.1 hd with heq | hmem
  · exact .inl (Location.owner_eq_of_ofMethod_eq heq)
  · obtain ⟨e, he, heq⟩ := List.mem_map.1 hmem
    -- a location tells its class
    have hename : e.name = d.name := Location.owner_eq_of_ofMethod_eq heq
    split at he
    · obtain ⟨hdispatched, -, -, hsub, -⟩ := (mem_overriders hnames).1 he
      exact .inr ⟨hdispatched, hename ▸ hsub⟩
    · exact absurd he List.not_mem_nil

/-- Of the classes at hand that implement the method, `resolveSite` lists that of the target `f` and, if `f` can
    be overridden, all its subtypes. -/
private theorem inClass_mem_callees_iff {s : NamedSite} (hvirtual : s.isVirtual = true) {f : Found}
    (hf : h.resolve s.ref.owner s.ref.name s.ref.descriptor = some f) {d : ClassFile} (hd : d ∈ h.classes)
    (himplements : Implements d s.ref.name s.ref.descriptor) :
    s.inClass d ∈ (resolveSite h .overrides s).1 ↔
      d = f.owner ∨ (isDispatched f.method = true ∧ IsSubtype h.classes d.name f.owner.name) := by
  obtain ⟨htarget, howner, -⟩ := resolve_eq_some hnames hf
  obtain ⟨-, hname, hdescriptor⟩ := method?_eq_some htarget
  constructor
  · intro hmem
    -- locations tell classes apart by their names, and no two classes at hand share one
    exact (below_of_inClass_mem hnames hf hmem).imp_left (eq_of_name_eq hnames hd howner)
  · rw [resolveSite_eq hnames .overrides hf, hvirtual]
    rintro (rfl | ⟨hdispatched, hsub⟩)
    · exact List.mem_cons_self
    · by_cases heq : d.name = f.owner.name
      · rw [eq_of_name_eq hnames hd howner heq]
        exact List.mem_cons_self
      · refine List.mem_cons_of_mem _ (List.mem_map_of_mem ((mem_overriders hnames).2 ?_))
        rw [hname, hdescriptor]
        exact ⟨hdispatched, hd, heq, hsub, himplements⟩

end Hierarchy

/-- `resolveSite` lists the method that an object runs exactly if the class with this method is that of the
    target `f`, or a subtype of it and `f` can be overridden. If it can, it is enough that the class is below
    the one that the call names, or that it is the first to declare the method on a way up that passes the class
    that the call names. -/
theorem receiver_method_called_iff {cs : List ClassFile} (hnames : (cs.map ClassFile.name).Nodup)
    {s : NamedSite} (hvirtual : s.isVirtual = true) {f : Found}
    (hf : (Hierarchy.ofClasses cs).resolve s.ref.owner s.ref.name s.ref.descriptor = some f) :
    ∀ c ∈ cs, ∀ d, Nearest cs (Implements · s.ref.name s.ref.descriptor) c d →
      (s.inClass d ∈ (resolveSite (.ofClasses cs) .overrides s).1 ↔ d = f.owner ∨
        (isDispatched f.method = true ∧ IsSubtype cs d.name f.owner.name)) ∧
      (isDispatched f.method = true →
        (d.name = s.ref.owner ∨ IsSubtype cs d.name s.ref.owner ∨
          ∃ o ∈ cs, o.name = s.ref.owner ∧ Relation.ReflTransGen (IsSuperclass cs) c o ∧
            Nearest cs (Hierarchy.HasMethod s.ref.name s.ref.descriptor) c d) →
        s.inClass d ∈ (resolveSite (.ofClasses cs) .overrides s).1) := by
  rintro c hc d ⟨n, hd⟩
  have hmem : d ∈ cs := hd.mem hc
  have hcalled :=
    Hierarchy.inClass_mem_callees_iff (h := .ofClasses cs) hnames hvirtual hf hmem hd.holds
  refine ⟨hcalled, fun hdispatched hplace => ?_⟩
  -- wherever the class stands, it is the class of the target or below it
  have hbelow : d.name = f.owner.name ∨ IsSubtype cs d.name f.owner.name := by
    rcases hplace with heq | hsub | ⟨o, ho, honame, hpath, hnearest⟩
    · exact Hierarchy.below_target (h := .ofClasses cs) hnames hf (.inl heq)
    · exact Hierarchy.below_target (h := .ofClasses cs) hnames hf (.inr hsub)
    · exact Hierarchy.below_target_of_path (h := .ofClasses cs) hnames hf hc ho honame hpath hnearest
  apply hcalled.2
  rcases hbelow with heq | hsub
  · obtain ⟨-, howner, -⟩ := Hierarchy.resolve_eq_some (h := .ofClasses cs) hnames hf
    exact .inl (eq_of_name_eq hnames hmem howner heq)
  · exact .inr ⟨hdispatched, hsub⟩

/-- `receiver_method_called_iff` on `receivers`: an object of class `V` runs the method of `Q`, which the call
    leads to. -/
theorem receiver_method_called_receivers : ∃ v q,
    v ∈ (hierarchyOf receiverClasses).classes ∧ v.name = "V" ∧ q.name = "Q" ∧
    Nearest (hierarchyOf receiverClasses).classes (Implements · "r" "()V") v q ∧
    callOfOverridden.inClass q ∈
      (resolveSite (hierarchyOf receiverClasses) .overrides callOfOverridden).1 := by
  have hcs : IsProgram receiverClasses := isProgram_keptClasses _ _
  obtain ⟨p, q', -, hQ', hresolve, hq'⟩ := exists_overridden_receivers
  obtain ⟨q, hq, hqQ⟩ := exists_outline_eq map_outline_receiverClasses 4 (by decide)
  obtain ⟨v, hv, hvV⟩ := exists_outline_eq map_outline_receiverClasses 5 (by decide)
  have hV : v.classFile.name = "V" := congrArg Outline.name hvV
  have hQ : q.classFile.name = "Q" := congrArg Outline.name hqQ
  -- `V` has no such method itself, so that one step up leads to that of `Q`
  have hruns : Nearest (hierarchyOf receiverClasses).classes (Implements · "r" "()V") v.classFile
      q.classFile :=
    ⟨1, .above (hcs.not_implements_of_outline hv (by rw [hvV]; rfl))
      (isSuperclass_of_outline hq (by rw [hvV, hqQ]; decide))
      (.here (hcs.implements_of_outline hq (m := (returning 1 "Q" "r").method) (by rw [hqQ]; rfl)
        (by decide)))⟩
  obtain ⟨hiff, -⟩ := receiver_method_called_iff hcs.nodup_names (s := callOfOverridden) (by decide) hresolve
    v.classFile (List.mem_map_of_mem hv) q.classFile hruns
  obtain ⟨hdispatched, -, -, hsub, -⟩ := (Hierarchy.mem_overriders hcs.nodup_names).1 hq'
  -- the method can be overridden, and its class is below that of the target
  have hbelow : IsSubtype (hierarchyOf receiverClasses).classes q.classFile.name p.name := by
    rw [hQ, ← hQ']
    exact hsub
  exact ⟨v.classFile, q.classFile, List.mem_map_of_mem hv, hV, hQ, hruns, hiff.2 (.inr ⟨hdispatched, hbelow⟩)⟩

/-! ### Two calls that miss a method -/

/-- In `receivers`, the class `D` has nothing to do with the interface `I`. -/
private theorem not_isSubtype_receivers : ¬ IsSubtype (hierarchyOf receiverClasses).classes "D" "I" := by
  have houtline : ∀ c ∈ receiverClasses, c.classFile.name = "D" →
      c.classFile.super = "java/lang/Object" ∧ c.classFile.interfaces = [] :=
    forall_of_outlines (p := fun o => o.name = "D" → o.super = "java/lang/Object" ∧ o.interfaces = [])
      map_outline_receiverClasses (by decide)
  intro hsub
  obtain ⟨b, ⟨c, hc, hname, hdeclares⟩, hrest⟩ := Relation.TransGen.head'_iff.1 hsub
  obtain ⟨e, he, rfl⟩ := List.mem_map.1 hc
  obtain ⟨hsuper, hnone⟩ := houtline e he hname
  -- the only class above is one that is not at hand
  have hb : b = "java/lang/Object" := by
    rcases hdeclares with ⟨heq, -⟩ | hmem
    · rw [← heq, hsuper]
    · rw [hnone] at hmem
      exact absurd hmem List.not_mem_nil
  -- it is not the interface, and nothing leads on from it
  rcases Relation.ReflTransGen.cases_head hrest with heq | ⟨a, hlink, -⟩
  · rw [hb] at heq
    exact absurd heq (by decide)
  · have hnames := hlink.mem_names
    rw [hb, show List.map _ _ = _ from names_of_outlines map_outline_receiverClasses] at hnames
    exact absurd hnames (by decide)

/-- `callOfInterface` misses the method that objects of class `C` have from `D`. -/
private theorem interface_not_covered :
    (∃ f, (hierarchyOf receiverClasses).resolve "I" "m" "()V" = some f) ∧
      ¬ CoversReceivers (hierarchyOf receiverClasses).classes callOfInterface := by
  have hcs : IsProgram receiverClasses := isProgram_keptClasses _ _
  obtain ⟨c, hc, hcC⟩ := exists_outline_eq map_outline_receiverClasses 0 (by decide)
  obtain ⟨d, hd, hdD⟩ := exists_outline_eq map_outline_receiverClasses 1 (by decide)
  obtain ⟨i, hi, hiI⟩ := exists_outline_eq map_outline_receiverClasses 2 (by decide)
  have hI : i.classFile.name = "I" := congrArg Outline.name hiI
  have hD : d.classFile.name = "D" := congrArg Outline.name hdD
  have hresolve : (hierarchyOf receiverClasses).resolve "I" "m" "()V" =
      some ⟨i.classFile, ⟨1025, "m", "()V", none⟩⟩ := by
    rw [← hI]
    exact hcs.resolve_of_method? hi (by rw [hI]; decide) (by rw [hiI]; rfl)
  refine ⟨⟨_, hresolve⟩, fun hcovers => ?_⟩
  have hreceiver : IsSubtype (hierarchyOf receiverClasses).classes c.classFile.name "I" := by
    refine .single ⟨c.classFile, List.mem_map_of_mem hc, rfl, .inr ?_⟩
    rw [show c.classFile.interfaces = ["I"] from congrArg Outline.interfaces hcC]
    exact List.mem_singleton_self _
  -- `C` has no method of its own, so objects of it run the one of `D`
  have hruns : Nearest (hierarchyOf receiverClasses).classes (Implements · "m" "()V") c.classFile
      d.classFile :=
    ⟨1, .above (hcs.not_implements_of_outline hc (by rw [hcC]; rfl))
      (isSuperclass_of_outline hd (by rw [hcC, hdD]; decide))
      (.here (hcs.implements_of_outline hd (m := (returning 1 "D" "m").method) (by rw [hdD]; rfl)
        (by decide)))⟩
  have hconcrete : c.outline.isInterface = false ∧
      ClassFile.hasAccess c.outline.access .isAbstract = false := by
    rw [hcC]
    decide
  have hcalled := hcovers c.classFile (List.mem_map_of_mem hc) hconcrete.1 hconcrete.2
    (.inr hreceiver) d.classFile hruns
  -- but `D` is neither the interface nor below it
  rcases Hierarchy.below_of_inClass_mem hcs.nodup_names hresolve hcalled with
    heq | ⟨-, hsub⟩
  · rw [hD, hI] at heq
    exact absurd heq (by decide)
  · rw [hD, hI] at hsub
    exact not_isSubtype_receivers hsub

/-- `callOfPrivate` misses its namesake in `Q`. -/
private theorem private_not_covered :
    (∃ f, (hierarchyOf receiverClasses).resolve "P" "p" "()V" = some f) ∧
      ¬ CoversReceivers (hierarchyOf receiverClasses).classes callOfPrivate := by
  have hcs : IsProgram receiverClasses := isProgram_keptClasses _ _
  obtain ⟨p, hp, hpP⟩ := exists_outline_eq map_outline_receiverClasses 3 (by decide)
  obtain ⟨q, hq, hqQ⟩ := exists_outline_eq map_outline_receiverClasses 4 (by decide)
  have hP : p.classFile.name = "P" := congrArg Outline.name hpP
  have hQ : q.classFile.name = "Q" := congrArg Outline.name hqQ
  have hresolve : (hierarchyOf receiverClasses).resolve "P" "p" "()V" =
      some ⟨p.classFile, (returning 2 "P" "p").method⟩ := by
    rw [← hP]
    exact hcs.resolve_of_method? hp (by rw [hP]; decide) (by rw [hpP]; rfl)
  refine ⟨⟨_, hresolve⟩, fun hcovers => ?_⟩
  have hlink : IsSuperclass (hierarchyOf receiverClasses).classes q.classFile p.classFile :=
    isSuperclass_of_outline hp (by rw [hqQ, hpP]; decide)
  have hreceiver : IsSubtype (hierarchyOf receiverClasses).classes q.classFile.name "P" :=
    .single (hP ▸ hlink.isDirectSubtype (List.mem_map_of_mem hq))
  -- the namesake is the nearest one to its own class
  have hruns : Nearest (hierarchyOf receiverClasses).classes (Implements · "p" "()V") q.classFile
      q.classFile :=
    ⟨0, .here (hcs.implements_of_outline hq (m := (returning 1 "Q" "p").method) (by rw [hqQ]; rfl)
      (by decide))⟩
  have hconcrete : ClassFile.hasAccess q.outline.access .isAbstract = false := by
    rw [hqQ]
    decide
  have hcalled := hcovers q.classFile (List.mem_map_of_mem hq) hlink.1 hconcrete (.inr hreceiver)
    q.classFile hruns
  rcases Hierarchy.below_of_inClass_mem hcs.nodup_names hresolve hcalled with
    heq | ⟨hdispatched, -⟩
  · rw [hQ, hP] at heq
    exact absurd heq (by decide)
  · -- a private method cannot be overridden, so that the call leads to it alone
    have hfixed : isDispatched (returning 2 "P" "p").method = false := by decide
    rw [show isDispatched _ = false from hfixed] at hdispatched
    cases hdispatched

/-- Resolved virtual calls do not always lead to the methods that objects run (`CoversReceivers`). -/
theorem receivers_not_covered :
    (callOfInterface ∈ callsOf receiverClasses ∧ callOfInterface.isVirtual = true ∧
      (∃ f, (hierarchyOf receiverClasses).resolve "I" "m" "()V" = some f) ∧
      ¬ CoversReceivers (hierarchyOf receiverClasses).classes callOfInterface) ∧
    (callOfPrivate ∈ callsOf receiverClasses ∧ callOfPrivate.isVirtual = true ∧
      (∃ f, (hierarchyOf receiverClasses).resolve "P" "p" "()V" = some f) ∧
      ¬ CoversReceivers (hierarchyOf receiverClasses).classes callOfPrivate) := by
  have hcalls := mem_callsOf_receiverClasses
  exact ⟨⟨hcalls _ (by simp), by decide, interface_not_covered⟩,
    ⟨hcalls _ (by simp), by decide, private_not_covered⟩⟩

end CallAtlas.Program
