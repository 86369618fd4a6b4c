import CallAtlas.ClassFile.Assembler
import CallAtlas.Proofs.Program.Contents

/-!
# Overriding methods

A virtual call leads to the method that it names and to the methods that override it in subtypes. These
are found by a search down from the class of the named method; what each method overrides is found by a
search up from its own class. Both searches agree: whatever a call leads to besides the named method is
recorded as overriding it, as long as no other such fact has the same key
(`overriding_callees_recorded`).
-/

namespace CallAtlas.Program

open Facts

/-- A call of the method can lead to methods of subtypes. -/
def isDispatched (m : ClassFile.Method) : Bool :=
  isOverridable m && !m.isFinal

/-- The method is run on an object and has code of its own. -/
def isConcrete (m : ClassFile.Method) : Bool :=
  !m.isStatic && !m.isPrivate && !m.isAbstract

/-- The first method of the class with a name and a descriptor is concrete. -/
def Implements (c : ClassFile) (name descriptor : String) : Prop :=
  ∃ m, c.method? name descriptor = some m ∧ isConcrete m = true

namespace NamedSite

/-- The call is one that looks at the object it is made on. -/
def isVirtual (s : NamedSite) : Bool :=
  s.site.kind == .virtual || s.site.kind == .interface

/-- The method that a call names, as a method of a class. -/
def inClass (s : NamedSite) (c : ClassFile) : Location :=
  .ofMethod c.name s.ref.name s.params

end NamedSite

/-- A method of the name of one that `isOverridable` is so without being abstract exactly if it `isConcrete`. -/
theorem isOverridable_and_eq {m n : ClassFile.Method} (hm : isOverridable m = true)
    (hname : n.name = m.name) : (isOverridable n && !n.isAbstract) = isConcrete n := by
  simp only [isOverridable, Bool.and_eq_true] at hm
  rw [isOverridable, isConcrete, hname, hm.1.2, hm.2, Bool.and_true, Bool.and_true]

namespace Hierarchy

variable {h : Hierarchy}

/-- `overriders` of a method that `isDispatched` are the subtypes of its class that implement it
    (`Implements`). -/
theorem mem_overriders (hnames : h.names.Nodup) {f : Found} {c : ClassFile} :
    c ∈ h.overriders f ↔ isDispatched f.method = true ∧ c ∈ h.classes ∧ c.name ≠ f.owner.name ∧
      IsSubtype h.classes c.name f.owner.name ∧
        Implements c f.method.name f.method.descriptor := by
  unfold overriders
  -- what is dispatched can be overridden and is not final
  have hguard : (!isOverridable f.method || f.method.isFinal) = !isDispatched f.method := by
    rw [isDispatched, Bool.not_and, Bool.not_not]
  rw [hguard]
  cases hdispatched : isDispatched f.method with
  | false => simp
  | true =>
    -- in a subtype it is enough that the method is concrete
    have hoverridable : isOverridable f.method = true := (Bool.and_eq_true_iff.1 hdispatched).1
    simp only [Bool.not_true, Bool.false_eq_true, if_false, List.mem_filterMap, mem_subtypes,
      Option.bind_eq_bind, Option.bind_eq_some_iff, get?_eq_some hnames]
    constructor
    · rintro ⟨name, ⟨hne, hsub⟩, d, ⟨hd, rfl⟩, m, hm, hif⟩
      rw [isOverridable_and_eq hoverridable (method?_eq_some hm).2.1] at hif
      split at hif
      · rename_i hconcrete
        obtain rfl := Option.some.inj hif
        exact ⟨trivial, hd, hne, hsub, m, hm, hconcrete⟩
      · cases hif
    · rintro ⟨-, hc, hne, hsub, m, hm, hconcrete⟩
      refine ⟨c.name, ⟨hne, hsub⟩, c, ⟨hc, rfl⟩, m, hm, ?_⟩
      rw [isOverridable_and_eq hoverridable (method?_eq_some hm).2.1, if_pos hconcrete]

/-- `overriders` are listed in the order of their names. -/
private theorem pairwise_overriders (h : Hierarchy) (f : Found) :
    (h.overriders f).Pairwise fun c d => c.name < d.name :=
  List.pairwise_map.1 ((h.pairwise_subtypes f.owner.name).sublist (h.map_name_overriders_sublist f))

end Hierarchy

/-! ### The methods that a call leads to -/

/-- `resolveSite` for a call whose target is at hand: the target, and its `overriders` if the call is virtual
    and overriding counts. -/
theorem resolveSite_eq {h : Hierarchy} (hnames : h.names.Nodup) (dispatch : Dispatch) {s : NamedSite}
    {f : Found} (hf : h.resolve s.ref.owner s.ref.name s.ref.descriptor = some f) :
    resolveSite h dispatch s = (s.inClass f.owner ::
      (if s.isVirtual && dispatch == .overrides then h.overriders f else []).map s.inClass, true) := by
  obtain ⟨hmethod, -⟩ := Hierarchy.resolve_eq_some hnames hf
  have hname : f.method.name = s.ref.name := (method?_eq_some hmethod).2.1
  simp only [resolveSite, hf, hname, NamedSite.isVirtual]
  rfl

/-- `resolveSite` for a call whose target is not at hand: the method it names in the class it names. -/
theorem resolveSite_of_none {h : Hierarchy} (dispatch : Dispatch) {s : NamedSite}
    (hf : h.resolve s.ref.owner s.ref.name s.ref.descriptor = none) :
    resolveSite h dispatch s = ([.ofMethod s.ref.owner s.ref.name s.params], false) := by
  rw [resolveSite, hf]

/-- Where overriding counts, `resolveSite` leads to what it leads to otherwise and to what overrides it. -/
theorem mem_callees_overrides {h : Hierarchy} (hnames : h.names.Nodup) {s : NamedSite} {l : Location} :
    l ∈ (resolveSite h .overrides s).1 ↔ l ∈ (resolveSite h .declared s).1 ∨
      (s.isVirtual = true ∧ ∃ f, h.resolve s.ref.owner s.ref.name s.ref.descriptor = some f ∧
        ∃ c ∈ h.overriders f, s.inClass c = l) := by
  -- only a method that is found can be overridden
  cases hf : h.resolve s.ref.owner s.ref.name s.ref.descriptor with
  | none =>
    rw [resolveSite_of_none .overrides hf, resolveSite_of_none .declared hf]
    simp
  | some f =>
    rw [resolveSite_eq hnames .overrides hf, resolveSite_eq hnames .declared hf]
    cases hvirtual : s.isVirtual with
    | false => simp
    | true => simp

/-! ### What is recorded about overriding -/

/-- What `overridden?` finds has the name and the descriptor of the method. -/
private theorem overridden?_eq_some {m : LoadedMethod} {s : ClassFile} {l : Location}
    (hl : overridden? m s = some l) :
    ∃ sm type, s.method? m.method.name m.method.descriptor = some sm ∧
      Descriptor.parse m.method.descriptor = .ok type ∧
      l = .ofMethod s.name m.method.name type.params := by
  simp only [overridden?, Option.bind_eq_bind, Option.bind_eq_some_iff] at hl
  obtain ⟨sm, hsm, hl⟩ := hl
  split at hl
  · obtain ⟨type, htype, hl⟩ := Option.bind_eq_some_iff.1 hl
    -- the method is looked up by name and descriptor
    obtain ⟨-, hname, hdescriptor⟩ := method?_eq_some hsm
    have htype := Result.toOption_eq_some.1 htype
    rw [hdescriptor] at htype
    refine ⟨sm, type, hsm, htype, ?_⟩
    rw [← hname, ← Option.some.inj hl]
  · cases hl

/-- The `overrideFacts` of a class are about its methods and the methods of its `supertypes`. -/
theorem exists_method_of_mem_overrideFacts {h : Hierarchy} {c : LoadedClass} {t : Tuple}
    (ht : t ∈ overrideFacts h c) : ∃ m ∈ c.methods, ∃ super ∈ h.supertypes c.classFile,
      ∃ l, overridden? m super = some l ∧ t = [m.declaration, l] := by
  obtain ⟨m, hm, ht⟩ := List.mem_flatMap.1 ht
  unfold overrideFactsOf at ht
  split at ht
  · obtain ⟨l, hl, rfl⟩ := List.mem_map.1 ht
    obtain ⟨super, hsuper, hl⟩ := List.mem_filterMap.1 hl
    exact ⟨m, hm, super, hsuper, l, hl, rfl⟩
  · exact absurd ht List.not_mem_nil

namespace IsProgram

variable {cs : List LoadedClass} (h : IsProgram cs)
include h

/-- What overrides and what is overridden in `overrideFacts` are methods of loaded classes. -/
theorem exists_methods_of_mem_overrideFacts {t : Tuple}
    (ht : t ∈ cs.flatMap (overrideFacts (hierarchyOf cs))) :
    ∃ c ∈ cs, ∃ m ∈ c.methods, ∃ d ∈ cs, ∃ n ∈ d.methods, t = [m.declaration, n.declaration] := by
  obtain ⟨c, hc, ht⟩ := List.mem_flatMap.1 ht
  obtain ⟨m, hm, super, hsuper, l, hl, rfl⟩ := exists_method_of_mem_overrideFacts ht
  have hclass := Hierarchy.mem_classes_of_mem_supertypes h.nodup_names hsuper
  obtain ⟨sm, type, hsm, htype, rfl⟩ := overridden?_eq_some hl
  obtain ⟨d, hd, rfl, n, hn, -, hdeclaration⟩ := h.exists_method hclass hsm htype
  refine ⟨c, hc, m, hm, d, hd, n, hn, ?_⟩
  rw [hdeclaration]

/-- The locations in `overrideFacts` are fixed (`IsFixed`). -/
theorem isFixed_overrideFacts {t : Tuple} (ht : t ∈ cs.flatMap (overrideFacts (hierarchyOf cs))) :
    ∀ l ∈ t, l.IsFixed := by
  obtain ⟨c, hc, m, hm, d, hd, n, hn, rfl⟩ := h.exists_methods_of_mem_overrideFacts ht
  intro l hl
  simp only [List.mem_cons, List.not_mem_nil, or_false] at hl
  rcases hl with rfl | rfl
  · exact (h.isMethod hc hm).isFixed
  · exact (h.isMethod hd hn).isFixed

/-- `overrideFacts` have keys of their own (`KeysApart`) where no method has the closing character of keys in
    its names. -/
theorem keysApart_overrideFacts
    (hplain : ∀ c ∈ cs, ∀ m ∈ c.methods, m.declaration.IsPlain) :
    KeysApart (cs.flatMap (overrideFacts (hierarchyOf cs))) := by
  refine keysApart_of_plain fun t ht l hl => ?_
  obtain ⟨c, hc, m, hm, d, hd, n, hn, rfl⟩ := h.exists_methods_of_mem_overrideFacts ht
  simp only [List.mem_cons, List.not_mem_nil, or_false] at hl
  rcases hl with rfl | rfl
  · exact (hplain c hc m hm).notMem_text (h.isMethod hc hm).notMem_scheme.2
  · exact (hplain d hd n hn).notMem_text (h.isMethod hd hn).notMem_scheme.2

/-- `overrideFacts` say that a method overrides the method of its name and descriptor in every class that its
    class is a subtype of. -/
private theorem mem_overrideFacts_of_isSubtype {c : LoadedClass} (hc : c ∈ cs) {d : ClassFile}
    (hd : d ∈ (hierarchyOf cs).classes) (hne : d.name ≠ c.classFile.name)
    (hsub : IsSubtype (hierarchyOf cs).classes c.classFile.name d.name) {m : LoadedMethod}
    (hm : m ∈ c.methods) (hoverridable : isOverridable m.method = true) {n : ClassFile.Method}
    (hn : d.method? m.method.name m.method.descriptor = some n)
    (hnoverridable : isOverridable n = true) {type : MethodType}
    (htype : Descriptor.parse m.method.descriptor = .ok type) :
    [m.declaration, .ofMethod d.name m.method.name type.params] ∈
      overrideFacts (hierarchyOf cs) c := by
  obtain ⟨-, hname, hdescriptor⟩ := method?_eq_some hn
  -- the search up from the overriding class comes to the other one
  have hsuper : d ∈ (hierarchyOf cs).supertypes c.classFile :=
    Hierarchy.mem_supertypes_of_isSubtype h.nodup_names (List.mem_map_of_mem hc) hd hne hsub
  have hoverridden : overridden? m d = some (.ofMethod d.name m.method.name type.params) := by
    simp only [overridden?, hn, Option.bind_eq_bind, Option.bind_some, hnoverridable, if_true,
      hdescriptor, htype, Except.toOption, hname]
    rfl
  refine List.mem_flatMap.2 ⟨m, hm, ?_⟩
  rw [overrideFactsOf, if_pos hoverridable]
  exact List.mem_map_of_mem (List.mem_filterMap.2 ⟨d, hsuper, hoverridden⟩)

/-- `overrideFacts` hold of all `overriders` that they override the target of the call. -/
theorem mem_overrideFacts {s : NamedSite} (hs : s.IsTyped) {f : Found}
    (hf : (hierarchyOf cs).resolve s.ref.owner s.ref.name s.ref.descriptor = some f) {c : ClassFile}
    (hc : c ∈ (hierarchyOf cs).overriders f) :
    [s.inClass c, s.inClass f.owner] ∈ cs.flatMap (overrideFacts (hierarchyOf cs)) := by
  obtain ⟨type, htype, hparams⟩ := hs
  obtain ⟨htarget, howner, -⟩ := Hierarchy.resolve_eq_some h.nodup_names hf
  obtain ⟨-, hname, hdescriptor⟩ := method?_eq_some htarget
  obtain ⟨hdispatched, hclass, hne, hsub, m, hm, hconcrete⟩ :=
    (Hierarchy.mem_overriders h.nodup_names).1 hc
  have hoverridable : isOverridable f.method = true := (Bool.and_eq_true_iff.1 hdispatched).1
  rw [hname, hdescriptor] at hm
  obtain ⟨-, hmname, hmdescriptor⟩ := method?_eq_some hm
  -- in the subtype the method can be overridden as well
  have hmoverridable : isOverridable m = true := by
    have heq := isOverridable_and_eq hoverridable (hmname.trans hname.symm)
    rw [hconcrete, Bool.and_eq_true] at heq
    exact heq.1
  -- the overrider as it was loaded, so that its location is known
  obtain ⟨d, hd, rfl, n, hn, rfl, hdeclaration⟩ := h.exists_method hclass hm htype
  have hfact := h.mem_overrideFacts_of_isSubtype hd howner (Ne.symm hne) hsub hn hmoverridable
    (by rw [hmname, hmdescriptor, htarget]) hoverridable (by rw [hmdescriptor, htype])
  refine List.mem_flatMap.2 ⟨d, hd, ?_⟩
  rw [NamedSite.inClass, NamedSite.inClass, hparams, ← hdeclaration, ← hmname]
  exact hfact

/-- `resolve` finds the declaration of a class that has the method itself. -/
theorem resolve_of_method? {c : LoadedClass} (hc : c ∈ cs) (hnamed : c.classFile.name ≠ "")
    {name descriptor : String} {m : ClassFile.Method}
    (hm : c.outline.method? name descriptor = some m) :
    (hierarchyOf cs).resolve c.classFile.name name descriptor = some ⟨c.classFile, m⟩ := by
  rw [← h.method?_eq hc] at hm
  have hhas : Hierarchy.HasMethod name descriptor c.classFile := by
    rw [Hierarchy.HasMethod, hm]
    rfl
  obtain ⟨m', hm', hresolve⟩ := Hierarchy.resolve_of_nearest h.nodup_names (List.mem_map_of_mem hc)
    hnamed ⟨0, .here hhas⟩
  rw [hm, Option.some.injEq] at hm'
  rw [hresolve, hm']

/-- `Implements` can be read off the outline. -/
theorem implements_of_outline {c : LoadedClass} (hc : c ∈ cs) {name descriptor : String}
    {m : ClassFile.Method} (hm : c.outline.method? name descriptor = some m)
    (hconcrete : isConcrete m = true) : Implements c.classFile name descriptor := by
  rw [← h.method?_eq hc] at hm
  exact ⟨m, hm, hconcrete⟩

/-- A class whose outline lacks the method does not implement it (`Implements`). -/
theorem not_implements_of_outline {c : LoadedClass} (hc : c ∈ cs) {name descriptor : String}
    (hm : c.outline.method? name descriptor = none) : ¬ Implements c.classFile name descriptor := by
  rw [← h.method?_eq hc] at hm
  rintro ⟨m, hm', -⟩
  rw [hm] at hm'
  cases hm'

/-- A class with a concrete method is among the `overriders` of that of its superclass if this can be
    overridden. -/
private theorem mem_overriders_of_superclass {c d : LoadedClass} (hd : d ∈ cs)
    (hlink : IsSuperclass (hierarchyOf cs).classes d.classFile c.classFile)
    (hne : d.classFile.name ≠ c.classFile.name) {m n : ClassFile.Method}
    (hdispatched : isDispatched m = true)
    (hn : d.outline.method? m.name m.descriptor = some n) (hconcrete : isConcrete n = true) :
    d.classFile ∈ (hierarchyOf cs).overriders ⟨c.classFile, m⟩ := by
  have hmem : d.classFile ∈ (hierarchyOf cs).classes := List.mem_map_of_mem hd
  exact (Hierarchy.mem_overriders h.nodup_names).2
    ⟨hdispatched, hmem, hne, .single (hlink.isDirectSubtype hmem),
      h.implements_of_outline hd hn hconcrete⟩

end IsProgram

/-! ### Two programs -/

section
open ClassFile.Assembler

/-- An entry with the class file of a description. -/
def entryOf (path : Text.RawText) (c : ClassSpec) : ClassEntry :=
  { path, content := .ok (assemble c).bytes }

/-- An entry with the class file of a description, in which the character zero stands for U+0080. -/
def entryWithZeros (path : Text.RawText) (c : ClassSpec) : ClassEntry :=
  { path, content := .ok ((assemble c).bytes.map fun b => if b = 0xc2 then 0xc0 else b) }

/-- A method without parameters, as it is loaded. -/
def loadedMethod (access : Nat) (owner name : String) (bytes : List UInt8)
    (instructions : List Bytecode.Instruction) (sites : List NamedSite) : LoadedMethod :=
  { method := ⟨access, name, "()V", some ⟨8, 8, bytes, []⟩⟩
    declaration := .ofMethod owner name []
    code := some ⟨instructions, sites⟩ }

/-- A method that does nothing but return. -/
def returning (access : Nat) (owner name : String) : LoadedMethod :=
  loadedMethod access owner name [0xb1] [⟨0, 0xb1, 1, "return", 0, [], [], false⟩] []

/-- Two pairs of a class and a superclass. The names of one pair are cut from those of the other, so that what
    the methods override has the same key in both. -/
def crossed : List ClassEntry :=
  [entryWithZeros "1.class"
    { name := "X/m()\u0080java+method:///T", methods := [⟨.isPublic, "m", "()V", []⟩] },
   entryWithZeros "2.class"
    { name := "S", super := "X/m()\u0080java+method:///T", methods := [⟨.isPublic, "m", "()V", []⟩] },
   entryWithZeros "3.class"
    { name := "S/m()\u0080java+method:///X", super := "T", methods := [⟨.isPublic, "m", "()V", []⟩] },
   entryWithZeros "4.class"
    { name := "T", methods := [⟨.isPublic, "m", "()V", [.invokeVirtual "T" "m" "()V"]⟩] }]

/-- The call in `crossed`. -/
def callInT : NamedSite := ⟨⟨0, 0, .virtual, 6, 0⟩, ⟨10, "T", "m", "()V"⟩, []⟩

/-- The method that the call stands in and that it names. -/
def calledInT : LoadedMethod :=
  loadedMethod 1 "T" "m" [0xb6, 0, 6] [⟨0, 0xb6, 3, "invokevirtual", 6, [], [], false⟩] [callInT]

def outlinesOfCrossed : List Outline :=
  [⟨"X/m()\x00java+method:///T", 33, "java/lang/Object", [], "",
    [returning 1 "X/m()\x00java+method:///T" "m"]⟩,
   ⟨"S", 33, "X/m()\x00java+method:///T", [], "", [returning 1 "S" "m"]⟩,
   ⟨"S/m()\x00java+method:///X", 33, "T", [], "", [returning 1 "S/m()\x00java+method:///X" "m"]⟩,
   ⟨"T", 33, "java/lang/Object", [], "", [calledInT]⟩]

/-- The classes of `crossed`. -/
def crossedClasses : List LoadedClass :=
  keptClasses ⟨0, Bytecode.defaultLimit⟩ crossed

/-- The outlines of `crossedClasses`. -/
theorem map_outline_crossedClasses : crossedClasses.map LoadedClass.outline = outlinesOfCrossed :=
  map_outline_keptClasses (by decide) (by decide +kernel) (by decide)

/-- A program with an interface, a class that inherits the method of the interface from a class apart from it, a
    private method with a namesake in a subclass, and a method that a subclass overrides. -/
def receivers : List ClassEntry :=
  [entryOf "C.class" { name := "C", super := "D", interfaces := ["I"] },
   entryOf "D.class" { name := "D", methods := [⟨.isPublic, "m", "()V", []⟩] },
   entryOf "I.class"
    { name := "I", isInterface := true, methods := [⟨.isAbstract, "m", "()V", []⟩] },
   entryOf "P.class"
    { name := "P"
      methods := [⟨.isPrivate, "p", "()V", []⟩, ⟨.isPublic, "r", "()V", []⟩,
        ⟨.isStatic, "run", "()V", [.invokeInterface "I" "m" "()V", .invokeVirtual "P" "p" "()V",
          .invokeVirtual "P" "r" "()V"]⟩] },
   entryOf "Q.class"
    { name := "Q", super := "P"
      methods := [⟨.isPublic, "p", "()V", []⟩, ⟨.isPublic, "r", "()V", []⟩] },
   entryOf "V.class" { name := "V", super := "Q" }]

/-- The calls in `receivers`: of the interface, of the private and of the overridden method. -/
def callOfInterface : NamedSite := ⟨⟨0, 0, .interface, 6, 0⟩, ⟨11, "I", "m", "()V"⟩, []⟩
def callOfPrivate : NamedSite := ⟨⟨5, 1, .virtual, 11, 0⟩, ⟨10, "P", "p", "()V"⟩, []⟩
def callOfOverridden : NamedSite := ⟨⟨8, 2, .virtual, 14, 0⟩, ⟨10, "P", "r", "()V"⟩, []⟩

/-- The method that they stand in. -/
def callingRun : LoadedMethod :=
  loadedMethod 9 "P" "run" [0xb9, 0, 6, 1, 0, 0xb6, 0, 11, 0xb6, 0, 14]
    [⟨0, 0xb9, 5, "invokeinterface", 6, [], [], false⟩,
     ⟨5, 0xb6, 3, "invokevirtual", 11, [], [], false⟩,
     ⟨8, 0xb6, 3, "invokevirtual", 14, [], [], false⟩]
    [callOfInterface, callOfPrivate, callOfOverridden]

def outlinesOfReceivers : List Outline :=
  [⟨"C", 33, "D", ["I"], "", []⟩,
   ⟨"D", 33, "java/lang/Object", [], "", [returning 1 "D" "m"]⟩,
   ⟨"I", 1537, "java/lang/Object", [], "",
    [⟨⟨1025, "m", "()V", none⟩, .ofMethod "I" "m" [], none⟩]⟩,
   ⟨"P", 33, "java/lang/Object", [], "",
    [returning 2 "P" "p", returning 1 "P" "r", callingRun]⟩,
   ⟨"Q", 33, "P", [], "", [returning 1 "Q" "p", returning 1 "Q" "r"]⟩,
   ⟨"V", 33, "Q", [], "", []⟩]

/-- The classes of `receivers`. -/
def receiverClasses : List LoadedClass :=
  keptClasses ⟨0, Bytecode.defaultLimit⟩ receivers

/-- The outlines of `receiverClasses`. -/
theorem map_outline_receiverClasses :
    receiverClasses.map LoadedClass.outline = outlinesOfReceivers :=
  map_outline_keptClasses (by decide) (by decide +kernel) (by decide)

/-- The three calls of `receivers` are among `callsOf` its classes. -/
theorem mem_callsOf_receiverClasses : ∀ s ∈ [callOfInterface, callOfPrivate, callOfOverridden],
    s ∈ callsOf receiverClasses := by
  intro s hs
  obtain ⟨p, hp, hpP⟩ := exists_outline_eq map_outline_receiverClasses 3 (by decide)
  have hrun : callingRun ∈ p.methods := by
    rw [show p.methods = _ from congrArg Outline.methods hpP]
    exact List.mem_of_getElem (i := 2) (h := by decide) rfl
  exact mem_callsOf.2 ⟨p, hp, callingRun, hrun, _, rfl, hs⟩

end

/-- The method of `crossed` that is called as overriding the method of `T`. -/
def lostMethod : Location := .ofMethod "S/m()\x00java+method:///X" "m" []

/-- In `crossed`, the class of `lostMethod` has no class but `T` among its `supertypes`. -/
private theorem name_of_mem_supertypes_crossed {c : LoadedClass} (hc : c.classFile.super = "T")
    (hinterfaces : c.classFile.interfaces = []) {d : ClassFile}
    (hd : d ∈ (hierarchyOf crossedClasses).supertypes c.classFile) : d.name = "T" := by
  have hcs : IsProgram crossedClasses := isProgram_keptClasses _ _
  -- `java/lang/Object` is not at hand, so that the search ends below it
  have hobject : "java/lang/Object" ∉ (hierarchyOf crossedClasses).names := by
    rw [names_of_outlines map_outline_crossedClasses]
    decide
  have hroot : ∀ b ∈ crossedClasses, b.classFile.name = "T" →
      b.classFile.super = "java/lang/Object" ∧ b.classFile.interfaces = [] :=
    forall_of_outlines (p := fun o => o.name = "T" → o.super = "java/lang/Object" ∧ o.interfaces = [])
      map_outline_crossedClasses (by decide)
  -- the search goes up to `T`, whose own superclass is not at hand
  refine Hierarchy.supertypes_induction hcs.nodup_names (p := (· = "T")) ?_ ?_ hd
  · intro b hb _
    rw [Hierarchy.parents, hc, hinterfaces, if_neg (by decide)] at hb
    exact List.mem_singleton.1 hb
  · intro d hd hname b hb hat
    obtain ⟨e, he, rfl⟩ := List.mem_map.1 hd
    obtain ⟨hsuper, hnone⟩ := hroot e he hname
    rw [Hierarchy.parents, hsuper, hnone, if_neg (by decide)] at hb
    rw [List.mem_singleton.1 hb] at hat
    exact absurd hat hobject

/-- In `crossed`, the method of `S` overrides that of its superclass. -/
private theorem mem_overrideFacts_crossed {r s : LoadedClass} (hrmem : r ∈ crossedClasses)
    (hsmem : s ∈ crossedClasses) (hs : s.outline = outlinesOfCrossed[1])
    (hr : r.outline = outlinesOfCrossed[0]) :
    [Location.ofMethod "S" "m" [], .ofMethod "X/m()\x00java+method:///T" "m" []] ∈
      overrideFacts (hierarchyOf crossedClasses) s := by
  have hcs : IsProgram crossedClasses := isProgram_keptClasses _ _
  have hlink : IsSuperclass (hierarchyOf crossedClasses).classes s.classFile r.classFile :=
    isSuperclass_of_outline hrmem (by rw [hs, hr]; decide)
  have hname : r.classFile.name = "X/m()\x00java+method:///T" := congrArg Outline.name hr
  -- a class does not override its own methods
  have hne : r.classFile.name ≠ s.classFile.name := by
    rw [hname, show s.classFile.name = "S" from congrArg Outline.name hs]
    decide
  have hmethod : returning 1 "S" "m" ∈ s.methods := by
    rw [show s.methods = [returning 1 "S" "m"] from congrArg Outline.methods hs]
    exact List.mem_singleton_self _
  have htarget : r.classFile.method? "m" "()V" =
      some (returning 1 "X/m()\x00java+method:///T" "m").method := by
    rw [hcs.method?_eq hrmem, hr]
    rfl
  have htype : Descriptor.parse "()V" = .ok ⟨[], "void"⟩ := by decide +kernel
  -- the superclass is at hand and has a method of this name
  have hfact := hcs.mem_overrideFacts_of_isSubtype hsmem (List.mem_map_of_mem hrmem) hne
    (.single (hlink.isDirectSubtype (List.mem_map_of_mem hsmem))) hmethod (by decide) htarget
    (by decide) htype
  rw [hname] at hfact
  exact hfact

/-- The fact that `lostMethod` overrides the method of `T` comes too late to be stored, for its key is taken. -/
private theorem lostFact_not_recorded (dispatch : Dispatch) (failures : List LoadFailure)
    (warnings : List Diagnostic) : [lostMethod, .ofMethod "T" "m" []] ∉
      (buildLoaded dispatch crossedClasses failures warnings).store.tuples relOverrides := by
  obtain ⟨r, rest, hclasses, hr, hrest⟩ := List.map_eq_cons_iff.1 map_outline_crossedClasses
  obtain ⟨s, rest', rfl, hs, -⟩ := List.map_eq_cons_iff.1 hrest
  have hrmem : r ∈ crossedClasses := by rw [hclasses]; simp
  have hsmem : s ∈ crossedClasses := by rw [hclasses]; simp
  have hfirst := mem_overrideFacts_crossed hrmem hsmem hs hr
  have hother : ∀ m ∈ r.methods ++ s.methods, lostMethod ≠ m.declaration := by
    rw [show r.methods = _ from congrArg Outline.methods hr,
      show s.methods = _ from congrArg Outline.methods hs]
    decide +kernel
  -- the fact about `S` comes first and has the same key
  have hkey : ∃ u ∈ [r, s].flatMap (overrideFacts (hierarchyOf crossedClasses)),
      u.key = Tuple.key [lostMethod, .ofMethod "T" "m" []] :=
    ⟨_, List.mem_flatMap.2 ⟨s, by simp, hfirst⟩, by decide +kernel⟩
  have hnew : [lostMethod, .ofMethod "T" "m" []] ∉
      [r, s].flatMap (overrideFacts (hierarchyOf crossedClasses)) := by
    intro hmem
    obtain ⟨c, hc, hmem⟩ := List.mem_flatMap.1 hmem
    obtain ⟨m, hm, -, -, l, -, heq⟩ := exists_method_of_mem_overrideFacts hmem
    refine hother m ?_ (List.cons.inj heq).1
    rcases List.mem_pair.1 hc with rfl | rfl
    · exact List.mem_append_left _ hm
    · exact List.mem_append_right _ hm
  unfold buildLoaded buildWith
  rw [← hierarchyOf]
  -- classes are processed in their order, the first two in front of all others
  generalize hierarchyOf crossedClasses = h at *
  rw [show crossedClasses = [r, s] ++ rest' from hclasses]
  exact notMem_tuples_storeOf (n := 2) (by simp [relationsOf]) hkey hnew

/-- Nothing is stored about `lostMethod` overriding anything. -/
theorem lostMethod_not_recorded (dispatch : Dispatch) (failures : List LoadFailure)
    (warnings : List Diagnostic) :
    ∀ t ∈ (buildLoaded dispatch crossedClasses failures warnings).store.tuples relOverrides,
      t.head? ≠ some lostMethod := by
  intro t ht hhead
  have hrecords := records_overrides dispatch crossedClasses failures warnings
  obtain ⟨c, hc, hfacts⟩ := List.mem_flatMap.1 (hrecords.subset t ht)
  obtain ⟨m, hm, super, hsuper, l, hl, rfl⟩ := exists_method_of_mem_overrideFacts hfacts
  have hdeclaration : m.declaration = lostMethod := Option.some.inj hhead
  -- whatever it overrides is a method `m()` of a supertype, and `T` is the only one
  have houtline := forall_of_outlines map_outline_crossedClasses
    (p := fun o => ∀ m ∈ o.methods, m.declaration = lostMethod →
      o.super = "T" ∧ o.interfaces = [] ∧ m.method.name = "m" ∧ m.method.descriptor = "()V")
    (by decide +kernel)
  obtain ⟨hT, hnone, hname, hdescriptor⟩ := houtline c hc m hm hdeclaration
  obtain ⟨sm, type, -, htype, rfl⟩ := overridden?_eq_some hl
  have hvoid : Descriptor.parse "()V" = .ok ⟨[], "void"⟩ := by decide +kernel
  rw [hdescriptor, hvoid, Except.ok.injEq] at htype
  rw [hdeclaration, hname, ← htype, name_of_mem_supertypes_crossed hT hnone hsuper] at ht
  exact lostFact_not_recorded dispatch failures warnings ht

/-- `resolveSite` leads from the call in `crossed` to the method of `T` and, where overriding counts, to
    `lostMethod`. -/
theorem resolveSite_callInT :
    resolveSite (hierarchyOf crossedClasses) .declared callInT = ([.ofMethod "T" "m" []], true) ∧
    ∃ more, resolveSite (hierarchyOf crossedClasses) .overrides callInT =
      (.ofMethod "T" "m" [] :: more, true) ∧ lostMethod ∈ more := by
  have hcs : IsProgram crossedClasses := isProgram_keptClasses _ _
  obtain ⟨t, ht, htT⟩ := exists_outline_eq map_outline_crossedClasses 3 (by decide)
  obtain ⟨c, hc, hcS⟩ := exists_outline_eq map_outline_crossedClasses 2 (by decide)
  have hT : t.classFile.name = "T" := congrArg Outline.name htT
  have hS : c.classFile.name = "S/m()\x00java+method:///X" := congrArg Outline.name hcS
  -- the call names `T` itself, and the class of `lostMethod` is a subclass with its own method
  have hresolve : (hierarchyOf crossedClasses).resolve "T" "m" "()V" =
      some ⟨t.classFile, calledInT.method⟩ := by
    rw [← hT]
    exact hcs.resolve_of_method? ht (by rw [hT]; decide) (by rw [htT]; rfl)
  -- `S` is below `T` and has a method of the same name and descriptor
  have hover : c.classFile ∈
      (hierarchyOf crossedClasses).overriders ⟨t.classFile, calledInT.method⟩ :=
    hcs.mem_overriders_of_superclass hc (isSuperclass_of_outline ht (by rw [hcS, htT]; decide))
      (by rw [hS, hT]; decide) (by decide) (n := (returning 1 "S/m()\x00java+method:///X" "m").method)
      (by rw [hcS]; rfl) (by decide)
  have htarget : callInT.inClass t.classFile = .ofMethod "T" "m" [] := by
    rw [NamedSite.inClass, hT]
    rfl
  have hlost : callInT.inClass c.classFile = lostMethod := by
    rw [NamedSite.inClass, hS]
    rfl
  have hcallees := fun dispatch => resolveSite_eq hcs.nodup_names dispatch (s := callInT) hresolve
  simp only [htarget] at hcallees
  exact ⟨hcallees .declared, _, hcallees .overrides, List.mem_map.2 ⟨c.classFile, hover, hlost⟩⟩

/-- In `receivers`, the subclass has its own method for `callOfOverridden`. -/
theorem exists_overridden_receivers :
    ∃ p q, p.name = "P" ∧ q.name = "Q" ∧
      (hierarchyOf receiverClasses).resolve "P" "r" "()V" = some ⟨p, (returning 1 "P" "r").method⟩ ∧
      q ∈ (hierarchyOf receiverClasses).overriders ⟨p, (returning 1 "P" "r").method⟩ := by
  have hcs : IsProgram receiverClasses := isProgram_keptClasses _ _
  obtain ⟨p, hp, hpP⟩ := exists_outline_eq map_outline_receiverClasses 3 (by decide)
  obtain ⟨q, hq, hqQ⟩ := exists_outline_eq map_outline_receiverClasses 4 (by decide)
  have hP : p.classFile.name = "P" := congrArg Outline.name hpP
  have hQ : q.classFile.name = "Q" := congrArg Outline.name hqQ
  refine ⟨p.classFile, q.classFile, hP, hQ, ?_, ?_⟩
  · rw [← hP]
    exact hcs.resolve_of_method? hp (by rw [hP]; decide) (by rw [hpP]; rfl)
  · -- the superclass of `Q` is `P`
    exact hcs.mem_overriders_of_superclass hq (isSuperclass_of_outline hp (by rw [hqQ, hpP]; decide))
      (by rw [hQ, hP]; decide) (by decide) (n := (returning 1 "Q" "r").method)
      (by rw [hqQ]; rfl) (by decide)

/-- No name in `receivers` has the character that closes locations in a key. -/
theorem isPlain_receiverClasses : ∀ c ∈ receiverClasses, c.IsPlain :=
  isPlain_of_outlines map_outline_receiverClasses (by decide +kernel)

/-! ### Calls and the methods that override -/

/-- Besides the method that it names, `resolveSite` leads from a virtual call to the concrete methods
    (`Implements`) of those subtypes of its class that have one, in the order of their classes, and to none if
    the method cannot be overridden. Unless keys get in each other's way, each of them is recorded as overriding
    the method. They do not (`KeysApart`) where names are free of the character that closes locations in a
    key. -/
theorem overriding_callees_recorded {cs : List LoadedClass} (hcs : IsProgram cs) {s : NamedSite}
    (hs : s.IsTyped) (hvirtual : s.isVirtual = true) {f : Found}
    (hf : (hierarchyOf cs).resolve s.ref.owner s.ref.name s.ref.descriptor = some f)
    (failures : List LoadFailure) (warnings : List Diagnostic) :
    ∃ extra : List ClassFile,
      resolveSite (hierarchyOf cs) .overrides s = (s.inClass f.owner :: extra.map s.inClass, true) ∧
      (extra.map s.inClass).Nodup ∧
      extra.Pairwise (fun c d => c.name < d.name) ∧
      (∀ c, c ∈ extra ↔ isDispatched f.method = true ∧ c ∈ cs.map LoadedClass.classFile ∧
        c.name ≠ f.owner.name ∧ IsSubtype (cs.map LoadedClass.classFile) c.name f.owner.name ∧
        Implements c s.ref.name s.ref.descriptor) ∧
      ((∀ c ∈ cs, ∀ m ∈ c.methods, m.declaration.IsPlain) →
        KeysApart (cs.flatMap (overrideFacts (hierarchyOf cs)))) ∧
      (KeysApart (cs.flatMap (overrideFacts (hierarchyOf cs))) → ∀ c ∈ extra,
        [s.inClass c, s.inClass f.owner] ∈
          (buildLoaded .overrides cs failures warnings).store.tuples relOverrides) := by
  have hcallees := resolveSite_eq hcs.nodup_names .overrides hf
  rw [hvirtual] at hcallees
  have hnodup := nodup_callees (hierarchyOf cs) .overrides s
  rw [hcallees] at hnodup
  -- what is found has the name and the descriptor that the call gives
  obtain ⟨-, hname, hdescriptor⟩ :=
    method?_eq_some (Hierarchy.resolve_eq_some hcs.nodup_names hf).1
  refine ⟨(hierarchyOf cs).overriders f, hcallees, (List.nodup_cons.1 hnodup).2,
    (hierarchyOf cs).pairwise_overriders f, fun c => ?_, hcs.keysApart_overrideFacts, ?_⟩
  · rw [Hierarchy.mem_overriders hcs.nodup_names, hname, hdescriptor]
    rfl
  · intro hkeys c hc
    have hrecords := records_overrides .overrides cs failures warnings
    exact (hrecords.mem_iff hkeys fun t ht => hcs.isFixed_overrideFacts ht).2
      (hcs.mem_overrideFacts hs hf hc)

/-- `overriding_callees_recorded` on `receivers`, where the method of `Q` overrides that of `P`. -/
theorem overriding_callees_recorded_receivers :
    callOfOverridden.isVirtual = true ∧
    (∃ f, (hierarchyOf receiverClasses).resolve "P" "r" "()V" = some f) ∧
    (∃ more, resolveSite (hierarchyOf receiverClasses) .overrides callOfOverridden =
      (.ofMethod "P" "r" [] :: more, true) ∧ .ofMethod "Q" "r" [] ∈ more) ∧
    [.ofMethod "Q" "r" [], .ofMethod "P" "r" []] ∈
      (buildLoaded .overrides receiverClasses [] []).store.tuples relOverrides := by
  obtain ⟨p, q, hP, hQ, hresolve, hq⟩ := exists_overridden_receivers
  have hcs : IsProgram receiverClasses := isProgram_keptClasses _ _
  have htyped : callOfOverridden.IsTyped := ⟨⟨[], "void"⟩, by decide +kernel, rfl⟩
  obtain ⟨extra, hcallees, -, -, hextra, hplain, hrecorded⟩ :=
    overriding_callees_recorded hcs htyped (by decide) hresolve [] []
  -- `extra` are the overriding classes, so that `Q` is among them
  have hmem : q ∈ extra := (hextra q).2 ((Hierarchy.mem_overriders hcs.nodup_names).1 hq)
  have hPr : callOfOverridden.inClass p = .ofMethod "P" "r" [] := by
    rw [NamedSite.inClass, hP]
    rfl
  have hQr : callOfOverridden.inClass q = .ofMethod "Q" "r" [] := by
    rw [NamedSite.inClass, hQ]
    rfl
  rw [hPr] at hcallees
  have hrow := hrecorded (hplain fun c hc => (isPlain_receiverClasses c hc).2.2) q hmem
  rw [hPr, hQr] at hrow
  exact ⟨by decide, ⟨_, hresolve⟩, ⟨_, hcallees, hQr ▸ List.mem_map_of_mem hmem⟩, hrow⟩

/-- A virtual call can lead to a method that is not recorded as overriding the one it names, as `crossed`
    shows. -/
theorem overriding_callee_not_recorded :
    ∃ built, build { dispatch := .overrides } crossed = .ok built ∧
      (∃ b ∈ built.bodies, ∃ r ∈ b.sites, ∃ more, r.callees = .ofMethod "T" "m" [] :: more ∧
        lostMethod ∈ more) ∧
      [lostMethod, .ofMethod "T" "m" []] ∉ built.store.tuples relOverrides := by
  refine ⟨_, build_eq _ _, ?_, lostFact_not_recorded .overrides _ _⟩
  obtain ⟨-, more, hcallees, hlost⟩ := resolveSite_callInT
  obtain ⟨t, ht, htT⟩ := exists_outline_eq map_outline_crossedClasses 3 (by decide)
  -- the call stands in the method of `T`
  have hmethod : calledInT ∈ t.methods := by
    rw [show t.methods = [calledInT] from congrArg Outline.methods htT]
    exact List.mem_singleton_self _
  refine ⟨_, mem_bodies.2 ⟨t, ht, calledInT, hmethod, _, rfl, rfl⟩, _,
    List.mem_map_of_mem (List.mem_singleton_self callInT), more, ?_, hlost⟩
  exact congrArg Prod.fst hcallees

end CallAtlas.Program
