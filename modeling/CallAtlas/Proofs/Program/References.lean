import CallAtlas.Proofs.Program.Overriding

/-!
# What facts refer to

The facts of a build refer to each other: calls to the methods that make them and that they lead to,
facts about overriding to methods, facts about what contains what to declarations. A declaration can be
missing only if another one has its key; where keys tell declarations apart, every reference is to
something that is declared (`references_declared`). The location of a call is that of an instruction
which calls, in a body of the method it stands in, whatever the keys.
-/

namespace CallAtlas.Program

open Facts

/-- The calls that are recorded stand in bodies: each is located in its method, at the position of an
    instruction that calls. -/
def SitesInBodies (built : Built) : Prop :=
  ∀ t ∈ built.store.tuples relInvocation, ∃ b ∈ built.bodies, ∃ callee site,
    t = [b.declaration, callee, site] ∧ site.scheme = Location.schemeInvocation ∧
    site.path = b.declaration.path ∧
    ∃ i ∈ b.instructions, (Bytecode.invokeKind? i.opcode).isSome = true ∧ i.offset = site.offset

/-- What a source file contains is declared in it. What a class contains is declared in the one source file that
    contains the class. -/
def DeclaredWithUnit (s : Store) (t : Tuple) : Prop :=
  ∃ container member, t = [container, member] ∧
    ((container.scheme = Location.schemeUnit ∧ [member, container] ∈ s.tuples relDeclarations) ∨
      ∃ unit, unit.scheme = Location.schemeUnit ∧ [unit, container] ∈ s.tuples relContainment ∧
        (∀ x, [x, container] ∈ s.tuples relContainment → x = unit) ∧
        [member, unit] ∈ s.tuples relDeclarations)

/-- What the facts about classes refer to is declared. -/
structure ReferencesDeclared (dispatch : Dispatch) (cs : List LoadedClass) (s : Store) : Prop where
  /-- Methods that call are declared. -/
  callers : ∀ t ∈ s.tuples relInvocation, ∃ caller ∈ s.declarations, t.head? = some caller
  /-- Where the target of a call is at hand, all methods that it leads to are declared. -/
  callees : ∀ c ∈ callsOf cs, (resolveSite (hierarchyOf cs) dispatch c).2 = true →
    ∀ l ∈ (resolveSite (hierarchyOf cs) dispatch c).1, l ∈ s.declarations
  /-- Methods that override and methods that are overridden are declared. -/
  overrides : ∀ t ∈ s.tuples relOverrides, ∃ m ∈ s.declarations, ∃ n ∈ s.declarations, t = [m, n]
  /-- What is contained is declared with the source file. -/
  members : ∀ t ∈ s.tuples relContainment, DeclaredWithUnit s t

/-! ### Facts about declarations -/

/-- `declarationFacts` say of a class and of its methods that they are declared in its source file. -/
theorem mem_declarationFacts {c : LoadedClass} {t : Tuple} : t ∈ declarationFacts c ↔
    t = [classLocation c, unitLocation c] ∨ ∃ m ∈ c.methods, t = [m.declaration, unitLocation c] := by
  simp only [declarationFacts, List.mem_cons, List.mem_map, eq_comm]

/-- `containmentFacts` say that the source file contains the class and the class its methods. -/
theorem mem_containmentFacts {c : LoadedClass} {t : Tuple} : t ∈ containmentFacts c ↔
    t = [unitLocation c, classLocation c] ∨ ∃ m ∈ c.methods, t = [classLocation c, m.declaration] := by
  simp only [containmentFacts, List.mem_cons, List.mem_map, eq_comm]

/-- Every part of `declarationFacts` and `containmentFacts` is a class, a source file or a method. -/
private theorem eq_of_mem_of_mem_facts {c : LoadedClass} {t : Tuple}
    (ht : t ∈ declarationFacts c ∨ t ∈ containmentFacts c) {l : Location} (hl : l ∈ t) :
    l = classLocation c ∨ l = unitLocation c ∨ ∃ m ∈ c.methods, l = m.declaration := by
  rw [mem_declarationFacts, mem_containmentFacts] at ht
  rcases ht with (rfl | ⟨m, hm, rfl⟩) | (rfl | ⟨m, hm, rfl⟩)
  · rcases List.mem_pair.1 hl with rfl | rfl
    · exact .inl rfl
    · exact .inr (.inl rfl)
  · rcases List.mem_pair.1 hl with rfl | rfl
    · exact .inr (.inr ⟨m, hm, rfl⟩)
    · exact .inr (.inl rfl)
  · rcases List.mem_pair.1 hl with rfl | rfl
    · exact .inr (.inl rfl)
    · exact .inl rfl
  · rcases List.mem_pair.1 hl with rfl | rfl
    · exact .inl rfl
    · exact .inr (.inr ⟨m, hm, rfl⟩)

/-- Classes are told apart by `classLocation`. -/
private theorem name_eq_of_classLocation_eq {c d : LoadedClass} (h : classLocation c = classLocation d) :
    c.classFile.name = d.classFile.name := by
  have hpath := congrArg (String.toList ∘ Location.path) h
  simp only [classLocation, Location.ofClass, Function.comp_apply, String.toList_append] at hpath
  exact String.toList_inj.1 (List.append_cancel_left hpath)

/-- `classLocation` is not among the locations that `isDeclaration` counts. -/
theorem isDeclaration_classLocation (c : LoadedClass) : (classLocation c).isDeclaration = false := by
  unfold classLocation
  cases c.classFile.isInterface <;> rfl

/-- No method has the `classLocation` of a class. -/
private theorem classLocation_ne {c : LoadedClass} {l : Location} (hl : l.IsMethod) : l ≠ classLocation c := by
  rintro rfl
  have hdeclaration := hl.isDeclaration
  rw [isDeclaration_classLocation] at hdeclaration
  cases hdeclaration

namespace IsProgram

variable {cs : List LoadedClass} (h : IsProgram cs)
include h

/-- The facts about what is declared where have locations that are fixed (`IsFixed`). -/
theorem isFixed_facts {t : Tuple}
    (ht : t ∈ cs.flatMap declarationFacts ∨ t ∈ cs.flatMap containmentFacts) : ∀ l ∈ t, l.IsFixed := by
  have hclass : ∃ c ∈ cs, t ∈ declarationFacts c ∨ t ∈ containmentFacts c := by
    rcases ht with ht | ht
    · obtain ⟨c, hc, ht⟩ := List.mem_flatMap.1 ht
      exact ⟨c, hc, .inl ht⟩
    · obtain ⟨c, hc, ht⟩ := List.mem_flatMap.1 ht
      exact ⟨c, hc, .inr ht⟩
  obtain ⟨c, hc, ht⟩ := hclass
  intro l hl
  -- classes, source files and methods, each with its own kind of location
  rcases eq_of_mem_of_mem_facts ht hl with rfl | rfl | ⟨m, hm, rfl⟩
  · exact Location.isFixed_ofClass ..
  · exact Location.isFixed_ofUnit ..
  · exact (h.isMethod hc hm).isFixed

/-- Facts about declarations have keys of their own (`KeysApart`) where names are plain. -/
theorem keysApart_facts (hplain : ∀ c ∈ cs, c.IsPlain) {g : LoadedClass → List Tuple}
    (hg : ∀ c ∈ cs, ∀ t ∈ g c, t ∈ declarationFacts c ∨ t ∈ containmentFacts c) :
    KeysApart (cs.flatMap g) := by
  refine keysApart_of_plain fun t ht l hl => ?_
  obtain ⟨c, hc, ht⟩ := List.mem_flatMap.1 ht
  obtain ⟨hclass, hunit, hmethods⟩ := hplain c hc
  rcases eq_of_mem_of_mem_facts (hg c hc t ht) hl with rfl | rfl | ⟨m, hm, rfl⟩
  · exact hclass.notMem_text (Location.isFixed_ofClass ..).scheme.2
  · exact hunit.notMem_text (Location.isFixed_ofUnit ..).scheme.2
  · exact (hmethods m hm).notMem_text (h.isMethod hc hm).notMem_scheme.2

/-! ### What is declared -/

section
variable (dispatch : Dispatch) (failures : List LoadFailure) (warnings : List Diagnostic)

/-- Loaded methods are among the `declarations` of a build, where keys tell them apart. -/
theorem mem_declarations (hkeys : KeysApart (cs.flatMap declarationFacts)) {c : LoadedClass}
    (hc : c ∈ cs) {m : LoadedMethod} (hm : m ∈ c.methods) :
    m.declaration ∈ (buildLoaded dispatch cs failures warnings).store.declarations := by
  have hrecords := records_declarations dispatch cs failures warnings
  have hfact : [m.declaration, unitLocation c] ∈ cs.flatMap declarationFacts :=
    List.mem_flatMap.2 ⟨c, hc, mem_declarationFacts.2 (.inr ⟨m, hm, rfl⟩)⟩
  have hrow := (hrecords.mem_iff hkeys fun t ht => h.isFixed_facts (.inl ht)).2 hfact
  exact Store.mem_declarations.2 ⟨(h.isMethod hc hm).isDeclaration, _, hrow, rfl⟩

end

/-- If the target of a call is at hand, `resolveSite` gives loaded methods. -/
theorem exists_method_of_mem_callees {dispatch : Dispatch} {s : NamedSite} (hs : s.IsTyped)
    (hresolved : (resolveSite (hierarchyOf cs) dispatch s).2 = true) {l : Location}
    (hl : l ∈ (resolveSite (hierarchyOf cs) dispatch s).1) :
    ∃ c ∈ cs, ∃ m ∈ c.methods, m.declaration = l := by
  obtain ⟨type, htype, hparams⟩ := hs
  cases hf : (hierarchyOf cs).resolve s.ref.owner s.ref.name s.ref.descriptor with
  | none =>
    rw [resolveSite_of_none dispatch hf] at hresolved
    cases hresolved
  | some f =>
    obtain ⟨htarget, howner, -⟩ := Hierarchy.resolve_eq_some h.nodup_names hf
    obtain ⟨-, hname, hdescriptor⟩ := method?_eq_some htarget
    -- each callee is the method that the call names, in some class that declares it
    have hclass : ∃ c ∈ (hierarchyOf cs).classes, l = s.inClass c ∧
        ∃ m, c.method? s.ref.name s.ref.descriptor = some m := by
      rw [resolveSite_eq h.nodup_names dispatch hf] at hl
      rcases List.mem_cons.1 hl with rfl | hl
      · exact ⟨f.owner, howner, rfl, f.method, htarget⟩
      · obtain ⟨c, hc, rfl⟩ := List.mem_map.1 hl
        split at hc
        · obtain ⟨-, hmem, -, -, m, hm, -⟩ := (Hierarchy.mem_overriders h.nodup_names).1 hc
          rw [hname, hdescriptor] at hm
          exact ⟨c, hmem, rfl, m, hm⟩
        · exact absurd hc List.not_mem_nil
    obtain ⟨c, hc, rfl, m, hm⟩ := hclass
    -- the class was loaded, and with it the method and its location
    obtain ⟨d, hd, rfl, n, hn, -, hdeclaration⟩ := h.exists_method hc hm htype
    refine ⟨d, hd, n, hn, ?_⟩
    rw [hdeclaration, NamedSite.inClass, hparams]

end IsProgram

/-! ### What is referred to -/

/-- The calls that `buildLoaded` records stand in bodies (`SitesInBodies`), whatever the keys. -/
private theorem sitesInBodies {dispatch : Dispatch} {cs : List LoadedClass} (h : IsProgram cs)
    (failures : List LoadFailure) (warnings : List Diagnostic) :
    SitesInBodies (buildLoaded dispatch cs failures warnings) := by
  intro t ht
  have hfact := (records_invocations dispatch cs failures warnings).subset t ht
  obtain ⟨c, hc, m, hm, code, hcode, s, hs, l, -, rfl⟩ := mem_invocationFacts.1 hfact
  refine ⟨_, mem_bodies.2 ⟨c, hc, m, hm, code, hcode, rfl⟩, l, _, rfl, rfl, rfl, ?_⟩
  -- the calls of loaded code are those of its instructions
  obtain ⟨limit, method, source, hsource⟩ := h.exists_loadCode hc hm hcode
  have hsite : s.site ∈ Bytecode.callSites (ClassFile.lineAt source.lines) code.instructions := by
    rw [← (loadCode_eq_ok hsource).2]
    exact List.mem_map_of_mem hs
  obtain ⟨i, hi, hkind, hoffset⟩ := Bytecode.exists_invoke_of_mem_callSitesFrom hsite
  exact ⟨i, hi, by rw [hkind]; rfl, hoffset⟩

/-- The call sites of bodies are those of `callsOf`, with the methods that they lead to. -/
private theorem exists_call_of_mem_sites {dispatch : Dispatch} {cs : List LoadedClass}
    {failures : List LoadFailure} {warnings : List Diagnostic} {b : Body}
    (hb : b ∈ (buildLoaded dispatch cs failures warnings).bodies) {r : ResolvedSite}
    (hr : r ∈ b.sites) :
    ∃ s ∈ callsOf cs, r = ⟨s.site, (resolveSite (hierarchyOf cs) dispatch s).1⟩ := by
  obtain ⟨c, hc, m, hm, code, hcode, rfl⟩ := mem_bodies.1 hb
  obtain ⟨s, hs, rfl⟩ := List.mem_map.1 hr
  exact ⟨s, mem_callsOf.2 ⟨c, hc, m, hm, code, hcode, hs⟩, rfl⟩

/-- `resolveSite` leads somewhere for every call. -/
private theorem exists_mem_callees (h : Hierarchy) (dispatch : Dispatch) (s : NamedSite) :
    ∃ l, l ∈ (resolveSite h dispatch s).1 := by
  unfold resolveSite
  split
  · exact ⟨_, List.mem_cons_self⟩
  · exact ⟨_, List.mem_cons_self⟩

/-- The flags that `bodiesOf` gives to the calls of a class, method by method. -/
private theorem flatMap_snd_bodiesOf (h : Hierarchy) (dispatch : Dispatch) (c : LoadedClass) :
    (bodiesOf h dispatch c).flatMap Prod.snd =
      (c.methods.flatMap fun m => m.code.elim [] LoadedCode.sites).map
        fun s => (resolveSite h dispatch s).2 := by
  unfold bodiesOf
  induction c.methods with
  | nil => rfl
  | cons m ms ih =>
    rw [List.flatMap_cons, List.map_append, ← ih]
    cases hcode : m.code with
    | none => simp [hcode]
    | some code => simp [hcode]

/-- The calls that `buildLoaded` reports as unresolved are those whose target is not at hand. -/
theorem unresolved_buildLoaded (dispatch : Dispatch) (cs : List LoadedClass)
    (failures : List LoadFailure) (warnings : List Diagnostic) :
    (buildLoaded dispatch cs failures warnings).report.unresolved =
      ((callsOf cs).filter fun s => !(resolveSite (hierarchyOf cs) dispatch s).2).length := by
  have hflags : (cs.flatMap (bodiesOf (hierarchyOf cs) dispatch)).flatMap Prod.snd =
      (callsOf cs).map fun s => (resolveSite (hierarchyOf cs) dispatch s).2 := by
    rw [callsOf, List.flatMap_assoc, List.map_flatMap]
    exact List.flatMap_congr fun c _ => flatMap_snd_bodiesOf _ _ c
  show (((((cs.flatMap (bodiesOf (hierarchyOf cs) dispatch)).flatMap Prod.snd).filter
    (!·)).length : Nat) : Int) = _
  rw [hflags, List.filter_map, List.length_map]
  rfl

/-- What is contained in something is `DeclaredWithUnit`. -/
private theorem declaredWithUnit {dispatch : Dispatch} {cs : List LoadedClass} (h : IsProgram cs)
    (failures : List LoadFailure) (warnings : List Diagnostic)
    (hdeclarations : KeysApart (cs.flatMap declarationFacts))
    (hcontainment : KeysApart (cs.flatMap containmentFacts)) {t : Tuple}
    (ht : t ∈ (buildLoaded dispatch cs failures warnings).store.tuples relContainment) :
    DeclaredWithUnit (buildLoaded dispatch cs failures warnings).store t := by
  have hdeclared {u : Tuple} : u ∈ cs.flatMap declarationFacts →
      u ∈ (buildLoaded dispatch cs failures warnings).store.tuples relDeclarations :=
    ((records_declarations dispatch cs failures warnings).mem_iff hdeclarations
      fun u hu => h.isFixed_facts (.inl hu)).2
  have hcontained {u : Tuple} :
      u ∈ (buildLoaded dispatch cs failures warnings).store.tuples relContainment ↔
        u ∈ cs.flatMap containmentFacts :=
    (records_containment dispatch cs failures warnings).mem_iff hcontainment
      fun u hu => h.isFixed_facts (.inr hu)
  obtain ⟨c, hc, hfact⟩ := List.mem_flatMap.1 (hcontained.1 ht)
  rcases mem_containmentFacts.1 hfact with rfl | ⟨m, hm, rfl⟩
  · -- a class in its source file
    refine ⟨unitLocation c, classLocation c, rfl, .inl ⟨rfl, hdeclared ?_⟩⟩
    exact List.mem_flatMap.2 ⟨c, hc, mem_declarationFacts.2 (.inl rfl)⟩
  · -- a method in its class: the source file is found through the class
    refine ⟨classLocation c, m.declaration, rfl, .inr ⟨unitLocation c, rfl, ?_, ?_, ?_⟩⟩
    · exact hcontained.2 (List.mem_flatMap.2 ⟨c, hc, mem_containmentFacts.2 (.inl rfl)⟩)
    · intro x hx
      -- only the source file of a class contains it, for no other class has its location
      obtain ⟨d, hd, hx⟩ := List.mem_flatMap.1 (hcontained.1 hx)
      rcases mem_containmentFacts.1 hx with heq | ⟨n, hn, heq⟩
      · simp only [List.cons.injEq, and_true] at heq
        obtain ⟨rfl, hlocation⟩ := heq
        rw [h.eq_of_name_eq hc hd (name_eq_of_classLocation_eq hlocation)]
      · simp only [List.cons.injEq, and_true] at heq
        exact absurd heq.2.symm (classLocation_ne (h.isMethod hd hn))
    · exact hdeclared (List.mem_flatMap.2 ⟨c, hc, mem_declarationFacts.2 (.inr ⟨m, hm, rfl⟩)⟩)

/-- Where keys tell declarations apart, `ReferencesDeclared` holds of `buildLoaded`. -/
private theorem referencesDeclared_buildLoaded {dispatch : Dispatch} {cs : List LoadedClass} (h : IsProgram cs)
    (failures : List LoadFailure) (warnings : List Diagnostic)
    (hdeclarations : KeysApart (cs.flatMap declarationFacts))
    (hcontainment : KeysApart (cs.flatMap containmentFacts)) :
    ReferencesDeclared dispatch cs (buildLoaded dispatch cs failures warnings).store where
  callers := by
    intro t ht
    have hfact := (records_invocations dispatch cs failures warnings).subset t ht
    obtain ⟨c, hc, m, hm, code, hcode, s, hs, l, -, rfl⟩ := mem_invocationFacts.1 hfact
    exact ⟨m.declaration, h.mem_declarations _ _ _ hdeclarations hc hm, rfl⟩
  callees := by
    intro s hs hresolved l hl
    -- what a call is resolved to is a method of a class at hand
    obtain ⟨c, hc, m, hm, rfl⟩ := h.exists_method_of_mem_callees (h.isTyped hs) hresolved hl
    exact h.mem_declarations _ _ _ hdeclarations hc hm
  overrides := by
    intro t ht
    have hfact := (records_overrides dispatch cs failures warnings).subset t ht
    obtain ⟨c, hc, m, hm, d, hd, n, hn, rfl⟩ := h.exists_methods_of_mem_overrideFacts hfact
    exact ⟨_, h.mem_declarations _ _ _ hdeclarations hc hm, _,
      h.mem_declarations _ _ _ hdeclarations hd hn, rfl⟩
  members := fun _ ht => declaredWithUnit h failures warnings hdeclarations hcontainment ht

/-- In every `build`, the calls that are recorded stand in bodies (`SitesInBodies`), the calls of bodies are
    those of `callsOf` the classes, and those count as resolved whose target `resolveSite` has at hand. What the
    facts refer to is declared (`ReferencesDeclared`) unless keys get in each other's way. They do not
    (`KeysApart`) where names are free of the character that closes locations in a key. -/
theorem references_declared {options : BuildOptions} {entries : List ClassEntry} {built : Built}
    (h : build options entries = .ok built) :
    SitesInBodies built ∧
    (∀ b ∈ built.bodies, ∀ r ∈ b.sites, ∃ s ∈ callsOf (keptClasses options.limits entries), r =
      ⟨s.site, (resolveSite (hierarchyOf (keptClasses options.limits entries)) options.dispatch s).1⟩) ∧
    built.report.unresolved = ((callsOf (keptClasses options.limits entries)).filter fun s =>
      !(resolveSite (hierarchyOf (keptClasses options.limits entries)) options.dispatch s).2).length ∧
    ((∀ c ∈ keptClasses options.limits entries, c.IsPlain) →
      KeysApart ((keptClasses options.limits entries).flatMap declarationFacts) ∧
      KeysApart ((keptClasses options.limits entries).flatMap containmentFacts)) ∧
    (KeysApart ((keptClasses options.limits entries).flatMap declarationFacts) →
      KeysApart ((keptClasses options.limits entries).flatMap containmentFacts) →
      ReferencesDeclared options.dispatch (keptClasses options.limits entries) built.store) := by
  have hcs := isProgram_keptClasses options.limits entries
  rw [eq_buildLoaded h]
  refine ⟨sitesInBodies hcs _ _, fun b hb r hr => exists_call_of_mem_sites hb hr,
    unresolved_buildLoaded _ _ _ _, ?_, ?_⟩
  · intro hplain
    exact ⟨hcs.keysApart_facts hplain fun _ _ _ => .inl, hcs.keysApart_facts hplain fun _ _ _ => .inr⟩
  · exact fun hdeclarations hcontainment =>
      referencesDeclared_buildLoaded hcs _ _ hdeclarations hcontainment

/-- `references_declared` on `receivers`, where a call leads to an overriding method. -/
theorem references_declared_receivers : ∃ built,
    build { dispatch := .overrides } receivers = .ok built ∧
    callOfOverridden ∈ callsOf receiverClasses ∧
    ReferencesDeclared .overrides receiverClasses built.store := by
  have hbuild : build { dispatch := .overrides } receivers = .ok _ := build_eq _ _
  obtain ⟨-, -, -, hplain, hdeclared⟩ := references_declared hbuild
  obtain ⟨hdeclarations, hcontainment⟩ := hplain isPlain_receiverClasses
  exact ⟨_, hbuild, mem_callsOf_receiverClasses _ (by simp), hdeclared hdeclarations hcontainment⟩

/-! ### A program with a caller that is not declared -/

/-- Two classes, of which the second has a method that calls one of the first. The file names are such that both
    methods are declared under one key. -/
def keyTaken : List ClassEntry :=
  [entryWithZeros "A.class"
    { name := "A"
      source := "X()\u0080java+compilationUnit:///A/f()\u0080java+compilationUnit://.java"
      methods := [⟨.isStatic, "f", "()V", []⟩] },
   entryWithZeros "B.class"
    { name := "A/f()\u0080java+compilationUnit://"
      methods := [⟨.isStatic, "X", "()V", [.invokeStatic "A" "f" "()V"]⟩] }]

/-- The method that calls. -/
def undeclaredCaller : LoadedMethod :=
  loadedMethod 9 "A/f()\x00java+compilationUnit://" "X" [0xb8, 0, 6]
    [⟨0, 0xb8, 3, "invokestatic", 6, [], [], false⟩]
    [⟨⟨0, 0, .static, 6, 0⟩, ⟨10, "A", "f", "()V"⟩, []⟩]

def outlinesOfKeyTaken : List Outline :=
  [⟨"A", 33, "java/lang/Object", [],
    "X()\x00java+compilationUnit:///A/f()\x00java+compilationUnit://.java", [returning 9 "A" "f"]⟩,
   ⟨"A/f()\x00java+compilationUnit://", 33, "java/lang/Object", [], "", [undeclaredCaller]⟩]

/-- The classes of `keyTaken`. -/
def keyTakenClasses : List LoadedClass :=
  keptClasses ⟨0, Bytecode.defaultLimit⟩ keyTaken

/-- The outlines of `keyTakenClasses`. -/
theorem map_outline_keyTakenClasses : keyTakenClasses.map LoadedClass.outline = outlinesOfKeyTaken :=
  map_outline_keptClasses (by decide) (by decide +kernel) (by decide)

/-- The source file of the second class. -/
def unitOfCaller : Location := .ofUnit "A/f()\x00java+compilationUnit://" ""

/-- The fact that `undeclaredCaller` is declared is not stored, for its key is taken. -/
private theorem undeclaredCaller_not_recorded (failures : List LoadFailure) (warnings : List Diagnostic) :
    [undeclaredCaller.declaration, unitOfCaller] ∉
      (buildLoaded .declared keyTakenClasses failures warnings).store.tuples relDeclarations := by
  obtain ⟨a, rest, hclasses, ha, -⟩ := List.map_eq_cons_iff.1 map_outline_keyTakenClasses
  have hmethods : a.methods = [returning 9 "A" "f"] := congrArg Outline.methods ha
  have hunit : unitLocation a = .ofUnit "A"
      "X()\x00java+compilationUnit:///A/f()\x00java+compilationUnit://.java" := by
    rw [unitLocation_eq, ha]
  have hclass : classLocation a = .ofClass "A" false := by
    rw [classLocation_eq, ha]
    rfl
  have hfacts : [a].flatMap declarationFacts =
      [[.ofClass "A" false, unitLocation a], [.ofMethod "A" "f" [], unitLocation a]] := by
    simp [declarationFacts, hclass, hmethods, returning, loadedMethod]
  -- the key is that of the method of the first class, as strange as the names are
  have hkey : ∃ u ∈ [a].flatMap declarationFacts,
      u.key = Tuple.key [undeclaredCaller.declaration, unitOfCaller] := by
    rw [hfacts, hunit]
    exact ⟨_, List.mem_cons_of_mem _ List.mem_cons_self, by decide +kernel⟩
  have hnew : [undeclaredCaller.declaration, unitOfCaller] ∉ [a].flatMap declarationFacts := by
    rw [hfacts, hunit]
    decide +kernel
  unfold buildLoaded buildWith
  rw [← hierarchyOf]
  -- the hierarchy stays as it is while the classes are cut in two
  generalize hierarchyOf keyTakenClasses = h
  rw [show keyTakenClasses = [a] ++ rest from hclasses]
  exact notMem_tuples_storeOf (n := 2) (by simp [relationsOf]) hkey hnew

/-- `undeclaredCaller` is not among the `declarations` of `keyTaken`. -/
private theorem undeclaredCaller_not_declared (failures : List LoadFailure) (warnings : List Diagnostic) :
    undeclaredCaller.declaration ∉
      (buildLoaded .declared keyTakenClasses failures warnings).store.declarations := by
  intro hmem
  obtain ⟨-, t, ht, hhead⟩ := Store.mem_declarations.1 hmem
  have hrecords := records_declarations .declared keyTakenClasses failures warnings
  obtain ⟨c, hc, hfact⟩ := List.mem_flatMap.1 (hrecords.subset t ht)
  rcases mem_declarationFacts.1 hfact with rfl | ⟨m, hm, rfl⟩
  · have hmethod : undeclaredCaller.declaration.IsMethod := Location.isMethod_ofMethod ..
    exact classLocation_ne hmethod (Option.some.inj hhead).symm
  · -- the only fact about the caller is the one whose key is taken
    have houtline := forall_of_outlines map_outline_keyTakenClasses
      (p := fun o => ∀ m ∈ o.methods, m.declaration = undeclaredCaller.declaration →
        o.name = "A/f()\x00java+compilationUnit://" ∧ o.sourceFile = "") (by decide +kernel)
    obtain ⟨hname, hsource⟩ := houtline c hc m hm (Option.some.inj hhead)
    rw [unitLocation_eq, hname, hsource, show m.declaration = _ from Option.some.inj hhead] at ht
    exact undeclaredCaller_not_recorded failures warnings ht

/-- A method that calls need not be among the `declarations`, as `keyTaken` shows. -/
theorem caller_not_declared : ∃ built, build {} keyTaken = .ok built ∧
    ∃ t ∈ built.store.tuples relInvocation, ∃ caller, t.head? = some caller ∧
      caller ∉ built.store.declarations := by
  refine ⟨_, build_eq _ _, ?_⟩
  obtain ⟨b, hb, hbB⟩ := exists_outline_eq map_outline_keyTakenClasses 1 (by decide)
  have hcaller : undeclaredCaller ∈ b.methods := by
    rw [show b.methods = [undeclaredCaller] from congrArg Outline.methods hbB]
    exact List.mem_singleton_self _
  obtain ⟨l, hl⟩ := exists_mem_callees (hierarchyOf keyTakenClasses) .declared
    ⟨⟨0, 0, .static, 6, 0⟩, ⟨10, "A", "f", "()V"⟩, []⟩
  have hrecords := records_invocations .declared keyTakenClasses
    (loadFailures ⟨0, Bytecode.defaultLimit⟩ keyTaken)
    (buildWarnings ⟨0, Bytecode.defaultLimit⟩ keyTaken)
  -- some call of the program is recorded, and only this method calls
  obtain ⟨t, ht, -⟩ := hrecords.exists_key _ (mem_invocationFacts.2
    ⟨b, hb, undeclaredCaller, hcaller, _, rfl, _, List.mem_singleton_self _, l, hl, rfl⟩)
  obtain ⟨c, hc, m, hm, code, hcode, s, hs, l', -, rfl⟩ :=
    mem_invocationFacts.1 (hrecords.subset t ht)
  -- no other method of the program has calls in its code
  have houtline := forall_of_outlines map_outline_keyTakenClasses
    (p := fun o => ∀ m ∈ o.methods, m.code.elim [] LoadedCode.sites ≠ [] →
      m.declaration = undeclaredCaller.declaration) (by decide +kernel)
  have hdeclaration := houtline c hc m hm (by rw [hcode]; exact List.ne_nil_of_mem hs)
  refine ⟨_, ht, m.declaration, rfl, ?_⟩
  rw [hdeclaration]
  exact undeclaredCaller_not_declared _ _

end CallAtlas.Program
