import CallAtlas.Proofs.Program.References
import CallAtlas.Report.Unused

/-!
# Unused methods under either policy

Which methods a report lists as unused does not depend on whether overriding counts for calls, unless
keys get in each other's way (`unreferenced_of_policies`). Where overriding counts, calls lead to more
methods, but what they lead to besides is recorded as overriding and is not listed for that reason. A
method that some call means is never listed.
-/

namespace CallAtlas.Report

open Facts Program

/-! ### What is listed -/

/-- `unreferencedLocations` are the `declarations` that no call leads to, that override nothing and that do not
    run by themselves. -/
theorem mem_unreferencedLocations {s : Store} {calls : List Tuple} {d : Location} :
    d ∈ unreferencedLocations s calls ↔ d ∈ s.declarations ∧ (∀ t ∈ calls, t[1]? ≠ some d) ∧
      (∀ t ∈ s.tuples relOverrides, t.head? ≠ some d) ∧ runsByItself d = false := by
  simp only [unreferencedLocations, List.mem_filter, contains_setOf, Bool.and_eq_true,
    Bool.not_eq_true', List.contains_eq_mem, decide_eq_false_iff_not, List.mem_filterMap, not_exists,
    not_and, and_assoc]

/-- Two stores have the same `unreferencedLocations` if they agree on what is declared and what overrides, and
    calls lead to the same methods among those that override nothing. -/
private theorem unreferencedLocations_congr {s s' : Store} {calls calls' : List Tuple}
    (hdeclarations : s.declarations = s'.declarations)
    (hoverrides : s.tuples relOverrides = s'.tuples relOverrides)
    (hcalls : ∀ d, (∀ t ∈ s.tuples relOverrides, t.head? ≠ some d) →
      ((∃ t ∈ calls, t[1]? = some d) ↔ ∃ t ∈ calls', t[1]? = some d)) :
    unreferencedLocations s calls = unreferencedLocations s' calls' := by
  simp only [unreferencedLocations, ← hdeclarations, ← hoverrides, contains_setOf]
  refine List.filter_congr fun d _ => ?_
  -- what overrides something is left out on both sides, whatever calls it
  by_cases hover : ((s.tuples relOverrides).filterMap List.head?).contains d = true
  · rw [hover, Bool.not_true, Bool.and_false, Bool.and_false]
  · have hnone : ∀ t ∈ s.tuples relOverrides, t.head? ≠ some d := by
      intro t ht hhead
      exact hover (List.contains_iff_mem.2 (List.mem_filterMap.2 ⟨t, ht, hhead⟩))
    have htargets : (calls.filterMap fun t => t[1]?).contains d =
        (calls'.filterMap fun t => t[1]?).contains d := by
      rw [Bool.eq_iff_iff, List.contains_iff_mem, List.contains_iff_mem, List.mem_filterMap,
        List.mem_filterMap]
      exact hcalls d hnone
    rw [htargets]

section
variable (dispatch : Dispatch) (cs : List LoadedClass) (failures : List LoadFailure)
  (warnings : List Diagnostic)

/-- `unreferenced` never fails on the store of `buildLoaded`. -/
theorem unreferenced_buildLoaded (naming : Naming) :
    unreferenced (buildLoaded dispatch cs failures warnings).store naming =
      .ok (Text.sortDistinct ((unreferencedLocations (buildLoaded dispatch cs failures warnings).store
        ((buildLoaded dispatch cs failures warnings).store.tuples relInvocation)).map naming.name)) := by
  rw [unreferenced, relation?_invocation]

/-- The `declarations` of `buildLoaded` are methods of loaded classes. -/
theorem isMethod_of_mem_declarations {cs : List LoadedClass} (h : IsProgram cs) {d : Location}
    (hd : d ∈ (buildLoaded dispatch cs failures warnings).store.declarations) : d.IsMethod := by
  obtain ⟨hdeclaration, t, ht, hhead⟩ := Store.mem_declarations.1 hd
  have hfact := (records_declarations dispatch cs failures warnings).subset t ht
  obtain ⟨c, hc, hfact⟩ := List.mem_flatMap.1 hfact
  rcases mem_declarationFacts.1 hfact with rfl | ⟨m, hm, rfl⟩
  · rw [← Option.some.inj hhead, isDeclaration_classLocation] at hdeclaration
    cases hdeclaration
  · rw [← Option.some.inj hhead]
    exact h.isMethod hc hm

end

/-- A method is listed by its whole location exactly if it is one of `unreferencedLocations`. -/
theorem text_mem_unreferenced {dispatch : Dispatch} {cs : List LoadedClass} (h : IsProgram cs)
    {failures : List LoadFailure} {warnings : List Diagnostic} {calls : List Tuple} {l : Location}
    (hl : l.IsMethod) :
    l.text ∈ (unreferencedLocations (buildLoaded dispatch cs failures warnings).store calls).map
        Naming.uri.name ↔
      l ∈ unreferencedLocations (buildLoaded dispatch cs failures warnings).store calls := by
  rw [List.mem_map]
  constructor
  · rintro ⟨d, hd, htext⟩
    -- methods with one text are the same
    have hmethod := isMethod_of_mem_declarations dispatch failures warnings h
      (mem_unreferencedLocations.1 hd).1
    rw [← hmethod.eq_of_text_eq hl htext]
    exact hd
  · intro hmem
    exact ⟨l, hmem, rfl⟩

/-! ### What is called -/

/-- Some call leads to the method. -/
def IsCalled (dispatch : Dispatch) (cs : List LoadedClass) (l : Location) : Prop :=
  ∃ s ∈ callsOf cs, l ∈ (resolveSite (hierarchyOf cs) dispatch s).1

section
variable {dispatch : Dispatch} {cs : List LoadedClass} {failures : List LoadFailure}
  {warnings : List Diagnostic}

/-- The target of a recorded call `IsCalled`. -/
theorem isCalled_of_mem_tuples {t : Tuple} {l : Location}
    (ht : t ∈ (buildLoaded dispatch cs failures warnings).store.tuples relInvocation)
    (hl : t[1]? = some l) : IsCalled dispatch cs l := by
  have hfact := (records_invocations dispatch cs failures warnings).subset t ht
  obtain ⟨c, hc, m, hm, code, hcode, s, hs, l', hl', rfl⟩ := mem_invocationFacts.1 hfact
  obtain rfl := Option.some.inj hl
  exact ⟨s, mem_callsOf.2 ⟨c, hc, m, hm, code, hcode, hs⟩, hl'⟩

/-- Where keys tell calls apart, every method that `IsCalled` is the target of a recorded call. -/
theorem exists_tuple_of_isCalled
    (hkeys : KeysApart ((buildLoaded dispatch cs failures warnings).bodies.flatMap invocationFacts))
    {l : Location} (hl : IsCalled dispatch cs l) :
    ∃ t ∈ (buildLoaded dispatch cs failures warnings).store.tuples relInvocation, t[1]? = some l := by
  obtain ⟨s, hs, hl⟩ := hl
  obtain ⟨c, hc, m, hm, code, hcode, hs⟩ := mem_callsOf.1 hs
  have hrecords := records_invocations dispatch cs failures warnings
  obtain ⟨t, ht, htext⟩ := hrecords.exists_text hkeys
    (mem_invocationFacts.2 ⟨c, hc, m, hm, code, hcode, s, hs, l, hl, rfl⟩)
  obtain ⟨c', -, m', -, code', -, s', -, l', hl', rfl⟩ :=
    mem_invocationFacts.1 (hrecords.subset t ht)
  -- another call may be stored in its place, but with the same texts
  have hcallee : l'.text = l.text := by
    simp only [List.map_cons, List.cons.injEq] at htext
    exact htext.2.1
  refine ⟨_, ht, ?_⟩
  rw [(isMethod_of_mem_callees hl').eq_of_text_eq (isMethod_of_mem_callees hl) hcallee]
  rfl

end

/-! ### Two policies -/

section
variable {cs : List LoadedClass} (h : IsProgram cs)
include h

/-- Where overriding counts, no call is missing among `invocationFacts` that is there otherwise. -/
private theorem mem_invocationFacts_overrides {failures : List LoadFailure} {warnings : List Diagnostic}
    {t : Tuple}
    (ht : t ∈ (buildLoaded .declared cs failures warnings).bodies.flatMap invocationFacts) :
    t ∈ (buildLoaded .overrides cs failures warnings).bodies.flatMap invocationFacts := by
  obtain ⟨c, hc, m, hm, code, hcode, s, hs, l, hl, rfl⟩ := mem_invocationFacts.1 ht
  have hmore := (mem_callees_overrides h.nodup_names).2 (.inl hl)
  exact mem_invocationFacts.2 ⟨c, hc, m, hm, code, hcode, s, hs, l, hmore, rfl⟩

/-- What `IsCalled` only where overriding counts is recorded as overriding. -/
private theorem isCalled_declared_or_overriding (dispatch : Dispatch) (failures : List LoadFailure)
    (warnings : List Diagnostic)
    (hkeys : KeysApart (cs.flatMap (overrideFacts (hierarchyOf cs)))) {l : Location}
    (hl : IsCalled .overrides cs l) :
    IsCalled .declared cs l ∨
      ∃ t ∈ (buildLoaded dispatch cs failures warnings).store.tuples relOverrides,
        t.head? = some l := by
  obtain ⟨s, hs, hl⟩ := hl
  rcases (mem_callees_overrides h.nodup_names).1 hl with hl | ⟨-, f, hf, c, hc, rfl⟩
  · exact .inl ⟨s, hs, hl⟩
  · have hrecords := records_overrides dispatch cs failures warnings
    have hrow := (hrecords.mem_iff hkeys fun t ht => h.isFixed_overrideFacts ht).2
      (h.mem_overrideFacts (h.isTyped hs) hf hc)
    exact .inr ⟨_, hrow, rfl⟩

/-- Both policies have the same `unreferencedLocations`, where keys tell facts apart. -/
private theorem unreferencedLocations_of_policies (failures : List LoadFailure) (warnings : List Diagnostic)
    (hoverrides : KeysApart (cs.flatMap (overrideFacts (hierarchyOf cs))))
    (hcalls : KeysApart ((buildLoaded .overrides cs failures warnings).bodies.flatMap
      invocationFacts)) :
    unreferencedLocations (buildLoaded .declared cs failures warnings).store
        ((buildLoaded .declared cs failures warnings).store.tuples relInvocation) =
      unreferencedLocations (buildLoaded .overrides cs failures warnings).store
        ((buildLoaded .overrides cs failures warnings).store.tuples relInvocation) := by
  have hfewer := hcalls.mono fun t ht => mem_invocationFacts_overrides h ht
  apply unreferencedLocations_congr
  · rw [Store.declarations, Store.declarations, tuples_declarations, tuples_declarations]
  · rw [tuples_overrides, tuples_overrides]
  · -- a method that overrides nothing is called under both policies or under none
    intro d hd
    constructor
    · rintro ⟨t, ht, htd⟩
      obtain ⟨s, hs, hl⟩ := isCalled_of_mem_tuples ht htd
      exact exists_tuple_of_isCalled hcalls ⟨s, hs, (mem_callees_overrides h.nodup_names).2 (.inl hl)⟩
    · rintro ⟨t, ht, htd⟩
      have hcalled := isCalled_of_mem_tuples ht htd
      rcases isCalled_declared_or_overriding h .declared failures warnings hoverrides hcalled with
        hdeclared | ⟨u, hu, hhead⟩
      · exact exists_tuple_of_isCalled hfewer hdeclared
      · exact absurd hhead (hd u hu)

/-- `invocationFacts` have keys of their own (`KeysApart`) where no method and no reference has the closing
    character of keys in its names. -/
private theorem keysApart_invocationFacts {dispatch : Dispatch} {failures : List LoadFailure}
    {warnings : List Diagnostic} (hmethods : ∀ c ∈ cs, ∀ m ∈ c.methods, m.declaration.IsPlain)
    (hreferences : ∀ s ∈ callsOf cs, (Location.ofMethod s.ref.owner s.ref.name s.params).IsPlain) :
    KeysApart ((buildLoaded dispatch cs failures warnings).bodies.flatMap invocationFacts) := by
  apply keysApart_of_plain
  intro t ht
  obtain ⟨c, hc, m, hm, code, hcode, s, hs, l, hl, rfl⟩ := mem_invocationFacts.1 ht
  have hcall : s ∈ callsOf cs := mem_callsOf.2 ⟨c, hc, m, hm, code, hcode, hs⟩
  -- a call that is not resolved leads to what it names, any other one to a method at hand
  have hplain : l.IsPlain := by
    cases hf : (hierarchyOf cs).resolve s.ref.owner s.ref.name s.ref.descriptor with
    | none =>
      rw [resolveSite_of_none dispatch hf] at hl
      rw [List.mem_singleton.1 hl]
      exact hreferences s hcall
    | some f =>
      have hresolved : (resolveSite (hierarchyOf cs) dispatch s).2 = true := by
        rw [resolveSite_eq h.nodup_names dispatch hf]
      obtain ⟨d, hd, n, hn, rfl⟩ := h.exists_method_of_mem_callees (h.isTyped hcall) hresolved hl
      exact hmethods d hd n hn
  exact Tuple.notMem_text_call (h.isMethod hc hm) (isMethod_of_mem_callees hl) (hmethods c hc m hm)
    hplain _ _

end

/-- Which methods `unreferenced` lists does not depend on the policy, and no method that some call means is
    listed by its whole location, unless keys get in each other's way. They do not (`KeysApart`) where names are
    free of the character that closes locations in a key. -/
theorem unreferenced_of_policies {options : BuildOptions} {entries : List ClassEntry} {a b : Built}
    (ha : build { options with dispatch := .declared } entries = .ok a)
    (hb : build { options with dispatch := .overrides } entries = .ok b) :
    ((∀ c ∈ keptClasses options.limits entries, ∀ m ∈ c.methods, m.declaration.IsPlain) →
      (∀ s ∈ callsOf (keptClasses options.limits entries),
        (Location.ofMethod s.ref.owner s.ref.name s.params).IsPlain) →
      KeysApart ((keptClasses options.limits entries).flatMap
        (overrideFacts (hierarchyOf (keptClasses options.limits entries)))) ∧
      KeysApart (b.bodies.flatMap invocationFacts)) ∧
    (KeysApart ((keptClasses options.limits entries).flatMap
        (overrideFacts (hierarchyOf (keptClasses options.limits entries)))) →
      KeysApart (b.bodies.flatMap invocationFacts) →
      ∀ naming, ∃ names, unreferenced a.store naming = .ok names ∧
        unreferenced b.store naming = .ok names ∧
        (naming = .uri → ∀ s ∈ callsOf (keptClasses options.limits entries), ∀ f,
          (hierarchyOf (keptClasses options.limits entries)).resolve s.ref.owner s.ref.name
            s.ref.descriptor = some f → (s.inClass f.owner).text ∉ names)) := by
  have hcs := isProgram_keptClasses options.limits entries
  rw [eq_buildLoaded ha, eq_buildLoaded hb]
  constructor
  · intro hmethods hreferences
    exact ⟨hcs.keysApart_overrideFacts hmethods, keysApart_invocationFacts hcs hmethods hreferences⟩
  · intro hoverrides hcalls naming
    refine ⟨_, unreferenced_buildLoaded .declared _ _ _ naming, ?_, ?_⟩
    · rw [unreferenced_buildLoaded, unreferencedLocations_of_policies hcs _ _ hoverrides hcalls]
    · rintro rfl s hs f hf hlisted
      -- the call leads to the method that it means, under both policies
      have hcalled : IsCalled .declared (keptClasses options.limits entries) (s.inClass f.owner) := by
        refine ⟨s, hs, ?_⟩
        rw [resolveSite_eq hcs.nodup_names .declared hf]
        exact List.mem_cons_self
      -- the calls where overriding does not count are some of those where it does
      have hfewer := hcalls.mono fun t ht => mem_invocationFacts_overrides hcs ht
      obtain ⟨t, ht, htarget⟩ := exists_tuple_of_isCalled hfewer hcalled
      have hmethod : (s.inClass f.owner).IsMethod := Location.isMethod_ofMethod ..
      rw [Text.mem_sortDistinct, text_mem_unreferenced hcs hmethod] at hlisted
      exact (mem_unreferencedLocations.1 hlisted).2.1 t ht htarget

/-- `unreferenced_of_policies` on `receivers`, where the overridden method of `P` is not listed. -/
theorem unreferenced_of_policies_receivers : ∃ a b names,
    build {} receivers = .ok a ∧ build { dispatch := .overrides } receivers = .ok b ∧
    unreferenced a.store .uri = .ok names ∧ unreferenced b.store .uri = .ok names ∧
    callOfOverridden ∈ callsOf receiverClasses ∧ "java+method:///P/r()" ∉ names := by
  have ha : build {} receivers = .ok _ := build_eq _ _
  have hb : build { dispatch := .overrides } receivers = .ok _ := build_eq _ _
  -- all names that calls give are plain
  have hreferences : ∀ s ∈ callsOf receiverClasses,
      (Location.ofMethod s.ref.owner s.ref.name s.params).IsPlain := by
    have houtline := forall_of_outlines map_outline_receiverClasses
      (p := fun o => ∀ m ∈ o.methods, ∀ s ∈ m.code.elim [] LoadedCode.sites,
        (Location.ofMethod s.ref.owner s.ref.name s.params).IsPlain) (by decide +kernel)
    intro s hs
    obtain ⟨c, hc, m, hm, code, hcode, hs⟩ := mem_callsOf.1 hs
    exact houtline c hc m hm s (by rw [hcode]; exact hs)
  obtain ⟨hplain, hsame⟩ := @unreferenced_of_policies {} receivers _ _ ha hb
  obtain ⟨hoverrides, hcalls⟩ :=
    hplain (fun c hc => (isPlain_receiverClasses c hc).2.2) hreferences
  obtain ⟨names, hnames, hnames', hcalled⟩ := hsame hoverrides hcalls .uri
  have hcall := mem_callsOf_receiverClasses callOfOverridden (by simp)
  obtain ⟨p, -, hP, -, hresolve, -⟩ := exists_overridden_receivers
  -- the call of `P.r` means the method of `P`, which is therefore not listed
  have hnot := hcalled rfl callOfOverridden hcall _ hresolve
  rw [NamedSite.inClass, hP] at hnot
  exact ⟨_, _, names, ha, hb, hnames, hnames', hcall, hnot⟩

/-! ### A method that is listed under one policy -/

/-- There is one call in `crossed`. -/
private theorem eq_of_call_crossed {c : LoadedClass} (hc : c ∈ crossedClasses) {m : LoadedMethod}
    (hm : m ∈ c.methods) {code : LoadedCode} (hcode : m.code = some code) {s : NamedSite}
    (hs : s ∈ code.sites) : m.declaration = .ofMethod "T" "m" [] ∧ s = callInT := by
  have houtline := forall_of_outlines map_outline_crossedClasses
    (p := fun o => ∀ m ∈ o.methods, ∀ s ∈ m.code.elim [] LoadedCode.sites,
      m.declaration = .ofMethod "T" "m" [] ∧ s = callInT) (by decide +kernel)
  exact houtline c hc m hm s (by rw [hcode]; exact hs)

section
variable (failures : List LoadFailure) (warnings : List Diagnostic)

/-- `lostMethod` is among the `declarations` of `crossed`. -/
private theorem lostMethod_declared (dispatch : Dispatch) :
    lostMethod ∈ (buildLoaded dispatch crossedClasses failures warnings).store.declarations := by
  obtain ⟨c, hc, hcS⟩ := exists_outline_eq map_outline_crossedClasses 2 (by decide)
  -- the method is declared in a class at hand
  have hfact : [lostMethod, .ofUnit "S/m()\x00java+method:///X" ""] ∈
      crossedClasses.flatMap declarationFacts := by
    refine List.mem_flatMap.2 ⟨c, hc, mem_declarationFacts.2
      (.inr ⟨returning 1 "S/m()\x00java+method:///X" "m", ?_, ?_⟩)⟩
    · rw [show c.methods = _ from congrArg Outline.methods hcS]
      exact List.mem_singleton_self _
    · rw [unitLocation_eq, hcS]
      rfl
  have hrecords := records_declarations dispatch crossedClasses failures warnings
  obtain ⟨t, ht, hkey⟩ := hrecords.exists_key _ hfact
  obtain ⟨d, hd, hfact⟩ := List.mem_flatMap.1 (hrecords.subset t ht)
  -- no other declaration has this key
  have houtline := forall_of_outlines map_outline_crossedClasses
    (p := fun o =>
      Tuple.key [.ofClass o.name o.isInterface, .ofUnit o.name o.sourceFile] ≠
        Tuple.key [lostMethod, .ofUnit "S/m()\x00java+method:///X" ""] ∧
      ∀ m ∈ o.methods, Tuple.key [m.declaration, .ofUnit o.name o.sourceFile] =
        Tuple.key [lostMethod, .ofUnit "S/m()\x00java+method:///X" ""] →
          m.declaration = lostMethod) (by decide +kernel) d hd
  refine Store.mem_declarations.2 ⟨by decide +kernel, t, ht, ?_⟩
  rcases mem_declarationFacts.1 hfact with rfl | ⟨m, hm, rfl⟩
  · exact absurd hkey houtline.1
  · rw [List.head?_cons, houtline.2 m hm hkey]

/-- No recorded call leads to `lostMethod` where overriding does not count. -/
private theorem lostMethod_not_called {t : Tuple}
    (ht : t ∈ (buildLoaded .declared crossedClasses failures warnings).store.tuples relInvocation) :
    t[1]? ≠ some lostMethod := by
  intro htarget
  obtain ⟨s, hs, hl⟩ := isCalled_of_mem_tuples ht htarget
  obtain ⟨c, hc, m, hm, code, hcode, hs⟩ := mem_callsOf.1 hs
  obtain ⟨-, rfl⟩ := eq_of_call_crossed hc hm hcode hs
  rw [resolveSite_callInT.1] at hl
  exact absurd (List.mem_singleton.1 hl) (by decide +kernel)

/-- A recorded call leads to `lostMethod` where overriding counts. -/
private theorem lostMethod_called :
    ∃ t ∈ (buildLoaded .overrides crossedClasses failures warnings).store.tuples relInvocation,
      t[1]? = some lostMethod := by
  obtain ⟨-, more, hcallees, hlost⟩ := resolveSite_callInT
  obtain ⟨c, hc, hcT⟩ := exists_outline_eq map_outline_crossedClasses 3 (by decide)
  have hmethod : calledInT ∈ c.methods := by
    rw [show c.methods = [calledInT] from congrArg Outline.methods hcT]
    exact List.mem_singleton_self _
  have hcallee : lostMethod ∈ (resolveSite (hierarchyOf crossedClasses) .overrides callInT).1 := by
    rw [hcallees]
    exact List.mem_cons_of_mem _ hlost
  have hrecords := records_invocations .overrides crossedClasses failures warnings
  -- a call with the key of this one is stored
  obtain ⟨t, ht, hkey⟩ := hrecords.exists_key _ (mem_invocationFacts.2
    ⟨c, hc, calledInT, hmethod, _, rfl, callInT, List.mem_singleton_self _, lostMethod, hcallee, rfl⟩)
  obtain ⟨d, hd, m, hm, code, hcode, s, hs, l, hl, rfl⟩ :=
    mem_invocationFacts.1 (hrecords.subset t ht)
  -- in one method, the key of a call tells the method called
  obtain ⟨hdeclaration, rfl⟩ := eq_of_call_crossed hd hm hcode hs
  rw [hdeclaration] at hkey
  have htext := (Tuple.key_call_inj (by decide) (by decide) hkey).1
  refine ⟨_, ht, ?_⟩
  rw [(isMethod_of_mem_callees hl).eq_of_text_eq (isMethod_of_mem_callees hcallee) htext]
  rfl

end

/-- `unreferenced` can list a method that it does not list where overriding counts, as `crossed` shows. -/
theorem unreferenced_depends_on_policy : ∃ a b names names',
    build {} crossed = .ok a ∧ build { dispatch := .overrides } crossed = .ok b ∧
    unreferenced a.store .uri = .ok names ∧ unreferenced b.store .uri = .ok names' ∧
    lostMethod.text ∈ names ∧ lostMethod.text ∉ names' := by
  have hcs : IsProgram crossedClasses := isProgram_keptClasses _ _
  have hmethod : lostMethod.IsMethod := Location.isMethod_ofMethod ..
  refine ⟨_, _, _, _, build_eq _ _, build_eq _ _,
    unreferenced_buildLoaded .declared crossedClasses _ _ .uri,
    unreferenced_buildLoaded .overrides crossedClasses _ _ .uri, ?_, ?_⟩
  · rw [Text.mem_sortDistinct, text_mem_unreferenced hcs hmethod, mem_unreferencedLocations]
    exact ⟨lostMethod_declared _ _ _, fun t ht => lostMethod_not_called _ _ ht,
      lostMethod_not_recorded _ _ _, by decide +kernel⟩
  · rw [Text.mem_sortDistinct, text_mem_unreferenced hcs hmethod, mem_unreferencedLocations]
    -- where overriding counts, a call leads to the method
    rintro ⟨-, hnone, -⟩
    obtain ⟨t, ht, htarget⟩ := lostMethod_called (loadFailures ⟨0, Bytecode.defaultLimit⟩ crossed)
      (buildWarnings ⟨0, Bytecode.defaultLimit⟩ crossed)
    exact hnone t ht htarget

end CallAtlas.Report
