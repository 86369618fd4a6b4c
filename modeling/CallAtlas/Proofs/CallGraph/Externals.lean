import CallAtlas.CallGraph.Edge
import CallAtlas.CallGraph.Survey
import CallAtlas.Proofs.Program.References

/-!
# Calls that lead out of the program

A build counts the calls whose target is not at hand, and a survey shows calls as external. The build looks
for a method with the descriptor of the call, the survey for a declaration at the location of the target,
which has the parameters but no result. So the two numbers differ by the calls of methods that only another
result tells from one at hand (`unresolved_eq_externals_iff`).
-/

namespace CallAtlas.CallGraph

open Facts Program

/-- How many calls are shown as external. -/
def Survey.externals (s : Survey) : Nat :=
  s.calls.countP fun c => c.provenance = .external

section
variable (h : Hierarchy) (dispatch : Dispatch) (declared : List Location)

/-- The target of the call is not at hand, but a method is declared at its location. -/
def isMasked (s : NamedSite) : Bool :=
  !(resolveSite h dispatch s).2 && declared.contains (.ofMethod s.ref.owner s.ref.name s.params)

/-- The methods that are not declared, although the target of the call is at hand and leads to them. -/
def lostTargets (s : NamedSite) : List Location :=
  if (resolveSite h dispatch s).2 then
    (resolveSite h dispatch s).1.filter fun l => !declared.contains l
  else []

/-! ### Counting external calls -/

/-- No kind of call is shown as external. -/
private theorem ofKind_ne_external (kind : Bytecode.InvokeKind) : Provenance.ofKind kind ≠ .external := by
  cases kind <;> decide

/-- `callsOfSite` shows a call as external if its target is not declared, whichever of the targets of the site
    it is. -/
private theorem countP_callsOfSite (naming : Naming) (source : String) (kind : Bytecode.InvokeKind)
    (isNamed : Bool) (callees : List Location) :
    (callsOfSite naming (setOf declared) source kind isNamed callees).countP
        (fun c => c.provenance = .external) =
      callees.countP fun l => !declared.contains l := by
  induction callees generalizing isNamed with
  | nil => rfl
  | cons callee rest ih =>
    rw [callsOfSite, List.countP_cons, List.countP_cons, ih, contains_setOf]
    cases declared.contains callee with
    | false => rfl
    | true =>
      -- a declared target is shown by the kind of the call, or as overriding
      cases isNamed <;> simp [ofKind_ne_external]

/-- `externals` of a survey counts the targets of all sites that are not declared. -/
private theorem externals_collect (s : Store) (bodies : List Body) (naming : Naming) :
    (Survey.collect s bodies naming).externals =
      ((bodies.flatMap Body.sites).flatMap ResolvedSite.callees).countP
        fun l => !s.declarations.contains l := by
  have hbody (b : Body) : (callsOfBody naming (setOf s.declarations) b).countP
      (fun c => c.provenance = .external) =
        (b.sites.flatMap ResolvedSite.callees).countP fun l => !s.declarations.contains l := by
    simp only [callsOfBody, List.countP_flatMap, Function.comp_def, countP_callsOfSite]
  simp only [Survey.externals, Survey.collect, List.flatMap_assoc, List.countP_flatMap (l := bodies),
    Function.comp_def, hbody]

/-- A call whose target is not at hand leads to one method, which is declared if the call `isMasked`. One whose
    target is at hand leads to undeclared methods only where they got lost (`lostTargets`). -/
private theorem countP_callees (s : NamedSite) :
    (resolveSite h dispatch s).1.countP (fun l => !declared.contains l) +
        (if isMasked h dispatch declared s then 1 else 0) =
      (if !(resolveSite h dispatch s).2 then 1 else 0) + (lostTargets h dispatch declared s).length := by
  unfold isMasked lostTargets
  cases hf : h.resolve s.ref.owner s.ref.name s.ref.descriptor with
  | none =>
    rw [resolveSite_of_none dispatch hf, List.countP_singleton]
    cases declared.contains (Location.ofMethod s.ref.owner s.ref.name s.params) <;> rfl
  | some f =>
    have hresolved : (resolveSite h dispatch s).2 = true := by rw [resolveSite, hf]
    simp [hresolved, List.countP_eq_length_filter]

/-- The external calls and those that are `isMasked` are as many as the unresolved calls and the `lostTargets`,
    since it is so for each site. -/
private theorem countP_flatMap_callees (sites : List NamedSite) :
    (sites.flatMap fun s => (resolveSite h dispatch s).1).countP (fun l => !declared.contains l) +
        sites.countP (isMasked h dispatch declared) =
      sites.countP (fun s => !(resolveSite h dispatch s).2) +
        (sites.flatMap (lostTargets h dispatch declared)).length := by
  induction sites with
  | nil => rfl
  | cons s rest ih =>
    have hsite := countP_callees h dispatch declared s
    simp only [List.flatMap_cons, List.countP_append, List.countP_cons, List.length_append]
    omega

end

/-! ### The calls of a build -/

/-- The bodies of a class have the call sites of its methods, resolved one by one. -/
private theorem flatMap_sites_bodiesOf (h : Hierarchy) (dispatch : Dispatch) (c : LoadedClass) :
    (bodiesOf h dispatch c).flatMap (fun p => p.1.sites) =
      (c.methods.flatMap fun m => m.code.elim [] LoadedCode.sites).map
        fun s => ⟨s.site, (resolveSite h dispatch s).1⟩ := by
  unfold bodiesOf
  induction c.methods with
  | nil => rfl
  | cons m ms ih =>
    rw [List.flatMap_cons, List.map_append, ← ih]
    cases hcode : m.code with
    | none => simp [hcode]
    | some code => simp [hcode]

section
variable (dispatch : Dispatch) (cs : List LoadedClass) (failures : List LoadFailure)
  (warnings : List Diagnostic)

/-- The targets in the bodies of `buildLoaded` are those of `resolveSite`, site by site. -/
private theorem flatMap_callees_buildLoaded :
    ((buildLoaded dispatch cs failures warnings).bodies.flatMap Body.sites).flatMap
        ResolvedSite.callees =
      (Program.callsOf cs).flatMap fun s => (resolveSite (hierarchyOf cs) dispatch s).1 := by
  have hsites : (buildLoaded dispatch cs failures warnings).bodies.flatMap Body.sites =
      (Program.callsOf cs).map fun s => ⟨s.site, (resolveSite (hierarchyOf cs) dispatch s).1⟩ := by
    show ((cs.flatMap (bodiesOf (hierarchyOf cs) dispatch)).map Prod.fst).flatMap Body.sites = _
    rw [List.flatMap_map, Program.callsOf, List.flatMap_assoc, List.map_flatMap]
    exact List.flatMap_congr fun c _ => flatMap_sites_bodiesOf _ _ c
  rw [hsites, List.flatMap_map]

/-- The number of `externals` of a build, set against the number of unresolved calls that it reports. -/
private theorem externals_add_masked (naming : Naming) {built : Built}
    (hbuilt : built = buildLoaded dispatch cs failures warnings) :
    ((Survey.collect built.store built.bodies naming).externals +
        (Program.callsOf cs).countP (isMasked (hierarchyOf cs) dispatch built.store.declarations) : Int) =
      built.report.unresolved +
        ((Program.callsOf cs).flatMap
          (lostTargets (hierarchyOf cs) dispatch built.store.declarations)).length := by
  have hcount := countP_flatMap_callees (hierarchyOf cs) dispatch built.store.declarations (Program.callsOf cs)
  have hunresolved := unresolved_buildLoaded dispatch cs failures warnings
  rw [← hbuilt, ← List.countP_eq_length_filter] at hunresolved
  have hcallees := flatMap_callees_buildLoaded dispatch cs failures warnings
  rw [← hbuilt] at hcallees
  rw [hunresolved, externals_collect, hcallees]
  exact_mod_cast hcount

end

/-- The `declarations` of a build are loaded methods. -/
theorem exists_method_of_mem_declarations {dispatch : Dispatch} {cs : List LoadedClass}
    {failures : List LoadFailure} {warnings : List Diagnostic} {l : Location}
    (hl : l ∈ (buildLoaded dispatch cs failures warnings).store.declarations) :
    ∃ c ∈ cs, ∃ m ∈ c.methods, m.declaration = l := by
  obtain ⟨hdeclaration, t, ht, hhead⟩ := Store.mem_declarations.1 hl
  have hfact := (records_declarations dispatch cs failures warnings).subset t ht
  obtain ⟨c, hc, hfact⟩ := List.mem_flatMap.1 hfact
  rcases mem_declarationFacts.1 hfact with rfl | ⟨m, hm, rfl⟩
  · rw [← Option.some.inj hhead, isDeclaration_classLocation] at hdeclaration
    cases hdeclaration
  · exact ⟨c, hc, m, hm, Option.some.inj hhead⟩

section
variable {cs : List LoadedClass} (hcs : IsProgram cs) (dispatch : Dispatch)
  (failures : List LoadFailure) (warnings : List Diagnostic)
  (hkeys : KeysApart (cs.flatMap declarationFacts))
include hcs hkeys

/-- The `declarations` of a build are exactly its loaded methods, where keys tell them apart. -/
theorem mem_declarations_iff {l : Location} :
    l ∈ (buildLoaded dispatch cs failures warnings).store.declarations ↔
      ∃ c ∈ cs, ∃ m ∈ c.methods, m.declaration = l := by
  refine ⟨exists_method_of_mem_declarations, ?_⟩
  rintro ⟨c, hc, m, hm, rfl⟩
  exact hcs.mem_declarations dispatch failures warnings hkeys hc hm

/-- No target gets lost where keys tell declarations apart: `lostTargets` is empty. -/
private theorem flatMap_lostTargets_eq_nil :
    (Program.callsOf cs).flatMap (lostTargets (hierarchyOf cs) dispatch
      (buildLoaded dispatch cs failures warnings).store.declarations) = [] := by
  rw [List.flatMap_eq_nil_iff]
  intro s hs
  unfold lostTargets
  split
  · rename_i hresolved
    rw [List.filter_eq_nil_iff]
    intro l hl
    -- what a resolved call leads to was loaded
    have hmethod := hcs.exists_method_of_mem_callees (hcs.isTyped hs) hresolved hl
    have hdeclared := (mem_declarations_iff hcs dispatch failures warnings hkeys).2 hmethod
    simpa using hdeclared
  · rfl

end

/-- The `externals` of a survey and the masked calls are as many as the unresolved calls and the lost targets.
    Where keys tell declarations apart (`KeysApart`), the unresolved calls are as many as the external ones
    exactly if none of them has the location of a method at hand. -/
theorem unresolved_eq_externals_iff {options : BuildOptions} {entries : List ClassEntry} {built : Built}
    (h : build options entries = .ok built) (naming : Naming) :
    (((Survey.collect built.store built.bodies naming).externals +
        (Program.callsOf (keptClasses options.limits entries)).countP (isMasked
          (hierarchyOf (keptClasses options.limits entries)) options.dispatch built.store.declarations) :
          Int) =
      built.report.unresolved + ((Program.callsOf (keptClasses options.limits entries)).flatMap (lostTargets
        (hierarchyOf (keptClasses options.limits entries)) options.dispatch
        built.store.declarations)).length) ∧
    (KeysApart ((keptClasses options.limits entries).flatMap declarationFacts) →
      (built.report.unresolved = (Survey.collect built.store built.bodies naming).externals ↔
        ∀ s ∈ Program.callsOf (keptClasses options.limits entries),
          (resolveSite (hierarchyOf (keptClasses options.limits entries)) options.dispatch s).2 = false →
          ∀ c ∈ keptClasses options.limits entries, ∀ m ∈ c.methods,
            m.declaration ≠ .ofMethod s.ref.owner s.ref.name s.params)) ∧
    ((∀ c ∈ keptClasses options.limits entries, c.IsPlain) →
      KeysApart ((keptClasses options.limits entries).flatMap declarationFacts)) := by
  have hcs := isProgram_keptClasses options.limits entries
  have hbuilt := eq_buildLoaded h
  have hcount := externals_add_masked options.dispatch _ _ _ naming hbuilt
  refine ⟨hcount, fun hkeys => ?_, fun hplain => hcs.keysApart_facts hplain fun _ _ _ => .inl⟩
  have hlost := flatMap_lostTargets_eq_nil hcs options.dispatch
    (loadFailures options.limits entries) (buildWarnings options.limits entries) hkeys
  rw [← hbuilt] at hlost
  rw [hlost] at hcount
  -- so the numbers differ by the masked calls
  have hmasked : built.report.unresolved = (Survey.collect built.store built.bodies naming).externals ↔
      (Program.callsOf (keptClasses options.limits entries)).countP (isMasked
        (hierarchyOf (keptClasses options.limits entries)) options.dispatch
        built.store.declarations) = 0 := by
    simp only [List.length_nil] at hcount
    omega
  rw [hmasked, List.countP_eq_zero, hbuilt]
  refine forall₂_congr fun s _ => ?_
  -- a masked call names a method at hand
  have hdeclared := mem_declarations_iff hcs options.dispatch (loadFailures options.limits entries)
    (buildWarnings options.limits entries) hkeys (l := .ofMethod s.ref.owner s.ref.name s.params)
  rw [isMasked, Bool.and_eq_true, List.contains_iff_mem, hdeclared]
  simp

/-- `resolveSite` of a call of a method that no class has gives the method it names. -/
theorem resolveSite_of_outlines {cs : List LoadedClass} {outlines : List Outline} (hcs : IsProgram cs)
    (houtline : cs.map LoadedClass.outline = outlines) (dispatch : Dispatch) {s : NamedSite}
    (hlacks : ∀ o ∈ outlines, o.method? s.ref.name s.ref.descriptor = none) :
    resolveSite (hierarchyOf cs) dispatch s = ([.ofMethod s.ref.owner s.ref.name s.params], false) := by
  refine resolveSite_of_none dispatch (Option.eq_none_iff_forall_ne_some.2 fun f hf => ?_)
  obtain ⟨hmethod, howner, -⟩ := Hierarchy.resolve_eq_some hcs.nodup_names hf
  obtain ⟨c, hc, hcowner⟩ := List.mem_map.1 howner
  have hnone := forall_of_outlines houtline hlacks c hc
  rw [← hcowner, hcs.method?_eq hc, hnone] at hmethod
  cases hmethod

/-! ### A call of a method with another result -/

/-- A class `A` with a method `f` that has no result, and a method that calls a method `f` with a result. -/
def calling (owner : String) : List ClassEntry :=
  [entryOf "A.class"
    { name := "A"
      methods := [⟨.isStatic, "f", "()V", []⟩,
        ⟨.isStatic, "g", "()V", [.invokeStatic owner "f" "()J"]⟩] }]

/-- The call in `calling`. -/
def callOfResult (owner : String) : NamedSite :=
  ⟨⟨0, 0, .static, 6, 0⟩, ⟨10, owner, "f", "()J"⟩, []⟩

def outlinesOfCalling (owner : String) : List Outline :=
  [⟨"A", 33, "java/lang/Object", [], "", [returning 9 "A" "f",
    loadedMethod 9 "A" "g" [0xb8, 0, 6] [⟨0, 0xb8, 3, "invokestatic", 6, [], [], false⟩]
      [callOfResult owner]]⟩]

/-- The outlines of the classes that are loaded from `calling`. -/
theorem map_outline_calling (owner : String) (howner : owner = "A" ∨ owner = "B") :
    (keptClasses ⟨0, Bytecode.defaultLimit⟩ (calling owner)).map LoadedClass.outline =
      outlinesOfCalling owner := by
  rcases howner with rfl | rfl
  · exact map_outline_keptClasses (by decide) (by decide +kernel) (by decide)
  · exact map_outline_keptClasses (by decide) (by decide +kernel) (by decide)

section
variable {cs : List LoadedClass} {owner : String}
  (houtline : cs.map LoadedClass.outline = outlinesOfCalling owner)
include houtline

/-- `callOfResult` is the only call in `calling`. -/
theorem callsOf_calling : Program.callsOf cs = [callOfResult owner] := by
  have hmethods : Program.callsOf cs = (cs.map LoadedClass.outline).flatMap fun o =>
      o.methods.flatMap fun m => m.code.elim [] LoadedCode.sites := by
    rw [List.flatMap_map]
    rfl
  rw [hmethods, houtline]
  rfl

/-- The class of `calling` is plain, so keys tell its declarations apart. -/
private theorem isPlain_calling : ∀ c ∈ cs, c.IsPlain := by
  refine isPlain_of_outlines houtline fun o ho => ?_
  obtain rfl := List.mem_singleton.1 ho
  refine ⟨show (Location.ofClass "A" false).IsPlain by decide,
    show (Location.ofUnit "A" "").IsPlain by decide, fun m hm => ?_⟩
  rcases List.mem_pair.1 hm with rfl | rfl
  · decide
  · show (Location.ofMethod "A" "g" []).IsPlain
    decide

/-- The methods of `calling` are `f` and `g`. -/
private theorem exists_declaration_calling {l : Location} :
    (∃ c ∈ cs, ∃ m ∈ c.methods, m.declaration = l) ↔
      l = .ofMethod "A" "f" [] ∨ l = .ofMethod "A" "g" [] := by
  rw [exists_method_of_outlines houtline]
  simp [outlinesOfCalling, returning, loadedMethod, eq_comm]

/-- `callOfResult` leads to the method it names, which is not at hand. -/
theorem resolveSite_calling (hcs : IsProgram cs) (dispatch : Dispatch) :
    resolveSite (hierarchyOf cs) dispatch (callOfResult owner) = ([.ofMethod owner "f" []], false) := by
  refine resolveSite_of_outlines hcs houtline dispatch (s := callOfResult owner) fun o ho => ?_
  obtain rfl := List.mem_singleton.1 ho
  rfl

/-- A build of `calling` reports one unresolved call. -/
theorem unresolved_calling (hcs : IsProgram cs) (dispatch : Dispatch) (failures : List LoadFailure)
    (warnings : List Diagnostic) : (buildLoaded dispatch cs failures warnings).report.unresolved = 1 := by
  rw [unresolved_buildLoaded, callsOf_calling houtline]
  simp [resolveSite_calling houtline hcs]

end

/-- `unresolved_eq_externals_iff` on `calling "B"`: a call into a class that is not at hand is unresolved and
    external. -/
theorem unresolved_eq_externals_calling : ∃ built, build {} (calling "B") = .ok built ∧
    built.report.unresolved = 1 ∧
    (Survey.collect built.store built.bodies .short).externals = 1 := by
  have hbuild : build {} (calling "B") = .ok _ := build_eq _ _
  have houtline := map_outline_calling "B" (.inr rfl)
  have hcs := isProgram_keptClasses ⟨0, Bytecode.defaultLimit⟩ (calling "B")
  obtain ⟨-, hiff, hplain⟩ := unresolved_eq_externals_iff hbuild .short
  have hunresolved := unresolved_calling houtline hcs .declared
    (loadFailures ⟨0, Bytecode.defaultLimit⟩ (calling "B"))
    (buildWarnings ⟨0, Bytecode.defaultLimit⟩ (calling "B"))
  -- no class at hand declares what the one call names
  have hagree := (hiff (hplain (isPlain_calling houtline))).2 fun s hs _ c hc m hm hsame => by
    rw [callsOf_calling houtline, List.mem_singleton] at hs
    subst hs
    have hmethod := (exists_declaration_calling houtline).1 ⟨c, hc, m, hm, hsame⟩
    exact absurd hmethod (by decide)
  exact ⟨_, hbuild, hunresolved, by exact_mod_cast hagree.symm.trans hunresolved⟩

/-- In `calling "A"` the method at hand masks the call, so there are no `externals`. -/
private theorem externals_calling {cs : List LoadedClass} (hcs : IsProgram cs)
    (houtline : cs.map LoadedClass.outline = outlinesOfCalling "A") (dispatch : Dispatch)
    (failures : List LoadFailure) (warnings : List Diagnostic) (naming : Naming) {built : Built}
    (hbuilt : built = buildLoaded dispatch cs failures warnings) :
    (Survey.collect built.store built.bodies naming).externals = 0 := by
  have hkeys : KeysApart (cs.flatMap declarationFacts) :=
    hcs.keysApart_facts (isPlain_calling houtline) fun _ _ _ => .inl
  have hdeclared : Location.ofMethod "A" "f" [] ∈ built.store.declarations := by
    rw [hbuilt, mem_declarations_iff hcs dispatch failures warnings hkeys]
    exact (exists_declaration_calling houtline).2 (.inl rfl)
  have hmasked : isMasked (hierarchyOf cs) dispatch built.store.declarations (callOfResult "A") = true := by
    rw [isMasked, resolveSite_calling houtline hcs, Bool.and_eq_true]
    exact ⟨rfl, List.contains_iff_mem.2 hdeclared⟩
  have hlost := flatMap_lostTargets_eq_nil hcs dispatch failures warnings hkeys
  have hunresolved := unresolved_calling houtline hcs dispatch failures warnings
  -- the one unresolved call is masked
  have hcount := externals_add_masked dispatch cs failures warnings naming hbuilt
  rw [← hbuilt] at hlost hunresolved
  rw [hlost, hunresolved, callsOf_calling houtline, List.countP_singleton, if_pos hmasked] at hcount
  simp only [List.length_nil] at hcount
  omega

/-- In `calling "A"` a call is unresolved and none is external, whatever the dispatch. -/
private theorem masked_calling (dispatch : Dispatch) : ∃ built,
    build { dispatch } (calling "A") = .ok built ∧ built.report.unresolved = 1 ∧
    (Survey.collect built.store built.bodies .short).externals = 0 := by
  have houtline := map_outline_calling "A" (.inl rfl)
  have hcs := isProgram_keptClasses ⟨0, Bytecode.defaultLimit⟩ (calling "A")
  exact ⟨_, build_eq _ _, unresolved_calling houtline hcs _ _ _,
    externals_calling hcs houtline _ _ _ .short rfl⟩

/-- A call of a method that only its result tells from one at hand is unresolved but not external, as `calling
    "A"` shows. -/
theorem unresolved_ne_externals_calling :
    (∃ built, build { dispatch := .declared } (calling "A") = .ok built ∧ built.report.unresolved = 1 ∧
      (Survey.collect built.store built.bodies .short).externals = 0) ∧
    ∃ built, build { dispatch := .overrides } (calling "A") = .ok built ∧ built.report.unresolved = 1 ∧
      (Survey.collect built.store built.bodies .short).externals = 0 :=
  ⟨masked_calling .declared, masked_calling .overrides⟩

end CallAtlas.CallGraph
