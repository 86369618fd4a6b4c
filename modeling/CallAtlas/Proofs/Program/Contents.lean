import CallAtlas.Proofs.Facts.Recording
import CallAtlas.Proofs.Program.Isolation
import CallAtlas.Proofs.Program.Resolution

/-!
# What a program consists of

The classes that a build works on are a program: they were loaded, and their names differ
(`IsProgram`). Every method that a class file describes is then among the loaded methods, under the
location that its class, name and descriptor say (`exists_method`). Here is also what a build makes of a
program: its bodies (`mem_bodies`) and what its relations hold (`records_storeOf`).
-/

namespace CallAtlas.Program

open Facts

/-- Classes that were loaded, no two of one name. -/
structure IsProgram (cs : List LoadedClass) : Prop where
  loaded : ∀ c ∈ cs, ∃ limits e, load limits e = .ok c
  names : cs.Pairwise fun c d => c.classFile.name ≠ d.classFile.name

/-- `keptClasses` are a program (`IsProgram`). -/
theorem isProgram_keptClasses (limits : Limits) (entries : List ClassEntry) :
    IsProgram (keptClasses limits entries) := by
  constructor
  · intro c hc
    obtain ⟨e, -, hload⟩ := exists_load_of_mem_keptClasses hc
    exact ⟨limits, e, hload⟩
  · exact (firstOfName_names [] (loadedClasses limits entries)).2

/-- The hierarchy of loaded classes. -/
def hierarchyOf (cs : List LoadedClass) : Hierarchy :=
  .ofClasses (cs.map LoadedClass.classFile)

/-- The calls of loaded classes. -/
def callsOf (cs : List LoadedClass) : List NamedSite :=
  cs.flatMap fun c => c.methods.flatMap fun m => m.code.elim [] LoadedCode.sites

/-- `callsOf` lists the call sites of all loaded code. -/
theorem mem_callsOf {cs : List LoadedClass} {s : NamedSite} :
    s ∈ callsOf cs ↔ ∃ c ∈ cs, ∃ m ∈ c.methods, ∃ code, m.code = some code ∧ s ∈ code.sites := by
  simp only [callsOf, List.mem_flatMap]
  refine exists_congr fun c => and_congr_right fun _ => exists_congr fun m => and_congr_right fun _ => ?_
  cases m.code with
  | none => simp
  | some code => simp

/-- `method?` finds a method of the class file that has the name and the descriptor. -/
theorem method?_eq_some {c : ClassFile} {name descriptor : String} {m : ClassFile.Method}
    (hm : c.method? name descriptor = some m) :
    m ∈ c.methods ∧ m.name = name ∧ m.descriptor = descriptor := by
  have hfound := List.find?_some hm
  simp only [Bool.and_eq_true, beq_iff_eq] at hfound
  exact ⟨List.mem_of_find?_eq_some hm, hfound⟩

namespace IsProgram

variable {cs : List LoadedClass} (h : IsProgram cs)
include h

/-- The names of a program's hierarchy differ. -/
theorem nodup_names : (hierarchyOf cs).names.Nodup := by
  show ((cs.map LoadedClass.classFile).map ClassFile.name).Nodup
  rw [List.map_map]
  exact List.pairwise_map.2 h.names

/-- At most one loaded class of a program bears a name. -/
theorem eq_of_name_eq {c d : LoadedClass} (hc : c ∈ cs) (hd : d ∈ cs)
    (hname : c.classFile.name = d.classFile.name) : c = d := by
  have hnodup : (cs.map fun c => c.classFile.name).Nodup := List.pairwise_map.2 h.names
  exact List.inj_on_of_nodup_map hnodup hc hd hname

/-- Declarations in a program are locations of methods. -/
theorem isMethod {c : LoadedClass} (hc : c ∈ cs) {m : LoadedMethod} (hm : m ∈ c.methods) :
    m.declaration.IsMethod := by
  obtain ⟨limits, e, hload⟩ := h.loaded c hc
  exact (method_of_load hload hm).1

/-- The code of a method in a program comes from `loadCode`. -/
theorem exists_loadCode {c : LoadedClass} (hc : c ∈ cs) {m : LoadedMethod} (hm : m ∈ c.methods)
    {code : LoadedCode} (hcode : m.code = some code) :
    ∃ limit method source, loadCode c.classFile limit method source = .ok code := by
  obtain ⟨limits, e, hload⟩ := h.loaded c hc
  obtain ⟨method, -, hmethod⟩ := Result.exists_of_mem_mapM (load_eq_ok hload).2.2 m hm
  obtain ⟨source, -, hsource⟩ := (loadMethod_eq_ok hmethod).2.2 code hcode
  exact ⟨_, method, source, hsource⟩

/-- The calls of a program are `IsTyped`. -/
theorem isTyped {s : NamedSite} (hs : s ∈ callsOf cs) : s.IsTyped := by
  obtain ⟨c, hc, m, hm, code, hcode, hs⟩ := mem_callsOf.1 hs
  obtain ⟨limit, method, source, hsource⟩ := h.exists_loadCode hc hm hcode
  exact isTyped_of_loadCode hsource s hs

/-- Every method that a class file of a program describes is loaded, under the location that is made of its
    class, its name and its descriptor. -/
theorem exists_method {c : ClassFile} (hc : c ∈ (hierarchyOf cs).classes) {name descriptor : String}
    {m : ClassFile.Method} (hm : c.method? name descriptor = some m) {type : MethodType}
    (htype : Descriptor.parse descriptor = .ok type) :
    ∃ d ∈ cs, d.classFile = c ∧ ∃ n ∈ d.methods, n.method = m ∧
      n.declaration = .ofMethod c.name name type.params := by
  obtain ⟨d, hd, rfl⟩ := List.mem_map.1 hc
  obtain ⟨limits, e, hload⟩ := h.loaded d hd
  obtain ⟨hmem, rfl, rfl⟩ := method?_eq_some hm
  obtain ⟨n, hn, hloaded⟩ := Result.exists_mem_of_mapM (load_eq_ok hload).2.2 m hmem
  obtain ⟨rfl, ⟨type', htype', hdeclaration⟩, -⟩ := loadMethod_eq_ok hloaded
  rw [htype, Except.ok.injEq] at htype'
  exact ⟨d, hd, rfl, n, hn, rfl, htype' ▸ hdeclaration⟩

end IsProgram

/-- No name in the class has the character that closes locations in a key. -/
def LoadedClass.IsPlain (c : LoadedClass) : Prop :=
  (classLocation c).IsPlain ∧ (unitLocation c).IsPlain ∧ ∀ m ∈ c.methods, m.declaration.IsPlain

/-! ### Programs by outline -/

/-- What a build looks at in a loaded class. -/
structure Outline where
  name : String
  access : Nat
  super : String
  interfaces : List String
  sourceFile : String
  methods : List LoadedMethod
  deriving DecidableEq

def LoadedClass.outline (c : LoadedClass) : Outline :=
  ⟨c.classFile.name, c.classFile.access, c.classFile.super, c.classFile.interfaces,
    c.classFile.sourceFile, c.methods⟩

namespace Outline

def isInterface (o : Outline) : Bool :=
  ClassFile.hasAccess o.access .isInterface

/-- The first method with a name and a descriptor. -/
def method? (o : Outline) (name descriptor : String) : Option ClassFile.Method :=
  (o.methods.map LoadedMethod.method).find? fun m => m.name == name && m.descriptor == descriptor

/-- No name in the outline has the character that closes locations in a key. -/
def IsPlain (o : Outline) : Prop :=
  (Location.ofClass o.name o.isInterface).IsPlain ∧ (Location.ofUnit o.name o.sourceFile).IsPlain ∧
    ∀ m ∈ o.methods, m.declaration.IsPlain

instance (o : Outline) : Decidable o.IsPlain :=
  inferInstanceAs (Decidable (_ ∧ _ ∧ ∀ m ∈ o.methods, m.declaration.IsPlain))

end Outline

/-- `classLocation` in terms of the outline. -/
theorem classLocation_eq (c : LoadedClass) :
    classLocation c = .ofClass c.outline.name c.outline.isInterface :=
  rfl

/-- `unitLocation` in terms of the outline. -/
theorem unitLocation_eq (c : LoadedClass) :
    unitLocation c = .ofUnit c.outline.name c.outline.sourceFile :=
  rfl

/-- `keptClasses` keeps all entries that stand in the order of their paths and hold classes of different
    names. -/
theorem map_outline_keptClasses {limits : Limits} {entries : List ClassEntry} {outlines : List Outline}
    (hsorted : entries.Pairwise fun a b => a.path.le b.path = true)
    (hload : entries.map (fun e => (load limits e).toOption.map LoadedClass.outline) =
      outlines.map some)
    (hnames : (outlines.map Outline.name).Nodup) :
    (keptClasses limits entries).map LoadedClass.outline = outlines := by
  have hentries : sortEntries entries = entries := List.mergeSort_of_pairwise hsorted
  have hloaded : (loadedClasses limits entries).map LoadedClass.outline = outlines := by
    rw [loadedClasses, hentries, List.map_filterMap, List.filterMap_map]
    calc entries.filterMap (fun e => (load limits e).toOption.map LoadedClass.outline)
        = (entries.map fun e => (load limits e).toOption.map LoadedClass.outline).filterMap id := by
          rw [List.filterMap_map]
          rfl
      _ = outlines := by
          rw [hload, List.filterMap_map]
          exact List.filterMap_some
  -- nothing is left out, as no name comes twice
  have hdistinct : (loadedClasses limits entries).Pairwise
      fun c d => c.classFile.name ≠ d.classFile.name := by
    rw [← hloaded, List.map_map] at hnames
    exact List.pairwise_map.1 hnames
  rw [keptClasses, firstOfName_eq_self [] (fun _ _ => rfl) hdistinct]
  exact hloaded

section
variable {cs : List LoadedClass} {outlines : List Outline}
  (h : cs.map LoadedClass.outline = outlines)
include h

/-- The class of the outline at a place. -/
theorem exists_outline_eq (i : Nat) (hi : i < outlines.length) : ∃ c ∈ cs, c.outline = outlines[i] :=
  List.mem_map.1 (h ▸ List.getElem_mem hi)

/-- What holds of all outlines holds of all classes. -/
theorem forall_of_outlines {p : Outline → Prop} (hp : ∀ o ∈ outlines, p o) :
    ∀ c ∈ cs, p c.outline :=
  fun _ hc => hp _ (h ▸ List.mem_map_of_mem hc)

/-- Classes with plain outlines are `IsPlain`. -/
theorem isPlain_of_outlines (hp : ∀ o ∈ outlines, o.IsPlain) : ∀ c ∈ cs, c.IsPlain :=
  forall_of_outlines h hp

/-- Methods can be looked for in the outlines. -/
theorem exists_method_of_outlines {p : LoadedMethod → Prop} :
    (∃ c ∈ cs, ∃ m ∈ c.methods, p m) ↔ ∃ o ∈ outlines, ∃ m ∈ o.methods, p m := by
  rw [← h]
  simp only [List.mem_map, exists_exists_and_eq_and]
  rfl

/-- The names of the hierarchy are those of the outlines. -/
theorem names_of_outlines : (hierarchyOf cs).names = outlines.map Outline.name := by
  rw [← h, List.map_map]
  exact List.map_map

end

/-- `IsSuperclass` can be read off the outlines. -/
theorem isSuperclass_of_outline {cs : List LoadedClass} {c d : LoadedClass} (hd : d ∈ cs)
    (hlink : c.outline.isInterface = false ∧ c.outline.super ≠ "" ∧ d.outline.name = c.outline.super) :
    IsSuperclass (hierarchyOf cs).classes c.classFile d.classFile :=
  ⟨hlink.1, hlink.2.1, List.mem_map_of_mem hd, hlink.2.2⟩

/-- `load` keeps the methods of a class file. -/
private theorem map_method_methods {limits : Limits} {e : ClassEntry} {c : LoadedClass}
    (hload : load limits e = .ok c) : c.methods.map LoadedMethod.method = c.classFile.methods :=
  Result.map_eq_of_mapM (fun _ _ h => (loadMethod_eq_ok h).1) (load_eq_ok hload).2.2

/-- `method?` can be read off the outline. -/
theorem IsProgram.method?_eq {cs : List LoadedClass} (h : IsProgram cs) {c : LoadedClass}
    (hc : c ∈ cs) (name descriptor : String) :
    c.classFile.method? name descriptor = c.outline.method? name descriptor := by
  obtain ⟨limits, e, hload⟩ := h.loaded c hc
  rw [ClassFile.method?, ← map_method_methods hload]
  rfl

/-! ### The bodies of a build -/

/-- The body of a method that has code. -/
def bodyOf (h : Hierarchy) (dispatch : Dispatch) (m : LoadedMethod) (code : LoadedCode) : Body :=
  { declaration := m.declaration
    instructions := code.instructions
    sites := code.sites.map fun s => ⟨s.site, (resolveSite h dispatch s).1⟩ }

/-- The bodies of `buildLoaded` are those of `bodyOf`, one for each method with code. -/
theorem mem_bodies {dispatch : Dispatch} {cs : List LoadedClass} {failures : List LoadFailure}
    {warnings : List Diagnostic} {b : Body} :
    b ∈ (buildLoaded dispatch cs failures warnings).bodies ↔
      ∃ c ∈ cs, ∃ m ∈ c.methods, ∃ code, m.code = some code ∧
        b = bodyOf (hierarchyOf cs) dispatch m code := by
  -- `bodiesOf` also tells which calls were resolved
  have hbody : ∀ (c : LoadedClass) (p : Body × List Bool),
      p ∈ bodiesOf (hierarchyOf cs) dispatch c ↔ ∃ m ∈ c.methods, ∃ code, m.code = some code ∧
        p = (bodyOf (hierarchyOf cs) dispatch m code,
          code.sites.map fun s => (resolveSite (hierarchyOf cs) dispatch s).2) := by
    intro c p
    simp only [bodiesOf, List.mem_filterMap, Option.map_eq_some_iff, bodyOf, List.map_map]
    refine exists_congr fun m => and_congr_right fun _ => exists_congr fun code =>
      and_congr_right fun _ => ?_
    exact eq_comm
  show b ∈ (cs.flatMap (bodiesOf (hierarchyOf cs) dispatch)).map Prod.fst ↔ _
  simp only [List.mem_map, List.mem_flatMap, hbody]
  constructor
  · rintro ⟨p, ⟨c, hc, m, hm, code, hcode, rfl⟩, rfl⟩
    exact ⟨c, hc, m, hm, code, hcode, rfl⟩
  · rintro ⟨c, hc, m, hm, code, hcode, rfl⟩
    exact ⟨_, ⟨c, hc, m, hm, code, hcode, rfl⟩, rfl⟩

/-- The `invocationFacts` of a build, call by call. -/
theorem mem_invocationFacts {dispatch : Dispatch} {cs : List LoadedClass}
    {failures : List LoadFailure} {warnings : List Diagnostic} {t : Tuple} :
    t ∈ (buildLoaded dispatch cs failures warnings).bodies.flatMap invocationFacts ↔
      ∃ c ∈ cs, ∃ m ∈ c.methods, ∃ code, m.code = some code ∧ ∃ s ∈ code.sites,
        ∃ l ∈ (resolveSite (hierarchyOf cs) dispatch s).1,
          t = [m.declaration, l, .ofSite m.declaration s.site.offset s.site.line] := by
  simp only [List.mem_flatMap, mem_bodies]
  constructor
  · -- one fact for each callee of each call of each body
    rintro ⟨b, ⟨c, hc, m, hm, code, hcode, rfl⟩, ht⟩
    obtain ⟨r, hr, ht⟩ := List.mem_flatMap.1 ht
    obtain ⟨s, hs, rfl⟩ := List.mem_map.1 hr
    obtain ⟨l, hl, rfl⟩ := List.mem_map.1 ht
    exact ⟨c, hc, m, hm, code, hcode, s, hs, l, hl, rfl⟩
  · rintro ⟨c, hc, m, hm, code, hcode, s, hs, l, hl, rfl⟩
    refine ⟨_, ⟨c, hc, m, hm, code, hcode, rfl⟩, ?_⟩
    exact List.mem_flatMap.2 ⟨_, List.mem_map_of_mem hs, List.mem_map_of_mem hl⟩

/-! ### The relations of a build -/

/-- The relations that a build fills. -/
def relationsOf (h : Hierarchy) (overrides : List Tuple) (cs : List LoadedClass) (bodies : List Body) :
    List Relation :=
  [relationOf relDeclarations 2 (cs.flatMap declarationFacts),
   relationOf relContainment 2 (cs.flatMap containmentFacts),
   relationOf relExtends 2 (cs.flatMap (extendsFacts h)),
   relationOf relImplements 2 (cs.flatMap (implementsFacts h)),
   relationOf relOverrides 2 overrides,
   relationOf relInvocation 3 (bodies.flatMap invocationFacts)]

/-- `relationOf` has the name it is given. -/
private theorem name_relationOf (name : String) (arity : Nat) (ts : List Tuple) :
    (relationOf name arity ts).name = name :=
  Relation.name_foldl_insert _ ts

/-- `relation?` finds each of `relationsOf` in `storeOf`, sorted. -/
private theorem relation?_storeOf {h : Hierarchy} {overrides : List Tuple} {cs : List LoadedClass}
    {bodies : List Body} {name : String} {n : Nat} {ts : List Tuple}
    (hmem : relationOf name n ts ∈ relationsOf h overrides cs bodies) :
    (storeOf h overrides cs bodies).relation? name = some (relationOf name n ts).sorted.tuples := by
  -- no two of the six relations share a name
  have hnames : ((relationsOf h overrides cs bodies).map Relation.name).Nodup := by
    simp only [relationsOf, List.map_cons, List.map_nil, name_relationOf]
    decide
  have hrelation := Store.relation?_freeze hnames hmem
  rw [name_relationOf] at hrelation
  exact hrelation

/-- The `tuples` of `storeOf` under the name of one of `relationsOf`. -/
theorem tuples_storeOf {h : Hierarchy} {overrides : List Tuple} {cs : List LoadedClass}
    {bodies : List Body} {name : String} {n : Nat} {ts : List Tuple}
    (hmem : relationOf name n ts ∈ relationsOf h overrides cs bodies) :
    (storeOf h overrides cs bodies).tuples name = (relationOf name n ts).sorted.tuples := by
  rw [Store.tuples, relation?_storeOf hmem]
  rfl

/-- Freezing does not change which tuples `storeOf` has. -/
private theorem mem_tuples_storeOf {h : Hierarchy} {overrides : List Tuple} {cs : List LoadedClass}
    {bodies : List Body} {name : String} {n : Nat} {ts : List Tuple}
    (hmem : relationOf name n ts ∈ relationsOf h overrides cs bodies) {t : Tuple} :
    t ∈ (storeOf h overrides cs bodies).tuples name ↔ t ∈ (relationOf name n ts).tuples := by
  rw [tuples_storeOf hmem]
  exact Relation.mem_tuples_sorted

/-- `storeOf` `Records` in each relation what was added to it, as far as keys can tell. -/
theorem records_storeOf {h : Hierarchy} {overrides : List Tuple} {cs : List LoadedClass}
    {bodies : List Body} {name : String} {n : Nat} {ts : List Tuple}
    (hmem : relationOf name n ts ∈ relationsOf h overrides cs bodies) :
    Records ((storeOf h overrides cs bodies).tuples name) ts :=
  (Relation.records_foldl_insert name n ts).of_mem_iff fun _ => mem_tuples_storeOf hmem

/-- A fact is missing in `storeOf` if another with its key came before, from one of the first classes. -/
theorem notMem_tuples_storeOf {h : Hierarchy} {overrides : List Tuple} {first rest : List LoadedClass}
    {bodies : List Body} {name : String} {n : Nat} {g : LoadedClass → List Tuple}
    (hmem : relationOf name n ((first ++ rest).flatMap g) ∈
      relationsOf h overrides (first ++ rest) bodies) {t : Tuple}
    (hkey : ∃ u ∈ first.flatMap g, u.key = t.key) (ht : t ∉ first.flatMap g) :
    t ∉ (storeOf h overrides (first ++ rest) bodies).tuples name := by
  rw [mem_tuples_storeOf hmem, List.flatMap_append]
  exact Relation.notMem_tuples_of_earlier name n hkey ht

section
variable (dispatch : Dispatch) (cs : List LoadedClass) (failures : List LoadFailure)
  (warnings : List Diagnostic)

/-- The declarations that `buildLoaded` stores do not depend on what calls lead to. -/
theorem tuples_declarations :
    (buildLoaded dispatch cs failures warnings).store.tuples relDeclarations =
      (relationOf relDeclarations 2 (cs.flatMap declarationFacts)).sorted.tuples :=
  tuples_storeOf (by simp [relationsOf])

/-- The facts about overriding that `buildLoaded` stores do not depend on what calls lead to. -/
theorem tuples_overrides :
    (buildLoaded dispatch cs failures warnings).store.tuples relOverrides =
      (relationOf relOverrides 2 (cs.flatMap (overrideFacts (hierarchyOf cs)))).sorted.tuples :=
  tuples_storeOf (by simp [relationsOf, hierarchyOf])

/-- The relation of calls is that of the `invocationFacts` of the bodies. -/
theorem mem_relationsOf_invocation :
    relationOf relInvocation 3
      ((buildLoaded dispatch cs failures warnings).bodies.flatMap invocationFacts) ∈
        relationsOf (hierarchyOf cs) (cs.flatMap (overrideFacts (hierarchyOf cs))) cs
          (buildLoaded dispatch cs failures warnings).bodies := by
  simp [relationsOf]

/-- The calls that `buildLoaded` stores are the `invocationFacts` of its bodies. -/
theorem tuples_invocation :
    (buildLoaded dispatch cs failures warnings).store.tuples relInvocation =
      (relationOf relInvocation 3
        ((buildLoaded dispatch cs failures warnings).bodies.flatMap invocationFacts)).sorted.tuples :=
  tuples_storeOf (mem_relationsOf_invocation dispatch cs failures warnings)

/-- The relation of calls is there even if there are no calls. -/
theorem relation?_invocation :
    (buildLoaded dispatch cs failures warnings).store.relation? relInvocation =
      some ((buildLoaded dispatch cs failures warnings).store.tuples relInvocation) := by
  rw [tuples_invocation]
  exact relation?_storeOf (mem_relationsOf_invocation dispatch cs failures warnings)

/-- `buildLoaded` `Records` the `declarationFacts` of all classes. -/
theorem records_declarations :
    Records ((buildLoaded dispatch cs failures warnings).store.tuples relDeclarations)
      (cs.flatMap declarationFacts) :=
  records_storeOf (n := 2) (by simp [relationsOf])

/-- `buildLoaded` `Records` the `containmentFacts` of all classes. -/
theorem records_containment :
    Records ((buildLoaded dispatch cs failures warnings).store.tuples relContainment)
      (cs.flatMap containmentFacts) :=
  records_storeOf (n := 2) (by simp [relationsOf])

/-- `buildLoaded` `Records` the `overrideFacts` of all classes. -/
theorem records_overrides :
    Records ((buildLoaded dispatch cs failures warnings).store.tuples relOverrides)
      (cs.flatMap (overrideFacts (hierarchyOf cs))) :=
  records_storeOf (n := 2) (by simp [relationsOf, hierarchyOf])

/-- `buildLoaded` `Records` the `invocationFacts` of all bodies. -/
theorem records_invocations :
    Records ((buildLoaded dispatch cs failures warnings).store.tuples relInvocation)
      ((buildLoaded dispatch cs failures warnings).bodies.flatMap invocationFacts) :=
  records_storeOf (mem_relationsOf_invocation dispatch cs failures warnings)

end
end CallAtlas.Program
