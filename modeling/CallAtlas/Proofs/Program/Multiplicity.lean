import Mathlib.Algebra.GroupWithZero.Nat
import CallAtlas.ClassFile.Assembler
import CallAtlas.Proofs.Facts.Insertion
import CallAtlas.Proofs.Program.Building
import CallAtlas.Proofs.Program.Callees

/-!
# Calls and invocation facts

A build lists, for every body and every call in it, the methods that the call leads to. The facts hold
one tuple for each of these as long as no two bodies share a call, that is, lead to the same method at
the same position under the same location (`edges_eq_callCount_iff`). Within a body calls never get
in each other's way. Two methods of a class that differ in their result type only have one location,
and then a call may be lost (`call_of_overload_lost`).
-/

namespace CallAtlas.Program

open Facts

/-- How many methods the calls of some bodies lead to, each call counted by itself. -/
def callCount (bodies : List Body) : Nat :=
  (bodies.map fun b => (b.sites.map fun s => s.callees.length).sum).sum

namespace Body

/-- Both bodies stand under one location and lead to the same method at the same position. -/
def SharesCall (a b : Body) : Prop :=
  a.declaration = b.declaration ∧ ∃ s ∈ a.sites, ∃ t ∈ b.sites,
    s.site.offset = t.site.offset ∧ ∃ l ∈ s.callees, l ∈ t.callees

/-- No name in the locations of a body holds the character that closes a location in a key. -/
def IsPlain (b : Body) : Prop :=
  b.declaration.IsPlain ∧ ∀ s ∈ b.sites, ∀ l ∈ s.callees, l.IsPlain

/-- What holds of the body of every loaded method. -/
structure IsLoaded (b : Body) : Prop where
  declaration : b.declaration.IsMethod
  ascending : (b.sites.map (·.site.offset)).Pairwise (· < ·)
  nonneg : ∀ s ∈ b.sites, 0 ≤ s.site.offset
  callees : ∀ s ∈ b.sites, s.callees.Nodup ∧ ∀ l ∈ s.callees, l.IsMethod

end Body

/-- The bodies of `bodiesOf` a loaded class are such as loaded methods have (`IsLoaded`). -/
private theorem isLoaded_of_mem_bodiesOf {limits : Limits} {e : ClassEntry} {c : LoadedClass}
    (hload : load limits e = .ok c) (h : Hierarchy) (dispatch : Dispatch) {p : Body × List Bool}
    (hp : p ∈ bodiesOf h dispatch c) : p.1.IsLoaded := by
  obtain ⟨m, hm, hbody⟩ := List.mem_filterMap.1 hp
  obtain ⟨code, hcode, rfl⟩ := Option.map_eq_some_iff.1 hbody
  obtain ⟨hdeclaration, hcalls⟩ := method_of_load hload hm
  obtain ⟨hascending, hnonneg⟩ := hcalls code hcode
  -- the call behind each site of the body
  have hsite : ∀ s ∈ (code.sites.map fun s => (s, resolveSite h dispatch s)).map
      (fun r => (⟨r.1.site, r.2.1⟩ : ResolvedSite)),
      ∃ n ∈ code.sites, s = ⟨n.site, (resolveSite h dispatch n).1⟩ := by
    intro s hs
    rw [List.map_map] at hs
    obtain ⟨n, hn, rfl⟩ := List.mem_map.1 hs
    exact ⟨n, hn, rfl⟩
  constructor
  · exact hdeclaration
  · -- resolving keeps the calls in their order
    simp only [List.map_map]
    exact hascending
  · intro s hs
    obtain ⟨n, hn, rfl⟩ := hsite s hs
    exact hnonneg n hn
  · intro s hs
    obtain ⟨n, -, rfl⟩ := hsite s hs
    exact ⟨nodup_callees h dispatch n, fun l hl => isMethod_of_mem_callees hl⟩

/-- All bodies of a `build` are `IsLoaded`. -/
private theorem isLoaded_of_build {options : BuildOptions} {entries : List ClassEntry} {built : Built}
    (h : build options entries = .ok built) : ∀ b ∈ built.bodies, b.IsLoaded := by
  obtain ⟨classes, failures, warnings, rfl, hclasses⟩ := exists_buildLoaded h
  intro b hb
  obtain ⟨p, hp, rfl⟩ := List.mem_map.1 hb
  obtain ⟨c, hc, hpc⟩ := List.mem_flatMap.1 hp
  obtain ⟨e, -, hload⟩ := hclasses c hc
  exact isLoaded_of_mem_bodiesOf hload _ _ hpc

/-! ### Keys of calls -/

/-- The `invocationFacts` of one body have distinct keys: their positions differ, and at one position the
    methods that are called. -/
private theorem Body.IsLoaded.pairwise_key {b : Body} (hb : b.IsLoaded) :
    (invocationFacts b).Pairwise fun t u => t.key ≠ u.key := by
  refine List.pairwise_flatMap.2 ⟨?_, ?_⟩
  · -- the methods called at one position
    intro s hs
    obtain ⟨hnodup, hmethod⟩ := hb.callees s hs
    refine List.pairwise_map.2 (hnodup.imp_of_mem fun hl hl' hne heq => hne ?_)
    have htext := (Tuple.key_call_inj (hb.nonneg s hs) (hb.nonneg s hs) heq).1
    exact (hmethod _ hl).eq_of_text_eq (hmethod _ hl') htext
  · -- two positions
    refine (List.pairwise_map.1 hb.ascending).imp_of_mem fun {s s'} hs hs' hlt => ?_
    intro t ht u hu heq
    obtain ⟨l, -, rfl⟩ := List.mem_map.1 ht
    obtain ⟨l', -, rfl⟩ := List.mem_map.1 hu
    have := (Tuple.key_call_inj (hb.nonneg s hs) (hb.nonneg s' hs') heq).2
    omega

/-- A call that bodies share (`SharesCall`) has one key in both. -/
private theorem Body.SharesCall.exists_key_eq {a b : Body} (h : a.SharesCall b) :
    ∃ t ∈ invocationFacts a, ∃ u ∈ invocationFacts b, t.key = u.key := by
  obtain ⟨hdeclaration, s, hs, s', hs', hoffset, l, hl, hl'⟩ := h
  refine ⟨_, List.mem_flatMap.2 ⟨s, hs, List.mem_map_of_mem hl⟩,
    _, List.mem_flatMap.2 ⟨s', hs', List.mem_map_of_mem hl'⟩, ?_⟩
  -- the source line is no part of a location's text
  simp only [Tuple.key, List.map_cons, List.map_nil, Location.text, Location.ofSite, hdeclaration,
    hoffset]

/-- Where names are plain, bodies with calls of one key share a call (`SharesCall`). -/
private theorem Body.sharesCall_of_key_eq {a b : Body} (ha : a.IsLoaded) (hb : b.IsLoaded)
    (hplain : a.IsPlain) (hplain' : b.IsPlain) {t u : Tuple} (ht : t ∈ invocationFacts a)
    (hu : u ∈ invocationFacts b) (hkey : t.key = u.key) : a.SharesCall b := by
  obtain ⟨s, hs, ht⟩ := List.mem_flatMap.1 ht
  obtain ⟨l, hl, rfl⟩ := List.mem_map.1 ht
  obtain ⟨s', hs', hu⟩ := List.mem_flatMap.1 hu
  obtain ⟨l', hl', rfl⟩ := List.mem_map.1 hu
  have hmethod := (ha.callees s hs).2 l hl
  have hmethod' := (hb.callees s' hs').2 l' hl'
  -- the key is cut into the texts of its parts, none of which holds the closing character
  have htexts := Tuple.text_eq_of_key_eq
    (Tuple.notMem_text_call ha.declaration hmethod hplain.1 (hplain.2 s hs l hl) _ _)
    (Tuple.notMem_text_call hb.declaration hmethod' hplain'.1 (hplain'.2 s' hs' l' hl') _ _) hkey
  simp only [List.map_cons, List.map_nil, List.cons.injEq, and_true] at htexts
  have hdeclaration := ha.declaration.eq_of_text_eq hb.declaration htexts.1
  have hcallee := hmethod.eq_of_text_eq hmethod' htexts.2.1
  have hoffset := (Tuple.key_call_inj (hb.nonneg s' hs') (ha.nonneg s hs)
    (hdeclaration ▸ hkey.symm)).2
  exact ⟨hdeclaration, s, hs, s', hs', hoffset.symm, l, hl, hcallee ▸ hl'⟩

/-! ### Counting -/

/-- `callCount` is the number of all `invocationFacts`. -/
private theorem length_flatMap_invocationFacts (bodies : List Body) :
    (bodies.flatMap invocationFacts).length = callCount bodies := by
  simp only [callCount, List.length_flatMap, invocationFacts, List.length_map]

/-- The invocation relation of `storeOf` holds the calls of the bodies. -/
private theorem get?_storeOf_invocation (h : Hierarchy) (overrides : List Tuple) (cs : List LoadedClass)
    (bodies : List Body) :
    (storeOf h overrides cs bodies).get? relInvocation =
      some (relationOf relInvocation 3 (bodies.flatMap invocationFacts)).sorted := by
  have hname : ∀ (n : String) (arity : Nat) (ts : List Tuple),
      (relationOf n arity ts).sorted.name = n := fun n arity ts => Relation.name_foldl_insert _ ts
  simp only [storeOf, Store.freeze, Store.get?, Bool.false_eq_true, if_false, List.map_cons,
    List.map_nil, List.find?_cons, hname]
  rfl

/-- The edges that a report counts are the tuples of the invocation relation. -/
private theorem edges_buildLoaded (dispatch : Dispatch) (cs : List LoadedClass)
    (failures : List LoadFailure) (warnings : List Diagnostic) {built : Built}
    (hbuilt : built = buildLoaded dispatch cs failures warnings) :
    built.report.edges =
        (relationOf relInvocation 3 (built.bodies.flatMap invocationFacts)).rows.size ∧
      ((built.store.tuples relInvocation).length : Int) = built.report.edges := by
  subst hbuilt
  simp only [buildLoaded, buildWith, Store.size, Store.tuples, Store.relation?, get?_storeOf_invocation,
    Option.elim_some, Option.map_some, Option.getD_some, Relation.sorted, Relation.tuples,
    List.size_toArray, List.length_mergeSort, Array.length_toList]
  exact ⟨trivial, trivial⟩

/-- A `build` reports as many edges as its calls lead to methods (`callCount`) exactly when no call of one body
    has the key of a call of another. Where names are plain, that is when no two bodies share a call
    (`SharesCall`). -/
theorem edges_eq_callCount_iff {options : BuildOptions} {entries : List ClassEntry} {built : Built}
    (h : build options entries = .ok built) :
    ((built.store.tuples relInvocation).length : Int) = built.report.edges ∧
      (built.report.edges = callCount built.bodies ↔ built.bodies.Pairwise fun a b =>
        ∀ t ∈ invocationFacts a, ∀ u ∈ invocationFacts b, t.key ≠ u.key) ∧
      ((∀ b ∈ built.bodies, b.IsPlain) → (built.report.edges = callCount built.bodies ↔
        built.bodies.Pairwise fun a b => ¬ a.SharesCall b)) := by
  have hloaded := isLoaded_of_build h
  obtain ⟨classes, failures, warnings, hbuilt, -⟩ := exists_buildLoaded h
  obtain ⟨hedges, htuples⟩ := edges_buildLoaded _ _ _ _ hbuilt
  -- all calls count when their keys are distinct, which is left to check between bodies
  have hcount : built.report.edges = callCount built.bodies ↔ built.bodies.Pairwise fun a b =>
      ∀ t ∈ invocationFacts a, ∀ u ∈ invocationFacts b, t.key ≠ u.key := by
    have hsize := Relation.size_foldl_insert_eq_iff (.empty relInvocation 3)
      (built.bodies.flatMap invocationFacts)
    rw [List.pairwise_flatMap, length_flatMap_invocationFacts] at hsize
    rw [hedges, Int.natCast_inj, relationOf]
    simp only [Relation.empty, List.size_toArray, List.length_nil, Nat.zero_add,
      Std.HashSet.not_mem_empty, not_false_eq_true, implies_true, and_true] at hsize
    exact hsize.trans ⟨And.right, And.intro fun b hb => (hloaded b hb).pairwise_key⟩
  -- where names are plain, calls share a key exactly if they are the same
  refine ⟨htuples, hcount, fun hplain => hcount.trans ?_⟩
  constructor
  · refine fun hpair => hpair.imp fun hkeys hshares => ?_
    obtain ⟨t, ht, u, hu, hkey⟩ := hshares.exists_key_eq
    exact hkeys t ht u hu hkey
  · refine fun hpair => hpair.imp_of_mem fun ha hb hshares t ht u hu hkey => hshares ?_
    exact Body.sharesCall_of_key_eq (hloaded _ ha) (hloaded _ hb) (hplain _ ha) (hplain _ hb) ht hu
      hkey

/-! ### Overloads that differ in the result only -/

/-- A class with two methods `f` without parameters, one for each of two result types, that both start with a
    call of `B.g`. -/
def overloads : ClassEntry :=
  { path := "A.class"
    content := .ok (ClassFile.Assembler.assemble
      { name := "A"
        methods := [⟨.isStatic, "f", "()I", [.invokeStatic "B" "g" "()V"]⟩,
          ⟨.isStatic, "f", "()J", [.invokeStatic "B" "g" "()V"]⟩] }).bytes }

/-- The method of `overloads` with a descriptor. -/
def overload (descriptor : String) : LoadedMethod :=
  { method := ⟨0x0009, "f", descriptor, some ⟨8, 8, [0xb8, 0, 6], []⟩⟩
    declaration := .ofMethod "A" "f" []
    code := some
      { instructions := [⟨0, 0xb8, 3, "invokestatic", 6, [], [], false⟩]
        sites := [⟨⟨0, 0, .static, 6, 0⟩, ⟨10, "B", "g", "()V"⟩, []⟩] } }

/-- What `load` gives for `overloads`. -/
private theorem load_overloads : ∃ c, load ⟨0, Bytecode.defaultLimit⟩ overloads = .ok c ∧
    c.classFile.name = "A" ∧ c.classFile.major = 52 ∧
    c.methods = [overload "()I", overload "()J"] := by
  obtain ⟨c, hload, hcheck⟩ := Result.exists_ok_of_any
    (x := load ⟨0, Bytecode.defaultLimit⟩ overloads)
    (p := fun c => c.classFile.name = "A" ∧ c.classFile.major = 52 ∧
      c.methods = [overload "()I", overload "()J"]) (by decide +kernel)
  exact ⟨c, hload, of_decide_eq_true hcheck⟩

/-- Both methods of `overloads` have one body. -/
private theorem build_overloads : ∃ built, build {} [overloads] = .ok built ∧
    built.bodies = List.replicate 2
      { declaration := .ofMethod "A" "f" []
        instructions := [⟨0, 0xb8, 3, "invokestatic", 6, [], [], false⟩]
        sites := [⟨⟨0, 0, .static, 6, 0⟩, [.ofMethod "B" "g" []]⟩] } := by
  obtain ⟨c, hload, hname, hmajor, hmethods⟩ := load_overloads
  have hbuild : build {} [overloads] = .ok (buildLoaded .declared [c] [] []) :=
    build_singleton hload (by rw [hmajor]; decide)
  refine ⟨_, hbuild, ?_⟩
  -- the class of the called method is not at hand, so that the call is left as it stands
  have hget : (Hierarchy.ofClasses [c.classFile]).get? "B" = none := by
    rw [Hierarchy.get?, Hierarchy.byName_eq, getElem?_firstTable]
    simp [Hierarchy.ofClasses, hname]
  simp [buildLoaded, buildWith, bodiesOf, hmethods, overload, resolveSite,
    Hierarchy.resolve_eq_none hget, List.replicate]

/-- A `build` can have fewer invocation facts than calls, as `overloads` shows. -/
theorem call_of_overload_lost : ∃ built, build {} [overloads] = .ok built ∧
    built.report.edges = 1 ∧ callCount built.bodies = 2 := by
  obtain ⟨built, hbuild, hbodies⟩ := build_overloads
  obtain ⟨classes, failures, warnings, hbuilt, -⟩ := exists_buildLoaded hbuild
  refine ⟨built, hbuild, ?_, by rw [hbodies]; rfl⟩
  rw [(edges_buildLoaded _ _ _ _ hbuilt).1, hbodies]
  -- the second call has the key of the first
  simp only [List.replicate, List.flatMap_cons, List.flatMap_nil, invocationFacts, List.map_cons,
    List.map_nil, List.append_nil, relationOf, List.singleton_append, List.foldl_cons,
    List.foldl_nil]
  rw [Relation.insert_of_mem (Relation.mem_keys_insert.2 (.inl rfl)),
    Relation.size_insert_of_notMem (by simp [Relation.empty])]
  rfl

/-- `edges_eq_callCount_iff` on `overloads`, where both sides fail. -/
theorem edges_ne_callCount_overloads : ∃ built, build {} [overloads] = .ok built ∧
    built.report.edges ≠ callCount built.bodies ∧
    ¬ built.bodies.Pairwise fun a b => ∀ t ∈ invocationFacts a, ∀ u ∈ invocationFacts b,
      t.key ≠ u.key := by
  obtain ⟨built, hbuild, hbodies⟩ := build_overloads
  have hkeys : ¬ built.bodies.Pairwise fun a b => ∀ t ∈ invocationFacts a,
      ∀ u ∈ invocationFacts b, t.key ≠ u.key := by
    rw [hbodies]
    simp [List.replicate, invocationFacts]
  exact ⟨built, hbuild, fun h => hkeys ((edges_eq_callCount_iff hbuild).2.1.1 h), hkeys⟩

end CallAtlas.Program
