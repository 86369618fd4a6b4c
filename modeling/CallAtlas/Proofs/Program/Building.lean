import CallAtlas.Program.Build
import CallAtlas.Proofs.Result
import CallAtlas.Proofs.Facts.Key
import CallAtlas.Proofs.Bytecode.Tiling

/-!
# What a build works on

The classes behind a successful build, and what loading has made sure of them: every method has the
location of a method, and the calls of its code stand at ascending positions.
-/

namespace CallAtlas.Program

open Bytecode

/-! ### Results of loading -/

/-- The failure of a result. -/
def failure? : Except LoadFailure LoadedClass → Option LoadFailure
  | .error f => some f
  | .ok _ => none

/-- `partitionResults` takes failures and classes apart, each in their order. -/
theorem partitionResults_eq (rs : List (Except LoadFailure LoadedClass)) :
    partitionResults rs = (rs.filterMap failure?, rs.filterMap Except.toOption) := by
  induction rs with
  | nil => rfl
  | cons r rs ih =>
    cases r with
    | error f => simp only [partitionResults, ih]; rfl
    | ok c => simp only [partitionResults, ih]; rfl

/-- The classes of entries, in the order of the entries' paths. -/
def loadedClasses (limits : Limits) (entries : List ClassEntry) : List LoadedClass :=
  ((sortEntries entries).map (load limits)).filterMap Except.toOption

/-- The failures of entries, in the order of the entries' paths. -/
def loadFailures (limits : Limits) (entries : List ClassEntry) : List LoadFailure :=
  ((sortEntries entries).map (load limits)).filterMap failure?

/-- The warnings of a build: class files of newer versions, then classes whose name was taken. -/
def buildWarnings (limits : Limits) (entries : List ClassEntry) : List Diagnostic :=
  (sortEntries entries).filterMap (versionWarning? limits) ++
    (firstOfName [] (loadedClasses limits entries)).2

/-- `build` fails for the first entry that cannot be loaded if it is strict, and never otherwise. -/
theorem build_eq (options : BuildOptions) (entries : List ClassEntry) :
    build options entries =
      match options.mode, loadFailures options.limits entries with
      | .strict, f :: _ => .error f
      | _, failures => .ok (buildLoaded options.dispatch
          (firstOfName [] (loadedClasses options.limits entries)).1 failures
          (buildWarnings options.limits entries)) := by
  simp only [build, partitionResults_eq]
  rw [← loadFailures, ← loadedClasses]
  cases options.mode with
  | bestEffort => rfl
  | strict =>
    cases loadFailures options.limits entries with
    | nil => rfl
    | cons f fs => rfl

/-- The classes that `firstOfName` keeps are among the loaded ones, in the same order. -/
private theorem firstOfName_sublist (seen : List (String × Text.RawText)) (cs : List LoadedClass) :
    (firstOfName seen cs).1.Sublist cs := by
  induction cs generalizing seen with
  | nil => exact List.Sublist.slnil
  | cons c cs ih =>
    simp only [firstOfName]
    split
    · exact (ih seen).cons c
    · exact (ih _).cons_cons c

/-- The classes that a build works on: those that can be loaded, the first of each name. -/
def keptClasses (limits : Limits) (entries : List ClassEntry) : List LoadedClass :=
  (firstOfName [] (loadedClasses limits entries)).1

/-- `keptClasses` were loaded from entries. -/
theorem exists_load_of_mem_keptClasses {limits : Limits} {entries : List ClassEntry} {c : LoadedClass}
    (hc : c ∈ keptClasses limits entries) : ∃ e ∈ entries, load limits e = .ok c := by
  obtain ⟨r, hr, hrc⟩ := List.mem_filterMap.1 ((firstOfName_sublist _ _).mem hc)
  obtain ⟨e, he, rfl⟩ := List.mem_map.1 hr
  exact ⟨e, List.mem_mergeSort.1 he, Result.toOption_eq_some.1 hrc⟩

/-- A successful `build` is `buildLoaded` of the `keptClasses`. -/
theorem eq_buildLoaded {options : BuildOptions} {entries : List ClassEntry} {built : Built}
    (h : build options entries = .ok built) :
    built = buildLoaded options.dispatch (keptClasses options.limits entries)
      (loadFailures options.limits entries) (buildWarnings options.limits entries) := by
  rw [build_eq] at h
  split at h
  · cases h
  · exact (Except.ok.inj h).symm

/-- A successful `build` is `buildLoaded` of classes that were loaded from the entries. -/
theorem exists_buildLoaded {options : BuildOptions} {entries : List ClassEntry} {built : Built}
    (h : build options entries = .ok built) :
    ∃ classes failures warnings, built = buildLoaded options.dispatch classes failures warnings ∧
      ∀ c ∈ classes, ∃ e ∈ entries, load options.limits e = .ok c :=
  ⟨_, _, _, eq_buildLoaded h, fun _ hc => exists_load_of_mem_keptClasses hc⟩

/-- A single class of a known version is all that a `build` works on. -/
theorem build_singleton {options : BuildOptions} {e : ClassEntry} {c : LoadedClass}
    (h : load options.limits e = .ok c) (hmajor : c.classFile.major ≤ maxMajor) :
    build options [e] = .ok (buildLoaded options.dispatch [c] [] []) := by
  -- the version is known, so that there is no warning
  have hversion : versionWarning? options.limits e = none := by
    unfold load at h
    obtain ⟨file, hfile, h⟩ := Result.bind_eq_ok.1 (Result.mapError_eq_ok.1 h)
    obtain ⟨methods, -, h⟩ := Result.bind_eq_ok.1 h
    obtain rfl := Result.pure_eq_ok.1 h
    rw [versionWarning?, hfile]
    exact if_neg (Nat.not_lt.2 hmajor)
  simp only [build, sortEntries, List.mergeSort_singleton, List.map_cons, List.map_nil, h,
    partitionResults, List.filterMap_cons, List.filterMap_nil, hversion, firstOfName,
    List.lookup_nil, List.append_nil]
  cases options.mode <;> rfl

/-! ### What loading makes sure of -/

/-- `loadCode` gives what the bytes decode to, with the calls named in order. -/
theorem loadCode_eq_ok {c : ClassFile} {limit : Nat} {m : ClassFile.Method} {code : ClassFile.Code}
    {loaded : LoadedCode} (h : loadCode c limit m code = .ok loaded) :
    decode code.bytes limit = .ok loaded.instructions ∧
      loaded.sites.map NamedSite.site =
        callSites (ClassFile.lineAt code.lines) loaded.instructions := by
  unfold loadCode at h
  obtain ⟨is, his, h⟩ := Result.bind_eq_ok.1 h
  obtain ⟨sites, hsites, h⟩ := Result.bind_eq_ok.1 h
  obtain rfl := Result.pure_eq_ok.1 h
  refine ⟨Result.mapError_eq_ok.1 his, Result.map_eq_of_mapM ?_ hsites⟩
  -- naming a call adds to it, but keeps the call
  intro site named hnamed
  obtain ⟨ref, -, hnamed⟩ := Result.bind_eq_ok.1 (Result.mapError_eq_ok.1 hnamed)
  obtain ⟨type, -, hnamed⟩ := Result.bind_eq_ok.1 hnamed
  rw [← Result.pure_eq_ok.1 hnamed]

/-- The parameters of a call are those that the descriptor of its target lists. -/
def NamedSite.IsTyped (s : NamedSite) : Prop :=
  ∃ type, Descriptor.parse s.ref.descriptor = .ok type ∧ s.params = type.params

/-- `loadCode` gives calls that are `IsTyped`. -/
theorem isTyped_of_loadCode {c : ClassFile} {limit : Nat} {m : ClassFile.Method}
    {code : ClassFile.Code} {loaded : LoadedCode} (h : loadCode c limit m code = .ok loaded) :
    ∀ s ∈ loaded.sites, s.IsTyped := by
  unfold loadCode at h
  obtain ⟨is, -, h⟩ := Result.bind_eq_ok.1 h
  obtain ⟨sites, hsites, h⟩ := Result.bind_eq_ok.1 h
  obtain rfl := Result.pure_eq_ok.1 h
  intro s hs
  obtain ⟨site, -, hnamed⟩ := Result.exists_of_mem_mapM hsites s hs
  obtain ⟨ref, -, hnamed⟩ := Result.bind_eq_ok.1 (Result.mapError_eq_ok.1 hnamed)
  -- the parameters are those of the descriptor
  obtain ⟨type, htype, hnamed⟩ := Result.bind_eq_ok.1 hnamed
  obtain rfl := Result.pure_eq_ok.1 hnamed
  exact ⟨type, Result.mapError_eq_ok.1 htype, rfl⟩

/-- `loadMethod` keeps the method, and gives it its location and its code. -/
theorem loadMethod_eq_ok {c : ClassFile} {limit : Nat} {m : ClassFile.Method} {loaded : LoadedMethod}
    (h : loadMethod c limit m = .ok loaded) :
    loaded.method = m ∧
      (∃ type, Descriptor.parse m.descriptor = .ok type ∧
        loaded.declaration = .ofMethod c.name m.name type.params) ∧
      ∀ code, loaded.code = some code →
        ∃ source, m.code = some source ∧ loadCode c limit m source = .ok code := by
  unfold loadMethod at h
  obtain ⟨type, htype, h⟩ := Result.bind_eq_ok.1 h
  have htype := Result.mapError_eq_ok.1 htype
  -- a method without code has none afterwards
  cases hcode : m.code with
  | none =>
    rw [hcode] at h
    obtain rfl := Result.pure_eq_ok.1 h
    exact ⟨rfl, ⟨type, htype, rfl⟩, fun _ hc => nomatch hc⟩
  | some source =>
    rw [hcode] at h
    obtain ⟨code, hloaded, h⟩ := Result.bind_eq_ok.1 h
    obtain rfl := Result.pure_eq_ok.1 h
    refine ⟨rfl, ⟨type, htype, rfl⟩, fun code' hc => ⟨source, rfl, ?_⟩⟩
    rw [hloaded, Option.some.inj hc]

/-- `load` parses the entry and loads each method of its class. -/
theorem load_eq_ok {limits : Limits} {e : ClassEntry} {c : LoadedClass}
    (h : load limits e = .ok c) :
    c.path = e.path ∧ parseEntry limits e = .ok c.classFile ∧
      loadMethods c.classFile limits.maxInstructions = .ok c.methods := by
  unfold load at h
  obtain ⟨file, hfile, h⟩ := Result.bind_eq_ok.1 (Result.mapError_eq_ok.1 h)
  obtain ⟨methods, hmethods, h⟩ := Result.bind_eq_ok.1 h
  obtain rfl := Result.pure_eq_ok.1 h
  exact ⟨rfl, hfile, hmethods⟩

/-- A method that `load` gives has the location of a method, and the calls of its code stand at ascending
    positions from zero on. -/
theorem method_of_load {limits : Limits} {e : ClassEntry} {c : LoadedClass}
    (h : load limits e = .ok c) {m : LoadedMethod} (hm : m ∈ c.methods) :
    m.declaration.IsMethod ∧ ∀ code, m.code = some code →
      (code.sites.map (·.site.offset)).Pairwise (· < ·) ∧ ∀ s ∈ code.sites, 0 ≤ s.site.offset := by
  obtain ⟨method, -, hmethod⟩ := Result.exists_of_mem_mapM (load_eq_ok h).2.2 m hm
  obtain ⟨-, ⟨type, -, hdeclaration⟩, hcode⟩ := loadMethod_eq_ok hmethod
  refine ⟨hdeclaration ▸ Location.isMethod_ofMethod .., ?_⟩
  intro code hc
  obtain ⟨source, -, hsource⟩ := hcode code hc
  obtain ⟨hdecode, hsites⟩ := loadCode_eq_ok hsource
  -- calls stand in the order of the instructions, which ascend
  obtain ⟨hascending, hnonneg⟩ :=
    offset_callSites_pairwise (ClassFile.lineAt source.lines) hdecode
  constructor
  · rw [← hsites, List.map_map] at hascending
    exact hascending
  · intro s hs
    exact hnonneg s.site (hsites ▸ List.mem_map_of_mem hs)

end CallAtlas.Program
