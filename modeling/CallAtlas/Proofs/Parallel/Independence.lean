import CallAtlas.ClassFile.Assembler
import CallAtlas.Proofs.Orders
import CallAtlas.Proofs.Parallel.Pool
import CallAtlas.Proofs.Program.Building

/-!
# Builds do not depend on scheduling

However many workers load the classes, in whatever order they take turns and finish, whatever a cache of
method types keeps and in whatever order the entries are given: a build comes to what loading the entries
one after the other comes to.
-/

namespace CallAtlas.Parallel

open Program

variable {cache : Cache}

/-- What a build may use. Zero or less stands for the usual amount. -/
structure Resources where
  workers : Int
  /-- How many types the cache keeps. -/
  cacheSize : Int
  /-- How many workers are usual on the machine. -/
  processors : Nat

namespace Resources

/-- The number of workers for some entries. -/
def workerCount (r : Resources) (entries : Nat) : Nat :=
  max (min (if 0 < r.workers then r.workers.toNat else r.processors) entries) 1

/-- The number of types that the cache keeps. -/
def cacheCapacity (r : Resources) : Nat :=
  if 0 < r.cacheSize then r.cacheSize.toNat else 4096

/-- There is at least one worker. -/
private theorem workerCount_pos (r : Resources) (entries : Nat) : 0 < r.workerCount entries :=
  Nat.le_max_right _ 1

end Resources

/-- Builds the facts from the results of loading, which still goes through the cache. -/
def Pool.conclude (options : BuildOptions) (p : Pool cache)
    (results : List (Except LoadFailure LoadedClass)) : Except LoadFailure Built :=
  let (failures, loaded) := partitionResults results
  match options.mode, failures with
  | .strict, f :: _ => .error f
  | _, _ =>
    let (classes, duplicates) := firstOfName [] loaded
    let h : Hierarchy := .ofClasses (classes.map LoadedClass.classFile)
    let shared := { p.shared with diagnostics := p.shared.diagnostics ++ duplicates }
    let (overrides, shared) := (classes.mapM (overrideTask h)).run shared
    .ok (buildWith h overrides.flatten options.dispatch classes failures shared.diagnostics)

/-- What a build comes to when the loading of the entries takes turns as a schedule says, if it is long enough
    for all of them to finish. -/
def scheduledBuild (cache : Cache) (resources : Resources) (options : BuildOptions)
    (entries : List ClassEntry) (schedule : List Nat) : Option (Except LoadFailure Built) :=
  let p := (Pool.start cache resources.cacheCapacity (sortEntries entries)).run options.limits
    (resources.workerCount entries.length) schedule
  p.results?.map (p.conclude options)

/-! ### Entries with paths of their own -/

/-- `sortEntries` does not depend on the order of entries that all have paths of their own. -/
private theorem sortEntries_eq_of_perm {entries shuffled : List ClassEntry} (hperm : shuffled.Perm entries)
    (hpaths : (entries.map ClassEntry.path).Nodup) : sortEntries shuffled = sortEntries entries := by
  have hle := Text.RawText.totalPreorder_le.comap ClassEntry.path
  have hdistinct : entries.Pairwise fun a b =>
      tied (fun c d : ClassEntry => c.path.le d.path) a b = false :=
    (List.pairwise_map.1 hpaths).imp Text.RawText.tied_eq_false
  exact (hle.mergeSort_eq_of_tied (hle.filter_tied_eq_of_perm hdistinct hperm.symm)).symm

/-- `versionWarning?` is about the path of its entry. -/
private theorem path_of_versionWarning? {limits : Limits} {e : ClassEntry} {w : Diagnostic}
    (h : versionWarning? limits e = some w) : w.path = e.path := by
  obtain ⟨c, -, hc⟩ := Option.bind_eq_some_iff.1 h
  unfold newerVersion? at hc
  split at hc
  · rw [← Option.some.inj hc]
  · exact nomatch hc

/-- `Diagnostic.sort` does not depend on the order in which the warnings about versions are given, whatever
    follows them. -/
private theorem sort_append_eq_of_perm {limits : Limits} {entries : List ClassEntry}
    (hpaths : (entries.map ClassEntry.path).Nodup) {given : List Diagnostic}
    (hgiven : given.Perm (entries.filterMap (versionWarning? limits))) (more : List Diagnostic) :
    Diagnostic.sort (given ++ more) =
      Diagnostic.sort (entries.filterMap (versionWarning? limits) ++ more) := by
  have hle := Diagnostic.totalPreorder_le
  -- warnings about different files are not tied
  have hdistinct : (entries.filterMap (versionWarning? limits)).Pairwise fun a b =>
      tied Diagnostic.le a b = false := by
    refine (List.pairwise_map.1 hpaths).filterMap _ fun e f hne v hv w hw => ?_
    refine Diagnostic.tied_eq_false ?_
    rw [path_of_versionWarning? hv, path_of_versionWarning? hw]
    exact hne
  refine hle.mergeSort_eq_of_tied fun a => ?_
  rw [List.filter_append, List.filter_append,
    hle.filter_tied_eq_of_perm hdistinct hgiven.symm a]

/-! ### Builds -/

/-- `buildWith` on the facts that `overrideTask` finds through the cache is `buildLoaded`, which finds them
    without. -/
private theorem buildWith_overrideTask {size : Nat} {shared : Shared cache} (hshared : shared.Sound size)
    (dispatch : Dispatch) (classes : List LoadedClass) {h : Hierarchy}
    (hh : h = .ofClasses (classes.map LoadedClass.classFile)) (failures : List LoadFailure)
    {warnings : List Diagnostic}
    (hsort : Diagnostic.sort shared.diagnostics = Diagnostic.sort warnings) :
    buildWith h ((classes.mapM (overrideTask h)).run shared).1.flatten dispatch classes failures
        ((classes.mapM (overrideTask h)).run shared).2.diagnostics =
      buildLoaded dispatch classes failures warnings := by
  obtain ⟨hoverrides, hgiven⟩ := (yields_mapM (yields_overrideTask h) classes).run hshared
  rw [hoverrides, hgiven, List.append_nil, ← List.flatMap_def, hh, buildLoaded]
  simp only [buildWith, hsort]

/-- `Pool.conclude` on all results comes to what `build` gives for the entries one after the other. -/
private theorem conclude_eq_build {size : Nat} {options : BuildOptions} {entries : List ClassEntry}
    {p : Pool cache} (hshared : p.shared.Sound size)
    (hwarnings : ∀ more, Diagnostic.sort (p.shared.diagnostics ++ more) =
      Diagnostic.sort ((sortEntries entries).filterMap (versionWarning? options.limits) ++ more)) :
    p.conclude options ((sortEntries entries).map (load options.limits)) = build options entries := by
  have hshared' : Shared.Sound size (⟨p.shared.types, p.shared.diagnostics ++
      (firstOfName [] (loadedClasses options.limits entries)).2⟩ : Shared cache) := hshared
  have hbuilt := fun failures => buildWith_overrideTask hshared' options.dispatch
    (firstOfName [] (loadedClasses options.limits entries)).1 rfl failures (hwarnings _)
  rw [build_eq]
  simp only [Pool.conclude, partitionResults_eq]
  rw [← loadFailures, ← loadedClasses]
  -- only a strict build breaks off at a failure, and both take the first one in the order of paths
  cases options.mode with
  | bestEffort => exact congrArg Except.ok (hbuilt _)
  | strict =>
    cases loadFailures options.limits entries with
    | nil => exact congrArg Except.ok (hbuilt _)
    | cons f fs => rfl

/-- `scheduledBuild` comes to `build` whatever the order of the entries, the workers and their turns, and the
    cache and what it keeps, as soon as all entries are finished, and it can always go on until they are. -/
theorem scheduledBuild_eq_build (cache : Cache) (resources : Resources) (options : BuildOptions)
    {entries shuffled : List ClassEntry} (hperm : shuffled.Perm entries)
    (hpaths : (entries.map ClassEntry.path).Nodup) :
    (∀ schedule r, scheduledBuild cache resources options shuffled schedule = some r →
      r = build options entries) ∧
    ∀ schedule, ∃ more, scheduledBuild cache resources options shuffled (schedule ++ more) =
      some (build options entries) := by
  have hsorted := sortEntries_eq_of_perm hperm hpaths
  have hpaths' : ((sortEntries entries).map ClassEntry.path).Nodup :=
    ((List.mergeSort_perm entries _).map ClassEntry.path).nodup_iff.2 hpaths
  have hsound := fun schedule => (Pool.sound_start cache resources.cacheCapacity options.limits
    (sortEntries entries)).run (resources.workerCount shuffled.length) schedule
  -- once all entries are finished, the schedule does not matter any more
  have hfinished : ∀ schedule,
      (∀ s ∈ ((Pool.start cache resources.cacheCapacity (sortEntries entries)).run options.limits
        (resources.workerCount shuffled.length) schedule).slots, s.result?.isSome) →
      scheduledBuild cache resources options shuffled schedule = some (build options entries) := by
    intro schedule hall
    obtain ⟨hresults, hgiven⟩ := (hsound schedule).finished hall
    simp only [scheduledBuild, hsorted, hresults, Option.map_some]
    exact congrArg some (conclude_eq_build (hsound schedule).shared
      (sort_append_eq_of_perm hpaths' hgiven))
  constructor
  · intro schedule r hr
    have hr' := hr
    simp only [scheduledBuild, hsorted] at hr'
    obtain ⟨results, hresults, -⟩ := Option.map_eq_some_iff.1 hr'
    rw [hfinished schedule (Pool.isSome_of_results? hresults)] at hr
    exact (Option.some.inj hr).symm
  · intro schedule
    -- whatever was done so far, the rest can be done one entry after the other
    obtain ⟨more, hmore⟩ := Pool.exists_finished (resources.workerCount_pos shuffled.length) []
      _ (hsound schedule) rfl (fun s hs => absurd hs List.not_mem_nil)
    refine ⟨more, hfinished _ ?_⟩
    rw [Pool.run_append]
    exact hmore

/-- A class without methods, in a version that is not known. -/
def newerEntry (path : Text.RawText) (name : String) : ClassEntry :=
  { path, content := .ok ((ClassFile.Assembler.assemble { name }).bytes.set 7 70) }

/-- `scheduledBuild_eq_build` for two workers that share a cache for one type and load two classes, each with a
    warning. -/
theorem scheduledBuild_two_newer :
    [newerEntry "b" "B", newerEntry "a" "A"].Perm [newerEntry "a" "A", newerEntry "b" "B"] ∧
      ([newerEntry "a" "A", newerEntry "b" "B"].map ClassEntry.path).Nodup ∧
      (∀ schedule r, scheduledBuild .leastRecent ⟨2, 1, 8⟩ {}
        [newerEntry "b" "B", newerEntry "a" "A"] schedule = some r →
        r = build {} [newerEntry "a" "A", newerEntry "b" "B"]) ∧
      ∃ schedule, scheduledBuild .leastRecent ⟨2, 1, 8⟩ {}
        [newerEntry "b" "B", newerEntry "a" "A"] schedule =
        some (build {} [newerEntry "a" "A", newerEntry "b" "B"]) := by
  have hperm : [newerEntry "b" "B", newerEntry "a" "A"].Perm
      [newerEntry "a" "A", newerEntry "b" "B"] := List.Perm.swap _ _ _
  have hpaths : ([newerEntry "a" "A", newerEntry "b" "B"].map ClassEntry.path).Nodup := by
    show [("a" : Text.RawText), "b"].Nodup
    decide +kernel
  obtain ⟨hall, hmore⟩ := scheduledBuild_eq_build .leastRecent ⟨2, 1, 8⟩ {} hperm hpaths
  exact ⟨hperm, hpaths, hall, hmore []⟩

end CallAtlas.Parallel
