import CallAtlas.Proofs.Orders
import CallAtlas.Proofs.Program.Building

/-!
# Unusable and repeated classes leave no trace

A build that skips what it cannot use gives the same facts and bodies as a build of the entries that
count: those that can be loaded and are the first, by path and then by place, to bear their name
(`survivors`). Which entries count is said here without sorting anything.
-/

namespace CallAtlas.Program

/-- The name of the class in an entry, if it can be loaded. -/
def loadedName? (limits : Limits) (e : ClassEntry) : Option String :=
  (load limits e).toOption.map fun c => c.classFile.name

/-- Of two entries with their places in a list, the first comes before the second: its path does, or the paths
    are equal and its place does. -/
def comesBefore (p q : ClassEntry × Nat) : Bool :=
  decide (p.1.path < q.1.path) || (decide (p.1.path = q.1.path) && decide (p.2 < q.2))

/-- The entry can be loaded, and nothing of its name comes before it. -/
def survives (limits : Limits) (all : List (ClassEntry × Nat)) (p : ClassEntry × Nat) : Bool :=
  (loadedName? limits p.1).isSome &&
    all.all fun q => !(comesBefore q p && loadedName? limits q.1 == loadedName? limits p.1)

/-- The entries of a list that count, in its order. -/
def survivors (limits : Limits) (entries : List ClassEntry) : List ClassEntry :=
  (entries.zipIdx.filter (survives limits entries.zipIdx)).map Prod.fst

/-! ### Entries in the order of their paths -/

/-- Entries with their places, compared as the entries are. -/
def placedLe (p q : ClassEntry × Nat) : Bool :=
  p.1.path.le q.1.path

/-- `placedLe` is a total preorder. -/
private theorem totalPreorder_placedLe : TotalPreorder placedLe :=
  Text.RawText.totalPreorder_le.comap fun p : ClassEntry × Nat => p.1.path

/-- `sortEntries` is sorting entries with their places and forgetting these. -/
private theorem sortEntries_map_fst (ps : List (ClassEntry × Nat)) :
    sortEntries (ps.map Prod.fst) = (ps.mergeSort placedLe).map Prod.fst := by
  symm
  apply List.map_mergeSort
  intro p _ q _
  rfl

/-- No entry `comesBefore` itself. -/
private theorem comesBefore_irrefl (p : ClassEntry × Nat) : comesBefore p p = false := by
  simp [comesBefore, Text.RawText.lt_irrefl]

/-- Of two entries at most one `comesBefore` the other. -/
private theorem comesBefore_asymm {p q : ClassEntry × Nat} (h : comesBefore p q) : comesBefore q p = false := by
  simp only [comesBefore, Bool.or_eq_true, Bool.and_eq_true, decide_eq_true_eq, Bool.or_eq_false_iff,
    Bool.and_eq_false_iff, decide_eq_false_iff_not] at h ⊢
  rcases h with hlt | ⟨heq, hlt⟩
  · refine ⟨Text.RawText.not_lt_of_lt hlt, .inl fun heq => ?_⟩
    exact Text.RawText.lt_irrefl _ (heq ▸ hlt)
  · exact ⟨heq ▸ Text.RawText.lt_irrefl _, .inr (by omega)⟩

/-- The sorted entries of a list stand in the order `comesBefore`: that of their paths, and of their places
    among equal paths. -/
private theorem pairwise_comesBefore (entries : List ClassEntry) :
    (entries.zipIdx.mergeSort placedLe).Pairwise fun p q => comesBefore p q := by
  have hplaces : entries.zipIdx.Pairwise fun p q => p.2 < q.2 := by
    apply List.pairwise_map.1
    rw [List.zipIdx_map_snd]
    exact List.pairwise_lt_range'
  -- the sort keeps entries of one path in their order
  refine (totalPreorder_placedLe.pairwise_mergeSort_of_pairwise hplaces).imp ?_
  rintro p q ⟨hle, htied⟩
  simp only [comesBefore, Bool.or_eq_true, Bool.and_eq_true, decide_eq_true_eq]
  by_cases heq : p.1.path = q.1.path
  · refine .inr ⟨heq, htied ?_⟩
    rw [placedLe, heq]
    exact Text.RawText.totalPreorder_le.refl _
  · exact .inl (Text.RawText.lt_of_le_of_ne hle heq)

/-! ### The first class of each name -/

/-- Of classes in an order, those that `firstOfName` keeps are of a new name, and none of that name comes before
    them. -/
private theorem firstOfName_map_snd {α : Type} {before : α → α → Bool} (hirrefl : ∀ a, before a a = false)
    (hasymm : ∀ {a b}, before a b → before b a = false) (seen : List (String × Text.RawText))
    {cs : List (α × LoadedClass)} (hcs : cs.Pairwise fun c d => before c.1 d.1) :
    (firstOfName seen (cs.map Prod.snd)).1 =
      (cs.filter fun c => (seen.lookup c.2.classFile.name).isNone &&
        cs.all fun d => !(before d.1 c.1 && d.2.classFile.name == c.2.classFile.name)).map Prod.snd := by
  -- along the classes, with the names seen so far
  induction cs generalizing seen with
  | nil => rfl
  | cons c cs ih =>
    obtain ⟨hc, hcs⟩ := List.pairwise_cons.1 hcs
    rw [List.map_cons, firstOfName]
    cases hseen : seen.lookup c.2.classFile.name with
    | some path =>
      -- the name is taken, so the class is left out, and it keeps no other one out that is not out already
      rw [List.filter_cons_of_neg (by simp [hseen])]
      refine (ih seen hcs).trans (congrArg (List.map Prod.snd) (List.filter_congr ?_))
      intro d hd
      rw [List.all_cons]
      by_cases hname : c.2.classFile.name = d.2.classFile.name
      · rw [← hname, hseen]
        rfl
      · rw [beq_false_of_ne hname, Bool.and_false, Bool.not_false, Bool.true_and]
    | none =>
      have hfirst : ((c :: cs).all fun d =>
          !(before d.1 c.1 && d.2.classFile.name == c.2.classFile.name)) = true := by
        rw [List.all_eq_true]
        intro d hd
        rcases List.mem_cons.1 hd with rfl | hd
        · rw [hirrefl]
          rfl
        · rw [hasymm (hc d hd)]
          rfl
      rw [List.filter_cons_of_pos (by rw [hseen, hfirst]; rfl), List.map_cons]
      refine congrArg (c.2 :: ·) ((ih _ hcs).trans (congrArg (List.map Prod.snd)
        (List.filter_congr ?_)))
      intro d hd
      -- behind `c`, being of a new name and not being of the name of `c` are the same
      rw [List.all_cons, hc d hd, List.lookup_cons, Bool.true_and]
      by_cases hname : c.2.classFile.name = d.2.classFile.name
      · simp [hname]
      · rw [beq_false_of_ne hname, beq_false_of_ne (Ne.symm hname), Bool.not_false, Bool.true_and]

/-- `firstOfName` keeps all classes of different names, without a warning. -/
theorem firstOfName_eq_self (seen : List (String × Text.RawText)) {cs : List LoadedClass}
    (hnew : ∀ c ∈ cs, seen.lookup c.classFile.name = none)
    (hnames : cs.Pairwise fun c d => c.classFile.name ≠ d.classFile.name) :
    firstOfName seen cs = (cs, []) := by
  induction cs generalizing seen with
  | nil => rfl
  | cons c cs ih =>
    obtain ⟨hc, hcs⟩ := List.pairwise_cons.1 hnames
    -- the name of the first class is seen now, but no other has it
    have hnew' : ∀ d ∈ cs, ((c.classFile.name, c.path) :: seen).lookup d.classFile.name = none := by
      intro d hd
      rw [List.lookup_cons, beq_false_of_ne (Ne.symm (hc d hd))]
      exact hnew d (List.mem_cons_of_mem c hd)
    rw [firstOfName, hnew c List.mem_cons_self]
    simp only [ih _ hnew' hcs]

/-- The classes that `firstOfName` keeps have different names, none of them seen before. -/
theorem firstOfName_names (seen : List (String × Text.RawText)) (cs : List LoadedClass) :
    (∀ c ∈ (firstOfName seen cs).1, seen.lookup c.classFile.name = none) ∧
      (firstOfName seen cs).1.Pairwise fun c d => c.classFile.name ≠ d.classFile.name := by
  induction cs generalizing seen with
  | nil => exact ⟨fun c hc => absurd hc List.not_mem_nil, List.Pairwise.nil⟩
  | cons c cs ih =>
    simp only [firstOfName]
    split
    · exact ih seen
    · next hseen =>
      -- a class of a new name is kept, and its name is seen from then on
      obtain ⟨hnew, hnames⟩ := ih ((c.classFile.name, c.path) :: seen)
      have hother : ∀ d ∈ (firstOfName ((c.classFile.name, c.path) :: seen) cs).1,
          c.classFile.name ≠ d.classFile.name ∧ seen.lookup d.classFile.name = none := by
        intro d hd
        have h := hnew d hd
        rw [List.lookup_cons] at h
        -- a class behind that has this name is not kept
        by_cases hname : d.classFile.name = c.classFile.name
        · rw [hname, beq_self_eq_true] at h
          contradiction
        · rw [beq_false_of_ne hname] at h
          exact ⟨Ne.symm hname, h⟩
      constructor
      · intro d hd
        rcases List.mem_cons.1 hd with rfl | hd
        · exact hseen
        · exact (hother d hd).2
      · exact List.pairwise_cons.2 ⟨fun d hd => (hother d hd).1, hnames⟩

/-! ### Builds with and without the other entries -/

/-- The path of an entry that cannot be loaded, and why it cannot. -/
def skipped? (limits : Limits) (e : ClassEntry) : Option (Text.RawText × Failure) :=
  (failure? (load limits e)).map fun f => (e.path, f.failure)

/-- A failure of `load` names the path of its entry. -/
private theorem path_of_load_eq_error {limits : Limits} {e : ClassEntry} {f : LoadFailure}
    (h : load limits e = .error f) : f.path = e.path := by
  unfold load at h
  obtain ⟨problem, -, rfl⟩ := Result.mapError_eq_error.1 h
  rfl

/-- All `survivors` can be loaded. -/
private theorem mem_survivors {limits : Limits} {entries : List ClassEntry} {e : ClassEntry}
    (he : e ∈ survivors limits entries) : ∃ c, load limits e = .ok c := by
  obtain ⟨p, hp, rfl⟩ := List.mem_map.1 he
  have hsome := (Bool.and_eq_true_iff.1 (List.mem_filter.1 hp).2).1
  cases hl : load limits p.1 with
  | error f => simp [loadedName?, hl, Except.toOption] at hsome
  | ok c => exact ⟨c, rfl⟩

/-- The class of an entry, together with the entry. -/
def placedClass? (limits : Limits) (p : ClassEntry × Nat) :
    Option ((ClassEntry × Nat) × LoadedClass) :=
  (load limits p.1).toOption.map fun c => (p, c)

/-- The classes of entries, each together with its entry. -/
def placedClasses (limits : Limits) (entries : List ClassEntry) :
    List ((ClassEntry × Nat) × LoadedClass) :=
  (entries.zipIdx.mergeSort placedLe).filterMap (placedClass? limits)

/-- `placedClasses` holds the classes of the entries that can be loaded. -/
private theorem mem_placedClasses {limits : Limits} {entries : List ClassEntry} {p : ClassEntry × Nat}
    {c : LoadedClass} :
    (p, c) ∈ placedClasses limits entries ↔ p ∈ entries.zipIdx ∧ load limits p.1 = .ok c := by
  rw [placedClasses, List.mem_filterMap]
  constructor
  · rintro ⟨q, hq, hqc⟩
    obtain ⟨d, hd, heq⟩ := Option.map_eq_some_iff.1 hqc
    obtain ⟨rfl, rfl⟩ := Prod.mk.inj heq
    exact ⟨List.mem_mergeSort.1 hq, Result.toOption_eq_some.1 hd⟩
  · rintro ⟨hp, hc⟩
    exact ⟨p, List.mem_mergeSort.2 hp, by rw [placedClass?, hc]; rfl⟩

/-- `placedClass?` without its place is what `load` gives. -/
private theorem map_snd_placedClass? (limits : Limits) (p : ClassEntry × Nat) :
    (placedClass? limits p).map Prod.snd = (load limits p.1).toOption := by
  rw [placedClass?, Option.map_map]
  exact Option.map_id'

/-- `loadedClasses` are `placedClasses` without their places. -/
private theorem loadedClasses_eq_map_snd (limits : Limits) (entries : List ClassEntry) :
    loadedClasses limits entries = (placedClasses limits entries).map Prod.snd := by
  have hentries : sortEntries entries = (entries.zipIdx.mergeSort placedLe).map Prod.fst := by
    rw [← sortEntries_map_fst, List.zipIdx_map_fst]
  rw [loadedClasses, hentries, List.map_map, List.filterMap_map, placedClasses, List.map_filterMap]
  congr 1
  funext p
  exact (map_snd_placedClass? limits p).symm

/-- `placedClasses` stand in the order `comesBefore` of their entries. -/
private theorem pairwise_placedClasses (limits : Limits) (entries : List ClassEntry) :
    (placedClasses limits entries).Pairwise fun c d => comesBefore c.1 d.1 := by
  refine (pairwise_comesBefore entries).filterMap _ fun p q hpq c hc d hd => ?_
  obtain ⟨_, -, rfl⟩ := Option.map_eq_some_iff.1 hc
  obtain ⟨_, -, rfl⟩ := Option.map_eq_some_iff.1 hd
  exact hpq

/-- An entry that can be loaded `survives` just if no class of its name comes before its own. -/
private theorem survives_eq {limits : Limits} {entries : List ClassEntry} {p : ClassEntry × Nat}
    {c : LoadedClass} (hc : load limits p.1 = .ok c) :
    survives limits entries.zipIdx p = (placedClasses limits entries).all fun d =>
      !(comesBefore d.1 p && d.2.classFile.name == c.classFile.name) := by
  have hname : loadedName? limits p.1 = some c.classFile.name := by rw [loadedName?, hc]; rfl
  rw [survives, hname, Option.isSome_some, Bool.true_and, Bool.eq_iff_iff, List.all_eq_true,
    List.all_eq_true]
  constructor
  · rintro h ⟨q, d⟩ hqd
    obtain ⟨hq, hd⟩ := mem_placedClasses.1 hqd
    have hqname : loadedName? limits q.1 = some d.classFile.name := by rw [loadedName?, hd]; rfl
    have := h q hq
    rw [hqname] at this
    exact this
  · -- entries that cannot be loaded have no name
    intro h q hq
    cases hd : load limits q.1 with
    | error f =>
      have hqname : loadedName? limits q.1 = none := by rw [loadedName?, hd]; rfl
      simp [hqname]
    | ok d =>
      have hqname : loadedName? limits q.1 = some d.classFile.name := by rw [loadedName?, hd]; rfl
      rw [hqname]
      exact h (q, d) (mem_placedClasses.2 ⟨hq, hd⟩)

/-- The classes of the `survivors` are the classes that a build keeps. -/
private theorem loadedClasses_survivors (limits : Limits) (entries : List ClassEntry) :
    loadedClasses limits (survivors limits entries) =
      (firstOfName [] (loadedClasses limits entries)).1 := by
  have hsurvivors : sortEntries (survivors limits entries) =
      ((entries.zipIdx.mergeSort placedLe).filter (survives limits entries.zipIdx)).map Prod.fst := by
    rw [survivors, sortEntries_map_fst, totalPreorder_placedLe.filter_mergeSort]
  rw [loadedClasses_eq_map_snd limits entries, firstOfName_map_snd comesBefore_irrefl
    comesBefore_asymm [] (pairwise_placedClasses limits entries), loadedClasses, hsurvivors,
    List.map_map, List.filterMap_map, List.filterMap_filter]
  -- both sides now go through the sorted entries once, so it is enough to look at one entry
  conv => rhs; arg 2; arg 2; rw [placedClasses]
  rw [List.filter_filterMap, List.map_filterMap]
  congr 1
  funext p
  cases hc : load limits p.1 with
  | error f => simp [placedClass?, hc, Except.toOption]
  | ok c =>
    -- it is kept exactly if no class of its name comes before
    have hplaced : placedClass? limits p = some (p, c) := by rw [placedClass?, hc]; rfl
    rw [hplaced, survives_eq hc, Option.filter_some]
    simp only [List.lookup_nil, Option.isNone_none, Bool.true_and, Function.comp_apply, hc]
    split
    · rfl
    · rfl

/-- None of the `survivors` fails to load. -/
private theorem loadFailures_survivors (limits : Limits) (entries : List ClassEntry) :
    loadFailures limits (survivors limits entries) = [] := by
  rw [loadFailures, List.filterMap_eq_nil_iff]
  intro r hr
  obtain ⟨e, he, rfl⟩ := List.mem_map.1 hr
  obtain ⟨c, hc⟩ := mem_survivors (List.mem_mergeSort.1 he)
  rw [hc]
  rfl

/-- `loadFailures` are those of the entries that are `skipped?`, in the order of their paths. -/
private theorem skipped_loadFailures (limits : Limits) (entries : List ClassEntry) :
    (loadFailures limits entries).map (fun f => (f.path, f.failure)) =
      (sortEntries entries).filterMap (skipped? limits) := by
  rw [loadFailures, List.filterMap_map, List.map_filterMap]
  congr 1
  funext e
  simp only [Function.comp_apply, skipped?]
  cases hl : load limits e with
  | error f => simp [failure?, path_of_load_eq_error hl]
  | ok c => rfl

/-- A `build` that skips what it cannot use gives the facts, the bodies and the counters of a build of the
    `survivors`. It skips the entries that cannot be loaded, in the order of their paths, and says where each of
    them is defective. A strict build fails for the first of them, and if there is none gives the same. -/
theorem build_isolates (options : BuildOptions) (entries : List ClassEntry) :
    ∃ built alone,
      build { options with mode := .bestEffort } entries = .ok built ∧
      build { options with mode := .bestEffort } (survivors options.limits entries) = .ok alone ∧
      (built.store.isFrozen ∧ alone.store = built.store ∧ alone.bodies = built.bodies ∧
        alone.report =
          { built.report with skipped := [], warnings := alone.report.warnings }) ∧
      built.report.skipped = (sortEntries entries).filterMap (skipped? options.limits) ∧
      (∀ s ∈ built.report.skipped, ∃ offset, s.2.origin = some (s.1, offset)) ∧
      (built.report.skipped = [] → build { options with mode := .strict } entries = .ok built) ∧
      ∀ s rest, built.report.skipped = s :: rest →
        ∃ f, build { options with mode := .strict } entries = .error f ∧ (f.path, f.failure) = s := by
  have hbuild := fun mode => build_eq { options with mode } entries
  have halone := build_eq { options with mode := .bestEffort } (survivors options.limits entries)
  have hkept := firstOfName_names [] (loadedClasses options.limits entries)
  -- survivors load as they did, without failures and without repeated names
  rw [loadFailures_survivors, loadedClasses_survivors, firstOfName_eq_self [] hkept.1 hkept.2]
    at halone
  refine ⟨_, _, hbuild .bestEffort, halone, ⟨rfl, rfl, rfl, rfl⟩,
    skipped_loadFailures options.limits entries, ?_, ?_, ?_⟩
  · intro s hs
    obtain ⟨f, -, rfl⟩ := List.mem_map.1 hs
    exact ⟨_, rfl⟩
  · intro hnil
    rw [hbuild .strict, List.map_eq_nil_iff.1 hnil]
  · intro s rest hcons
    obtain ⟨f, fs, hfs, hf, -⟩ := List.map_eq_cons_iff.1 hcons
    exact ⟨f, by rw [hbuild .strict, hfs], hf⟩

end CallAtlas.Program
