import CallAtlas.Program.Build
import CallAtlas.Proofs.Parallel.Task

/-!
# Loading classes through a cache

The types of methods are looked up in a cache before they are read off the descriptors. Whatever the
cache answers, loading a class comes to the same, and it gives the warning about the version of the class
on the way (`yields_loadTask`). So does listing what a class overrides (`yields_overrideTask`).
-/

namespace CallAtlas.Parallel

open Program

variable {ε ε' α β : Type}

/-- A step that needs nothing of what is shared. -/
def step (x : Except ε α) : ExceptT ε Task α :=
  ExceptT.mk (.done x)

/-- The type of a descriptor, from the cache if it is there and else added to it. -/
def methodType (d : String) : ExceptT Descriptor.Problem Task MethodType :=
  ExceptT.mk <| .lookup d fun
    | some t => .done (.ok t)
    | none =>
      match Descriptor.parse d with
      | .error p => .done (.error p)
      | .ok t => .remember d t (.done (.ok t))

/-- Names the target of a call. -/
def nameSiteTask (c : ClassFile) (site : Bytecode.CallSite) : ExceptT SiteProblem Task NamedSite := do
  let ref ← step (symbolicRef c site)
  let type ← (methodType ref.descriptor).adapt (.descriptor ref.descriptor)
  return { site, ref, params := type.params }

/-- Decodes the code of a method. -/
def loadCodeTask (c : ClassFile) (limit : Nat) (m : ClassFile.Method) (code : ClassFile.Code) :
    ExceptT LoadProblem Task LoadedCode := do
  let label := m.name ++ m.descriptor
  let instructions ← step ((Bytecode.decode code.bytes limit).mapError (.code label))
  let sites ← (Bytecode.callSites (ClassFile.lineAt code.lines) instructions).mapM fun site =>
    (nameSiteTask c site).adapt (.site label site.offset)
  return { instructions, sites }

/-- Decodes a method. -/
def loadMethodTask (c : ClassFile) (limit : Nat) (m : ClassFile.Method) :
    ExceptT LoadProblem Task LoadedMethod := do
  let type ← (methodType m.descriptor).adapt (.descriptor m.name m.descriptor)
  let declaration := Location.ofMethod c.name m.name type.params
  match m.code with
  | none => return { method := m, declaration, code := none }
  | some code => return { method := m, declaration, code := some (← loadCodeTask c limit m code) }

/-- Loads the class of an entry, with a warning if its version is newer. -/
def loadTask (limits : Limits) (e : ClassEntry) : Task (Except LoadFailure LoadedClass) :=
  ExceptT.run <| ExceptT.adapt (LoadFailure.mk e.path) do
    let c ← step (parseEntry limits e)
    ExceptT.lift (Task.warn? (newerVersion? e.path c))
    let methods ← c.methods.mapM (loadMethodTask c limits.maxInstructions)
    return { path := e.path, classFile := c, methods }

/-- The method of a supertype that a method overrides. -/
def overriddenTask (m : LoadedMethod) (s : ClassFile) : Task (Option Location) :=
  match s.method? m.method.name m.method.descriptor with
  | none => pure none
  | some sm =>
    if isOverridable sm then do
      let type ← (methodType sm.descriptor).run
      return type.toOption.map fun type => .ofMethod s.name sm.name type.params
    else pure none

/-- What a method overrides. -/
def overrideTaskOf (supers : List ClassFile) (m : LoadedMethod) : Task (List Tuple) :=
  if isOverridable m.method then do
    let targets ← supers.mapM (overriddenTask m)
    return (targets.filterMap id).map fun target => [m.declaration, target]
  else pure []

/-- What the methods of a class override. -/
def overrideTask (h : Hierarchy) (c : LoadedClass) : Task (List Tuple) := do
  return (← c.methods.mapM (overrideTaskOf (h.supertypes c.classFile))).flatten

/-! ### Tasks without warnings -/

/-- Whatever right answers there are, the task comes to a result or a failure without a warning. -/
def Computes (x : ExceptT ε Task α) (v : Except ε α) : Prop :=
  x.run.Yields v []

/-- `pure` computes its value. -/
theorem computes_pure (a : α) : Computes (pure a : ExceptT ε Task α) (.ok a) :=
  Task.yields_done _

/-- `step` computes what it is given. -/
private theorem computes_step (x : Except ε α) : Computes (step x) x :=
  Task.yields_done x

/-- Tasks one after the other compute what their values compute one after the other. -/
theorem Computes.bind {x : ExceptT ε Task α} {v : Except ε α} {f : α → ExceptT ε Task β}
    {g : α → Except ε β} (hx : Computes x v) (hf : ∀ a, Computes (f a) (g a)) :
    Computes (x >>= f) (v >>= g) := by
  refine Task.Yields.bind hx ?_
  -- a failure of the first part ends both
  cases v with
  | error e => exact Task.yields_done _
  | ok a => exact hf a

/-- `adapt` changes failures and keeps warnings. -/
private theorem yields_adapt {x : ExceptT ε Task α} {v : Except ε α} {ws : List Diagnostic} (f : ε → ε')
    (hx : x.run.Yields v ws) : (x.adapt f).run.Yields (v.mapError f) ws := by
  rw [← List.append_nil ws]
  exact hx.bind (Task.yields_done _)

/-- `adapt` changes the failure that is computed by `mapError`. -/
theorem Computes.adapt {x : ExceptT ε Task α} {v : Except ε α} (f : ε → ε') (hx : Computes x v) :
    Computes (x.adapt f) (v.mapError f) :=
  yields_adapt f hx

/-- The warnings of a task in front of one that computes without any are all that there are. -/
private theorem yields_lift_bind {t : Task α} {a : α} {ws : List Diagnostic} {f : α → ExceptT ε Task β}
    {v : Except ε β} (ht : t.Yields a ws) (hf : Computes (f a) v) :
    (ExceptT.lift t >>= f).run.Yields v ws := by
  rw [ExceptT.run_bind_lift, ← List.append_nil ws]
  exact ht.bind hf

/-- `mapM` of tasks computes the `mapM` of what they compute. -/
theorem Computes.mapM {f : α → ExceptT ε Task β} {g : α → Except ε β}
    (hf : ∀ a, Computes (f a) (g a)) (xs : List α) : Computes (xs.mapM f) (xs.mapM g) := by
  induction xs with
  | nil => exact computes_pure []
  | cons x xs ih =>
    rw [List.mapM_cons, List.mapM_cons]
    refine (hf x).bind fun y => ?_
    refine ih.bind fun ys => ?_
    exact computes_pure (y :: ys)

/-- `methodType` computes `Descriptor.parse`, whether the cache has the type or it is read off the
    descriptor. -/
theorem computes_methodType (d : String) : Computes (methodType d) (Descriptor.parse d) := by
  cases hparse : Descriptor.parse d with
  | error p =>
    -- a wrong descriptor has no right answer, so the cache has none
    constructor
    · refine ⟨?_, fun t ht => nomatch hparse.symm.trans ht⟩
      simp only [hparse]
      trivial
    · simp only [methodType, ExceptT.run, ExceptT.mk, Task.result, hparse]
    · simp only [methodType, ExceptT.run, ExceptT.mk, Task.warnings, hparse]
  | ok t =>
    -- the only right answer is the type itself, and it is the one that is added
    constructor
    · refine ⟨?_, fun t' ht => ?_⟩
      · simp only [hparse]
        exact ⟨hparse, trivial⟩
      · obtain rfl := Except.ok.inj (hparse.symm.trans ht)
        simp only [hparse]
        exact ⟨trivial, rfl, rfl⟩
    · simp only [methodType, ExceptT.run, ExceptT.mk, Task.result, hparse]
    · simp only [methodType, ExceptT.run, ExceptT.mk, Task.warnings, hparse]

/-! ### Loading -/

/-- `nameSiteTask` computes `nameSite`. -/
private theorem computes_nameSiteTask (c : ClassFile) (site : Bytecode.CallSite) :
    Computes (nameSiteTask c site) (nameSite c site) := by
  refine (computes_step _).bind fun ref => ?_
  refine ((computes_methodType _).adapt _).bind fun type => ?_
  exact computes_pure _

/-- `loadCodeTask` computes `loadCode`. -/
private theorem computes_loadCodeTask (c : ClassFile) (limit : Nat) (m : ClassFile.Method)
    (code : ClassFile.Code) : Computes (loadCodeTask c limit m code) (loadCode c limit m code) := by
  refine (computes_step _).bind fun instructions => ?_
  refine (Computes.mapM (fun site => (computes_nameSiteTask c site).adapt _) _).bind fun sites => ?_
  exact computes_pure _

/-- `loadMethodTask` computes `loadMethod`. -/
private theorem computes_loadMethodTask (c : ClassFile) (limit : Nat) (m : ClassFile.Method) :
    Computes (loadMethodTask c limit m) (loadMethod c limit m) := by
  refine ((computes_methodType _).adapt _).bind fun type => ?_
  cases m.code with
  | none => exact computes_pure _
  | some code => exact (computes_loadCodeTask c limit m code).bind fun loaded => computes_pure _

/-- `loadTask` yields what `load` gives for the entry, class or failure, with the warning about its version. -/
theorem yields_loadTask (limits : Limits) (e : ClassEntry) :
    (loadTask limits e).Yields (load limits e) (versionWarning? limits e).toList := by
  -- a file that cannot be parsed has no version to warn about
  unfold loadTask load versionWarning?
  cases parseEntry limits e with
  | error p => exact ⟨trivial, rfl, rfl⟩
  | ok c =>
    refine yields_adapt (LoadFailure.mk e.path) (yields_lift_bind (Task.yields_warn? _) ?_)
    refine (Computes.mapM (computes_loadMethodTask c _) c.methods).bind fun methods => ?_
    exact computes_pure _

/-! ### Overriding -/

/-- `mapM` of tasks without warnings yields the results in order. -/
theorem yields_mapM {f : α → Task β} {g : α → β} (hf : ∀ a, (f a).Yields (g a) []) (xs : List α) :
    (xs.mapM f).Yields (xs.map g) [] := by
  induction xs with
  | nil => exact Task.yields_done []
  | cons x xs ih =>
    rw [List.mapM_cons]
    exact (hf x).bind (ih.bind (Task.yields_done _))

/-- `overriddenTask` yields `overridden?`. -/
private theorem yields_overriddenTask (m : LoadedMethod) (s : ClassFile) :
    (overriddenTask m s).Yields (overridden? m s) [] := by
  unfold overriddenTask overridden?
  -- only where the superclass has the method and it can be overridden, a descriptor is parsed
  cases s.method? m.method.name m.method.descriptor with
  | none => exact Task.yields_done _
  | some sm =>
    show Task.Yields (if isOverridable sm then _ else _) (if isOverridable sm then _ else _) []
    split
    · refine Task.Yields.bind (computes_methodType sm.descriptor) ?_
      cases Descriptor.parse sm.descriptor with
      | error p => exact Task.yields_done _
      | ok type => exact Task.yields_done _
    · exact Task.yields_done _

/-- `overrideTaskOf` yields `overrideFactsOf`. -/
private theorem yields_overrideTaskOf (supers : List ClassFile) (m : LoadedMethod) :
    (overrideTaskOf supers m).Yields (overrideFactsOf supers m) [] := by
  unfold overrideTaskOf overrideFactsOf
  split
  · have htargets := yields_mapM (yields_overriddenTask m) supers
    have hfilter : supers.filterMap (overridden? m) =
        (supers.map (overridden? m)).filterMap id := by
      rw [List.filterMap_map]
      rfl
    rw [hfilter]
    exact htargets.bind (Task.yields_done _)
  · exact Task.yields_done _

/-- `overrideTask` yields the `overrideFacts` of the class. -/
theorem yields_overrideTask (h : Hierarchy) (c : LoadedClass) :
    (overrideTask h c).Yields (overrideFacts h c) [] := by
  unfold overrideTask overrideFacts
  rw [List.flatMap_def]
  exact (yields_mapM (yields_overrideTaskOf _) c.methods).bind (Task.yields_done _)

end CallAtlas.Parallel
