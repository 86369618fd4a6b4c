import CallAtlas.Diagnostic
import CallAtlas.Proofs.Parallel.Cache

/-!
# Tasks that share a cache

A task works on its own but for a cache of method types and a list of warnings that it shares with
others. It is a tree of the operations on these, so that tasks can take turns between operations.

What a task comes to may depend on what the cache answers. If it does not as long as the answers are right
(`Task.Yields`), running the task among others keeps to that (`Task.yields_perform`).
-/

namespace CallAtlas.Parallel

variable {α β : Type} {cache : Cache}

/-- Work that has a result after some operations on what is shared. -/
inductive Task (α : Type) where
  | done (result : α)
  /-- Asks the cache for the type of a descriptor. -/
  | lookup (descriptor : String) (next : Option MethodType → Task α)
  /-- Adds a type to the cache. -/
  | remember (descriptor : String) (type : MethodType) (next : Task α)
  | warn (warning : Diagnostic) (next : Task α)

/-- What tasks share. -/
structure Shared (cache : Cache) where
  types : cache.State
  /-- The warnings so far, the first in front. -/
  diagnostics : List Diagnostic

/-- All types that were added are those of their descriptors. -/
def Shared.Sound (size : Nat) (s : Shared cache) : Prop :=
  ∃ added, cache.Reached size added s.types ∧ ∀ item ∈ added, Descriptor.parse item.1 = .ok item.2

namespace Task

def bind : Task α → (α → Task β) → Task β
  | done a, f => f a
  | lookup d next, f => lookup d fun answer => (next answer).bind f
  | remember d t next, f => remember d t (next.bind f)
  | warn w next, f => warn w (next.bind f)

instance : Monad Task where
  pure := done
  bind := bind

/-- Gives a warning, if there is one. -/
def warn? : Option Diagnostic → Task Unit
  | none => done ()
  | some w => warn w (done ())

/-- Does one operation. -/
def perform (s : Shared cache) : Task α → Task α × Shared cache
  | done a => (done a, s)
  | lookup d next =>
    let (answer, types) := cache.get s.types d
    (next answer, { s with types })
  | remember d t next => (next, { s with types := cache.add s.types d t })
  | warn w next => (next, { s with diagnostics := s.diagnostics ++ [w] })

/-- Does all operations. -/
def run (s : Shared cache) : Task α → α × Shared cache
  | done a => (a, s)
  | lookup d next =>
    let (answer, types) := cache.get s.types d
    (next answer).run { s with types }
  | remember d t next => next.run { s with types := cache.add s.types d t }
  | warn w next => next.run { s with diagnostics := s.diagnostics ++ [w] }

/-- The result if the cache has no answers. -/
def result : Task α → α
  | done a => a
  | lookup _ next => (next none).result
  | remember _ _ next => next.result
  | warn _ next => next.result

/-- The warnings to come if the cache has no answers. -/
def warnings : Task α → List Diagnostic
  | done _ => []
  | lookup _ next => (next none).warnings
  | remember _ _ next => next.warnings
  | warn w next => w :: next.warnings

/-- Answers make no difference if they are right, and only right ones are added. -/
def Steady : Task α → Prop
  | done _ => True
  | lookup d next => (next none).Steady ∧ ∀ t, Descriptor.parse d = .ok t →
      (next (some t)).Steady ∧ (next (some t)).result = (next none).result ∧
        (next (some t)).warnings = (next none).warnings
  | remember d t next => Descriptor.parse d = .ok t ∧ next.Steady
  | warn _ next => next.Steady

/-- Whatever right answers there are, the task comes to a result and gives some warnings. -/
structure Yields (t : Task α) (a : α) (ws : List Diagnostic) : Prop where
  steady : t.Steady
  result_eq : t.result = a
  warnings_eq : t.warnings = ws

/-! ### Composing tasks -/

/-- `done` is neutral behind a task. -/
private theorem bind_done (t : Task α) : t.bind done = t := by
  induction t with
  | done a => rfl
  | lookup d next ih => exact congrArg (lookup d) (funext ih)
  | remember d t next ih => exact congrArg (remember d t) ih
  | warn w next ih => exact congrArg (warn w) ih

/-- `bind` is associative. -/
theorem bind_assoc {γ : Type} (t : Task α) (f : α → Task β) (g : β → Task γ) :
    (t.bind f).bind g = t.bind fun a => (f a).bind g := by
  induction t with
  | done a => rfl
  | lookup d next ih => exact congrArg (lookup d) (funext ih)
  | remember d t next ih => exact congrArg (remember d t) ih
  | warn w next ih => exact congrArg (warn w) ih

instance : LawfulMonad Task :=
  LawfulMonad.mk' Task bind_done (fun _ _ => rfl) bind_assoc

/-- The `result` of tasks one after the other is that of the second one, started from that of the first. -/
theorem result_bind (t : Task α) (f : α → Task β) : (t.bind f).result = (f t.result).result := by
  induction t with
  | done a => rfl
  | lookup d next ih => exact ih none
  | remember d t next ih => exact ih
  | warn w next ih => exact ih

/-- The `warnings` of tasks one after the other are those of both. -/
theorem warnings_bind (t : Task α) (f : α → Task β) :
    (t.bind f).warnings = t.warnings ++ (f t.result).warnings := by
  induction t with
  | done a => rfl
  | lookup d next ih => exact ih none
  | remember d t next ih => exact ih
  | warn w next ih => exact congrArg (w :: ·) ih

/-- `bind` keeps tasks `Steady`: right answers change neither the first task nor what the second starts from. -/
private theorem steady_bind {t : Task α} {f : α → Task β} (ht : t.Steady) (hf : (f t.result).Steady) :
    (t.bind f).Steady := by
  induction t with
  | done a => exact hf
  | lookup d next ih =>
    refine ⟨ih none ht.1 hf, fun t hparse => ?_⟩
    obtain ⟨hsteady, hresult, hwarnings⟩ := ht.2 t hparse
    -- a right answer leaves the result of the first part, and with it the whole second part, as without one
    refine ⟨ih (some t) hsteady ?_, ?_, ?_⟩
    · rw [hresult]
      exact hf
    · rw [result_bind, result_bind, hresult]
    · rw [warnings_bind, warnings_bind, hresult, hwarnings]
  | remember d t next ih => exact ⟨ht.1, ih ht.2 hf⟩
  | warn w next ih => exact ih ht hf

/-- A task that is `done` yields its result without warnings. -/
theorem yields_done (a : α) : (done a).Yields a [] :=
  ⟨trivial, rfl, rfl⟩

/-- Tasks one after the other yield the result of the second and the warnings of both. -/
theorem Yields.bind {t : Task α} {f : α → Task β} {a : α} {b : β} {ws vs : List Diagnostic}
    (ht : t.Yields a ws) (hf : (f a).Yields b vs) : (t.bind f).Yields b (ws ++ vs) := by
  obtain ⟨hsteady, rfl, rfl⟩ := ht
  exact ⟨steady_bind hsteady hf.steady, (result_bind t f).trans hf.result_eq,
    (warnings_bind t f).trans (congrArg _ hf.warnings_eq)⟩

/-- `warn?` yields the warning that it is given, if there is one. -/
theorem yields_warn? (w : Option Diagnostic) : (warn? w).Yields () w.toList := by
  cases w with
  | none => exact ⟨trivial, rfl, rfl⟩
  | some w => exact ⟨trivial, rfl, rfl⟩

/-! ### Running tasks -/

/-- The step lemma: one operation of a `Steady` task keeps its `result`, and the `warnings` that it gives move
    to those given. What is shared stays `Sound`. -/
theorem yields_perform {t : Task α} (ht : t.Steady) {size : Nat} {s : Shared cache}
    (hs : s.Sound size) :
    (t.perform s).1.Steady ∧ (t.perform s).2.Sound size ∧ (t.perform s).1.result = t.result ∧
      ∃ ws, (t.perform s).2.diagnostics = s.diagnostics ++ ws ∧
        t.warnings = ws ++ (t.perform s).1.warnings := by
  obtain ⟨added, hreached, hadded⟩ := hs
  -- only a lookup depends on what is shared, and only what is remembered has to be right
  cases t with
  | done a => exact ⟨ht, ⟨added, hreached, hadded⟩, rfl, [], (List.append_nil _).symm, rfl⟩
  | lookup d next =>
    have hsound : (perform s (lookup d next)).2.Sound size := ⟨added, hreached.get d, hadded⟩
    cases hanswer : (cache.get s.types d).1 with
    | none =>
      have hperform : (perform s (lookup d next)).1 = next none := congrArg next hanswer
      rw [hperform]
      exact ⟨ht.1, hsound, rfl, [], (List.append_nil _).symm, rfl⟩
    | some t =>
      have hperform : (perform s (lookup d next)).1 = next (some t) := congrArg next hanswer
      -- what a cache answers was added before, and what was added is right
      have hparse := hadded (d, t) (cache.mem_of_get hreached hanswer)
      obtain ⟨hsteady, hresult, hwarnings⟩ := ht.2 t hparse
      rw [hperform]
      exact ⟨hsteady, hsound, hresult, [], (List.append_nil _).symm, hwarnings.symm⟩
  | remember d t next =>
    refine ⟨ht.2, ⟨(d, t) :: added, hreached.add d t, ?_⟩, rfl, [], (List.append_nil _).symm, rfl⟩
    intro item hitem
    rcases List.mem_cons.1 hitem with rfl | hitem
    · exact ht.1
    · exact hadded item hitem
  | warn w next => exact ⟨ht, ⟨added, hreached, hadded⟩, rfl, [w], rfl, rfl⟩

/-- `run` starts with the operation that `perform` does. -/
theorem run_perform (t : Task α) (s : Shared cache) :
    (t.perform s).1.run (t.perform s).2 = t.run s := by
  cases t with
  | done a => rfl
  | lookup d next => rfl
  | remember d t next => rfl
  | warn w next => rfl

/-- Induction over the operations of a task: what holds of `done` tasks, and of a task if it holds after any
    `perform` of it, holds of all tasks. -/
@[elab_as_elim]
theorem perform_induction (cache : Cache) {motive : Task α → Prop} (t : Task α)
    (done : ∀ a, motive (done a))
    (step : ∀ t, (∀ s : Shared cache, motive (t.perform s).1) → motive t) : motive t := by
  induction t with
  | done a => exact done a
  | lookup d next ih => exact step _ fun s => ih _
  | remember d t next ih => exact step _ fun s => ih
  | warn w next ih => exact step _ fun s => ih

/-- `run` gives the result and the warnings that a task `Yields`, whatever is kept in a sound cache: the run
    lemma, from `yields_perform` operation by operation. -/
theorem Yields.run {t : Task α} {a : α} {ws : List Diagnostic} (ht : t.Yields a ws) {size : Nat}
    {s : Shared cache} (hs : s.Sound size) :
    (t.run s).1 = a ∧ (t.run s).2.diagnostics = s.diagnostics ++ ws := by
  obtain ⟨hsteady, rfl, rfl⟩ := ht
  induction t using perform_induction cache generalizing s with
  | done a => exact ⟨rfl, (List.append_nil _).symm⟩
  | step t ih =>
    -- one operation: the warnings given and those to come are the same in all
    obtain ⟨hsteady', hs', hresult, ws, hgiven, hwarnings⟩ := yields_perform hsteady hs
    obtain ⟨hrun, hdiagnostics⟩ := ih s hs' hsteady'
    rw [run_perform] at hrun hdiagnostics
    refine ⟨hrun.trans hresult, hdiagnostics.trans ?_⟩
    rw [hgiven, hwarnings, List.append_assoc]

end Task
end CallAtlas.Parallel
