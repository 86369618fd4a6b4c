import Mathlib.Data.List.Basic
import CallAtlas.Proofs.Parallel.Loading

/-!
# Loading classes side by side

Workers load the entries of a list. Entries are started in the order of the list, only so many at a time,
and those that are running take turns as a schedule says: each entry of the schedule lets one of them do
one operation. Three things hold in every state (`Pool.Sound`): what is left to be done comes to what
loading one after the other comes to, the warnings given and to come are those of all entries, and no
entry is started before an earlier one. A state that is not final can always be brought to its end
(`Pool.exists_finished`).
-/

namespace CallAtlas.Parallel

open Program

variable {cache : Cache}

/-- How far the loading of an entry has got. -/
inductive Slot where
  | waiting (e : ClassEntry)
  | running (t : Task (Except LoadFailure LoadedClass))
  | finished (r : Except LoadFailure LoadedClass)

namespace Slot

def isWaiting : Slot → Bool
  | waiting _ => true
  | _ => false

def isRunning : Slot → Bool
  | running _ => true
  | _ => false

def result? : Slot → Option (Except LoadFailure LoadedClass)
  | finished r => some r
  | _ => none

/-- What is left to be done. -/
def task (limits : Limits) : Slot → Task (Except LoadFailure LoadedClass)
  | waiting e => loadTask limits e
  | running t => t
  | finished r => .done r

end Slot

/-- The entries that are loaded side by side, and what the workers share. -/
structure Pool (cache : Cache) where
  slots : List Slot
  shared : Shared cache

namespace Pool

/-- Nothing is started yet. -/
def start (cache : Cache) (size : Nat) (entries : List ClassEntry) : Pool cache :=
  { slots := entries.map .waiting, shared := ⟨cache.empty size, []⟩ }

/-- An entry can be started when all before it are and a worker is free. -/
def canStart (workers : Nat) (p : Pool cache) (i : Nat) : Bool :=
  (p.slots.take i).all (!·.isWaiting) && decide (p.slots.countP Slot.isRunning < workers)

/-- Lets the entry at a place go on by one operation, if it can. -/
def advance (limits : Limits) (workers : Nat) (p : Pool cache) (i : Nat) : Pool cache :=
  match p.slots[i]? with
  | some (.waiting e) =>
    if p.canStart workers i then { p with slots := p.slots.set i (.running (loadTask limits e)) }
    else p
  | some (.running (.done r)) => { p with slots := p.slots.set i (.finished r) }
  | some (.running t) =>
    let (t, shared) := t.perform p.shared
    { slots := p.slots.set i (.running t), shared }
  | some (.finished _) => p
  | none => p

/-- Lets entries go on in the order of a schedule. -/
def run (limits : Limits) (workers : Nat) (p : Pool cache) (schedule : List Nat) : Pool cache :=
  schedule.foldl (advance limits workers) p

/-- The results, once all entries are finished. -/
def results? (p : Pool cache) : Option (List (Except LoadFailure LoadedClass)) :=
  p.slots.mapM Slot.result?

/-! ### What a step can do -/

/-- The slot at a place, with those before and behind it. -/
private theorem slots_split {slots : List Slot} {i : Nat} {slot : Slot} (h : slots[i]? = some slot) :
    ∃ before behind, slots = before ++ slot :: behind ∧ before.length = i := by
  obtain ⟨hi, rfl⟩ := List.getElem?_eq_some_iff.1 h
  refine ⟨slots.take i, slots.drop (i + 1), ?_, List.length_take_of_le (Nat.le_of_lt hi)⟩
  rw [← List.drop_eq_getElem_cons hi, List.take_append_drop]

section
variable (limits : Limits) (workers : Nat) {p : Pool cache} {before behind : List Slot}

/-- `advance` at a running entry finishes it when nothing is left to be done, and else does an operation of
    it. -/
theorem advance_running {t : Task (Except LoadFailure LoadedClass)}
    (h : p.slots = before ++ .running t :: behind) :
    (∃ r, t = .done r ∧ p.advance limits workers before.length =
      { p with slots := before ++ .finished r :: behind }) ∨
    (∀ r, t ≠ .done r) ∧ p.advance limits workers before.length =
      { slots := before ++ .running (t.perform p.shared).1 :: behind
        shared := (t.perform p.shared).2 } := by
  have hget : p.slots[before.length]? = some (.running t) := by simp [h]
  have hset : ∀ slot, p.slots.set before.length slot = before ++ slot :: behind := by simp [h]
  cases t with
  | done r => exact .inl ⟨r, rfl, by simp only [advance, hget, hset]⟩
  | lookup d next => exact .inr ⟨fun _ => nofun, by simp only [advance, hget, hset]⟩
  | remember d t next => exact .inr ⟨fun _ => nofun, by simp only [advance, hget, hset]⟩
  | warn w next => exact .inr ⟨fun _ => nofun, by simp only [advance, hget, hset]⟩

/-- `advance` at a waiting entry starts it when none before it waits and a worker is free. -/
private theorem advance_waiting {e : ClassEntry} (h : p.slots = before ++ .waiting e :: behind) :
    p.advance limits workers before.length =
      if (∀ slot ∈ before, slot.isWaiting = false) ∧ p.slots.countP Slot.isRunning < workers then
        { p with slots := before ++ .running (loadTask limits e) :: behind }
      else p := by
  have hget : p.slots[before.length]? = some (.waiting e) := by simp [h]
  have hset : ∀ slot, p.slots.set before.length slot = before ++ slot :: behind := by simp [h]
  have htake : p.slots.take before.length = before := by simp [h]
  simp only [advance, hget, hset, canStart, htake, Bool.and_eq_true, List.all_eq_true,
    Bool.not_eq_true', decide_eq_true_eq]

/-- The step lemma: `advance` changes nothing, or one entry that does not wait from then on. It waited before
    only if none before it waits. What was left to be done is left, or one operation of it was done. -/
private theorem advance_cases (p : Pool cache) (i : Nat) :
    p.advance limits workers i = p ∨
    ∃ before slot slot' behind, p.slots = before ++ slot :: behind ∧
      (p.advance limits workers i).slots = before ++ slot' :: behind ∧
      slot'.isWaiting = false ∧
      (slot.isWaiting = true → ∀ s ∈ before, s.isWaiting = false) ∧
      ((slot'.task limits = slot.task limits ∧ (p.advance limits workers i).shared = p.shared) ∨
        (slot'.task limits, (p.advance limits workers i).shared) =
          (slot.task limits).perform p.shared) := by
  cases hget : p.slots[i]? with
  | none => exact .inl (by simp only [advance, hget])
  | some slot =>
    obtain ⟨before, behind, hslots, rfl⟩ := slots_split hget
    -- starting and finishing leave the task of the entry as it is
    cases slot with
    | waiting e =>
      rw [advance_waiting limits workers hslots]
      split
      · next hstart =>
        exact .inr ⟨before, .waiting e, _, behind, hslots, rfl, rfl, fun _ => hstart.1, .inl ⟨rfl, rfl⟩⟩
      · exact .inl rfl
    | running t =>
      -- a running task is finished if it is done, and otherwise performs one operation
      rcases advance_running limits workers hslots with ⟨r, rfl, hadvance⟩ | ⟨-, hadvance⟩
      · rw [hadvance]
        exact .inr ⟨before, _, _, behind, hslots, rfl, rfl, (fun h => nomatch h), .inl ⟨rfl, rfl⟩⟩
      · rw [hadvance]
        exact .inr ⟨before, _, _, behind, hslots, rfl, rfl, (fun h => nomatch h), .inr rfl⟩
    | finished r => exact .inl (by simp only [advance, hget])

end

/-! ### What every state keeps -/

/-- What holds of a pool that loads the entries of a list. -/
structure Sound (size : Nat) (limits : Limits) (entries : List ClassEntry) (p : Pool cache) :
    Prop where
  shared : p.shared.Sound size
  steady : ∀ slot ∈ p.slots, (slot.task limits).Steady
  results : p.slots.map (fun slot => (slot.task limits).result) = entries.map (load limits)
  warnings : (p.shared.diagnostics ++ p.slots.flatMap fun slot => (slot.task limits).warnings).Perm
    (entries.filterMap (versionWarning? limits))
  /-- Behind an entry that waits all wait. -/
  inOrder : p.slots.Pairwise fun a b => a.isWaiting → b.isWaiting

variable {size : Nat} {limits : Limits} {entries : List ClassEntry} {workers : Nat} {p : Pool cache}

/-- The pool that `start` gives is `Sound`: all is left to be done, and nothing is given yet. -/
theorem sound_start (cache : Cache) (size : Nat) (limits : Limits) (entries : List ClassEntry) :
    (start cache size entries).Sound size limits entries := by
  constructor
  · exact ⟨[], .empty, fun _ h => absurd h List.not_mem_nil⟩
  · intro slot hslot
    obtain ⟨e, -, rfl⟩ := List.mem_map.1 hslot
    exact (yields_loadTask limits e).steady
  · -- what a task yields is what `load` gives, as long as nothing is started
    simp only [start, List.map_map]
    exact List.map_congr_left fun e _ => (yields_loadTask limits e).result_eq
  · have hwarnings : ∀ e, ((Slot.waiting e).task limits).warnings =
        (versionWarning? limits e).toList := fun e => (yields_loadTask limits e).warnings_eq
    simp only [start, List.nil_append, List.flatMap_map, hwarnings]
    rw [List.filterMap_eq_flatMap_toList]
  · exact List.pairwise_map.2 (List.pairwise_of_forall fun _ _ _ => rfl)

/-- `advance` keeps a pool `Sound`. -/
theorem Sound.advance (h : p.Sound size limits entries) (workers i : Nat) :
    (p.advance limits workers i).Sound size limits entries := by
  rcases advance_cases limits workers p i with heq |
    ⟨before, slot, slot', behind, hslots, hslots', hwaits, hstart, hwork⟩
  · rw [heq]
    exact h
  · have hslot : (slot.task limits).Steady := h.steady slot (by simp [hslots])
    -- whatever is done for the entry at hand, it keeps its result and gives the warnings it owes
    have hkeep : (slot'.task limits).Steady ∧ (p.advance limits workers i).shared.Sound size ∧
        (slot'.task limits).result = (slot.task limits).result ∧
        ∃ ws, (p.advance limits workers i).shared.diagnostics = p.shared.diagnostics ++ ws ∧
          (slot.task limits).warnings = ws ++ (slot'.task limits).warnings := by
      rcases hwork with ⟨htask, hshared⟩ | hperform
      · rw [htask, hshared]
        exact ⟨hslot, h.shared, rfl, [], (List.append_nil _).symm, rfl⟩
      · have := Task.yields_perform hslot h.shared
        rw [← hperform] at this
        exact this
    obtain ⟨hsteady, hshared, hresult, ws, hgiven, howed⟩ := hkeep
    -- field by field: only one slot has changed, so each follows from the old one and `hkeep`
    constructor
    · exact hshared
    · intro s hs
      have hold := h.steady s
      simp only [hslots, hslots', List.mem_append, List.mem_cons] at hs hold
      rcases hs with hs | rfl | hs
      · exact hold (.inl hs)
      · exact hsteady
      · exact hold (.inr (.inr hs))
    · have hold := h.results
      rw [hslots, List.map_append, List.map_cons] at hold
      rw [hslots', List.map_append, List.map_cons, hresult, hold]
    · -- what the entry gave moves from those owed to the end of those given
      have hold := h.warnings
      rw [hslots, List.flatMap_append, List.flatMap_cons, howed] at hold
      rw [hslots', List.flatMap_append, List.flatMap_cons, hgiven]
      refine List.Perm.trans ?_ hold
      simp only [List.append_assoc]
      refine List.Perm.append_left _ ?_
      simp only [← List.append_assoc]
      exact (List.perm_append_comm.append_right _).append_right _
    · -- an entry that waits in front of the changed one would have kept it from starting
      have hold := h.inOrder
      rw [hslots, List.pairwise_append, List.pairwise_cons] at hold
      rw [hslots', List.pairwise_append, List.pairwise_cons]
      obtain ⟨hbefore, ⟨-, hbehind⟩, hacross⟩ := hold
      refine ⟨hbefore, ⟨fun s _ hw => absurd (hwaits.symm.trans hw) Bool.false_ne_true, hbehind⟩, ?_⟩
      intro a ha b hb hw
      rcases List.mem_cons.1 hb with rfl | hb
      · have := hstart (hacross a ha slot List.mem_cons_self hw) a ha
        exact absurd (this.symm.trans hw) Bool.false_ne_true
      · exact hacross a ha b (List.mem_cons_of_mem slot hb) hw

/-- `run` keeps a pool `Sound`, whatever the schedule. -/
theorem Sound.run (h : p.Sound size limits entries) (workers : Nat) (schedule : List Nat) :
    (p.run limits workers schedule).Sound size limits entries := by
  induction schedule generalizing p with
  | nil => exact h
  | cons i schedule ih => exact ih (h.advance workers i)

/-! ### Coming to an end -/

/-- `run` of two schedules one after the other. -/
theorem run_append (limits : Limits) (workers : Nat) (p : Pool cache) (s s' : List Nat) :
    p.run limits workers (s ++ s') = (p.run limits workers s).run limits workers s' :=
  List.foldl_append

/-- A running entry can be finished by letting no other go on. -/
private theorem exists_finish (limits : Limits) (workers : Nat)
    (t : Task (Except LoadFailure LoadedClass)) {p : Pool cache} {before behind : List Slot}
    (h : p.slots = before ++ .running t :: behind) :
    ∃ more r, (p.run limits workers more).slots = before ++ .finished r :: behind := by
  -- by induction on the operations that the task still has to do
  induction t using Task.perform_induction cache generalizing p with
  | done r =>
    rcases advance_running limits workers h with ⟨r', -, hadvance⟩ | ⟨hne, -⟩
    · exact ⟨[before.length], r', congrArg Pool.slots hadvance⟩
    · exact absurd rfl (hne r)
  | step t ih =>
    rcases advance_running limits workers h with ⟨r, rfl, hadvance⟩ | ⟨-, hadvance⟩
    · exact ⟨[before.length], r, congrArg Pool.slots hadvance⟩
    · obtain ⟨more, r, hmore⟩ := ih p.shared (congrArg Pool.slots hadvance)
      exact ⟨before.length :: more, r, hmore⟩

/-- When all entries in front are finished and all others wait, none is running, so a worker is free. -/
private theorem countP_isRunning {before behind : List Slot} (hbefore : ∀ s ∈ before, s.result?.isSome)
    (hbehind : ∀ s ∈ behind, s.isWaiting) : (before ++ behind).countP Slot.isRunning = 0 := by
  rw [List.countP_eq_zero]
  intro s hs hrunning
  cases s with
  | waiting e => exact nomatch hrunning
  | running t =>
    -- a running entry is neither finished nor waiting
    rcases List.mem_append.1 hs with hs | hs
    · exact nomatch hbefore _ hs
    · exact nomatch hbehind _ hs
  | finished r => exact nomatch hrunning

/-- Every `Sound` pool can be brought to its end, when at least one worker is there. -/
theorem exists_finished {workers : Nat} (hworkers : 0 < workers) (before behind : List Slot)
    (h : p.Sound size limits entries) (hslots : p.slots = before ++ behind)
    (hbefore : ∀ s ∈ before, s.result?.isSome) :
    ∃ more, ∀ s ∈ (p.run limits workers more).slots, s.result?.isSome := by
  -- by induction on the entries that are not known to be finished
  induction behind generalizing p before with
  | nil =>
    rw [List.append_nil] at hslots
    exact ⟨[], fun s hs => hbefore s (hslots ▸ hs)⟩
  | cons slot behind ih =>
    -- it is enough to finish the first entry that is not
    have hrest : ∀ more r, (p.run limits workers more).slots = before ++ .finished r :: behind →
        ∃ more, ∀ s ∈ (p.run limits workers more).slots, s.result?.isSome := by
      intro more r hmore
      have hbefore' : ∀ s ∈ before ++ [.finished r], s.result?.isSome := by
        intro s hs
        rcases List.mem_append.1 hs with hs | hs
        · exact hbefore s hs
        · rw [List.mem_singleton.1 hs]
          rfl
      obtain ⟨more', hmore'⟩ := ih (before ++ [.finished r]) (h.run workers more)
        (by rw [hmore, List.append_assoc]; rfl) hbefore'
      exact ⟨more ++ more', by rwa [run_append]⟩
    cases slot with
    | waiting e =>
      -- an entry waits, so all behind it do, and nothing is running
      have hwait : ∀ s ∈ Slot.waiting e :: behind, s.isWaiting := by
        have hinOrder := h.inOrder
        rw [hslots] at hinOrder
        intro s hs
        rcases List.mem_cons.1 hs with rfl | hs
        · rfl
        · exact (List.pairwise_cons.1 (List.pairwise_append.1 hinOrder).2.1).1 s hs rfl
      have hstart : (∀ s ∈ before, s.isWaiting = false) ∧
          p.slots.countP Slot.isRunning < workers := by
        constructor
        · intro s hs
          have := hbefore s hs
          cases s with
          | waiting e => exact nomatch this
          | running t => rfl
          | finished r => rfl
        · rw [hslots, countP_isRunning hbefore hwait]
          exact hworkers
      have hadvance := advance_waiting limits workers hslots
      rw [if_pos hstart] at hadvance
      obtain ⟨more, r, hmore⟩ := exists_finish limits workers _ (congrArg Pool.slots hadvance)
      exact hrest (before.length :: more) r hmore
    | running t =>
      obtain ⟨more, r, hmore⟩ := exists_finish limits workers t hslots
      exact hrest more r hmore
    | finished r => exact hrest [] r hslots

/-! ### Results -/

/-- Nothing is left to be done for an entry with a result. -/
private theorem task_of_result? {slot : Slot} {r : Except LoadFailure LoadedClass}
    (h : slot.result? = some r) (limits : Limits) : slot.task limits = .done r := by
  cases slot with
  | waiting e => exact nomatch h
  | running t => exact nomatch h
  | finished r' => exact congrArg Task.done (Option.some.inj h)

/-- `results?` are there when all entries are finished, and they are the results of what is left to be done. -/
private theorem results?_eq (limits : Limits) (h : ∀ s ∈ p.slots, s.result?.isSome) :
    p.results? = some (p.slots.map fun slot => (slot.task limits).result) := by
  unfold results?
  generalize p.slots = slots at h
  induction slots with
  | nil => rfl
  | cons slot slots ih =>
    -- a finished entry is left with its result
    obtain ⟨r, hr⟩ := Option.isSome_iff_exists.1 (h slot List.mem_cons_self)
    rw [List.mapM_cons, hr, ih fun s hs => h s (List.mem_cons_of_mem slot hs), List.map_cons,
      task_of_result? hr]
    rfl

/-- All entries are finished when there are `results?`. -/
theorem isSome_of_results? {rs : List (Except LoadFailure LoadedClass)} (h : p.results? = some rs) :
    ∀ s ∈ p.slots, s.result?.isSome := by
  unfold results? at h
  generalize p.slots = slots at h
  induction slots generalizing rs with
  | nil => exact fun s hs => absurd hs List.not_mem_nil
  | cons slot slots ih =>
    rw [List.mapM_cons] at h
    obtain ⟨r, hr, h⟩ := Option.bind_eq_some_iff.1 h
    obtain ⟨rs', hrs', -⟩ := Option.bind_eq_some_iff.1 h
    intro s hs
    rcases List.mem_cons.1 hs with rfl | hs
    · exact Option.isSome_iff_exists.2 ⟨r, hr⟩
    · exact ih hrs' s hs

/-- When all entries of a `Sound` pool are finished, `results?` are those of loading one after the other, and
    all warnings are given, in whatever order. -/
theorem Sound.finished (h : p.Sound size limits entries) (hall : ∀ s ∈ p.slots, s.result?.isSome) :
    p.results? = some (entries.map (load limits)) ∧
      p.shared.diagnostics.Perm (entries.filterMap (versionWarning? limits)) := by
  constructor
  · rw [results?_eq limits hall, h.results]
  · -- a finished entry owes no warning
    have howed : (p.slots.flatMap fun slot => (slot.task limits).warnings) = [] := by
      rw [List.flatMap_eq_nil_iff]
      intro s hs
      obtain ⟨r, hr⟩ := Option.isSome_iff_exists.1 (hall s hs)
      rw [task_of_result? hr]
      rfl
    have hwarnings := h.warnings
    rwa [howed, List.append_nil] at hwarnings

end Pool
end CallAtlas.Parallel
