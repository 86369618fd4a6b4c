import Mathlib.Data.List.Nodup
import CallAtlas.Proofs.Signal.Neighbours

/-!
# Gathering calls one by one

What a signal graph is made of can be gathered in one pass over the calls: which methods signal, what they
call, their categories, and counters that go up on the way (`Gathered.step`). What one call adds is said
once (`Covers.step`), so all that is gathered is known after any number of calls (`covers_gather`). In
particular the counter of a category, which goes up whenever the category is new for a method, is the number
of methods that have it.
-/

namespace CallAtlas.Signal

/-! ### Categories and their counters -/

/-- The categories that methods were found to have, and how often each category was counted. -/
structure Tally where
  noted : List (String × String)
  counts : String → Nat

namespace Tally

def empty : Tally := ⟨[], fun _ => 0⟩

/-- Notes a category of a method. It is counted if it is new for the method. -/
def note (name : String) (t : Tally) (category : String) : Tally :=
  if (name, category) ∈ t.noted then t
  else ⟨(name, category) :: t.noted, fun c => if c = category then t.counts c + 1 else t.counts c⟩

/-- The tally has noted all pairs of a kind, each once, and counted them. -/
structure Sound (t : Tally) (holds : String × String → Prop) : Prop where
  nodup : t.noted.Nodup
  mem_iff : ∀ p, p ∈ t.noted ↔ holds p
  counts : ∀ c, t.counts c = (t.noted.map Prod.snd).count c

variable {t : Tally} {holds : String × String → Prop}

/-- The `empty` tally is `Sound` for no pairs. -/
theorem sound_empty : empty.Sound fun _ => False :=
  ⟨List.nodup_nil, fun _ => List.mem_nil_iff _, fun _ => rfl⟩

/-- `note` keeps a tally `Sound`, for one more pair. -/
theorem Sound.note (h : t.Sound holds) (name category : String) :
    (t.note name category).Sound fun p => holds p ∨ p = (name, category) := by
  unfold Tally.note
  by_cases hold : (name, category) ∈ t.noted
  · -- the category is not new for the method, so the pair is there already
    rw [if_pos hold]
    refine ⟨h.nodup, fun p => ?_, h.counts⟩
    rw [h.mem_iff]
    constructor
    · exact .inl
    · rintro (hp | rfl)
      · exact hp
      · exact (h.mem_iff _).1 hold
  · -- a new pair: the counter of its category and no other goes up
    rw [if_neg hold]
    refine ⟨List.nodup_cons.2 ⟨hold, h.nodup⟩, fun p => ?_, fun c => ?_⟩
    · rw [List.mem_cons, h.mem_iff, or_comm]
    · simp only [h.counts, List.map_cons, List.count_cons, beq_iff_eq]
      by_cases hc : c = category
      · simp [hc]
      · simp [hc, Ne.symm hc]

/-- Noting all categories of a method keeps a tally `Sound`. -/
theorem Sound.foldl (h : t.Sound holds) (name : String) (categories : List String) :
    (categories.foldl (Tally.note name) t).Sound fun p => holds p ∨ p.1 = name ∧ p.2 ∈ categories := by
  induction categories generalizing t holds with
  | nil => simpa using h
  | cons c cs ih =>
    have hrest := ih (h.note name c)
    refine ⟨hrest.nodup, fun p => ?_, hrest.counts⟩
    rw [List.foldl_cons, hrest.mem_iff]
    obtain ⟨n, k⟩ := p
    simp only [List.mem_cons, Prod.mk.injEq]
    tauto

end Tally

/-! ### The pass over the calls -/

/-- What is gathered on the way. Nothing is listed twice in it but calls. -/
structure Gathered where
  /-- The calls of declared methods. -/
  inner : List Call
  /-- The declared methods that others call. -/
  called : List String
  /-- The methods that call sensitive ones. -/
  signals : List String
  /-- The methods that signal with the sensitive ones that they call. -/
  apis : List (String × String)
  tally : Tally
  sensitiveCalls : Nat

namespace Gathered

def empty : Gathered := ⟨[], [], [], [], .empty, 0⟩

/-- Gathers that a declared method is called. -/
def follow (g : Gathered) (c : Call) : Gathered :=
  { g with
    inner := g.inner ++ [c]
    called := if c.source = c.target then g.called else g.called.insert c.target }

/-- Gathers that a sensitive method is called. -/
def signal (g : Gathered) (c : Call) : Gathered :=
  { g with
    signals := g.signals.insert c.source
    apis := g.apis.insert (c.source, c.target)
    tally := c.categories.foldl (Tally.note c.source) g.tally
    sensitiveCalls := g.sensitiveCalls + 1 }

/-- Gathers what a call says. -/
def step (declared : String → Bool) (g : Gathered) (c : Call) : Gathered :=
  let g := if declared c.target then g.follow c else g
  if c.isSensitive then g.signal c else g

/-- Gathers what calls say, one after the other. -/
def gather (declared : String → Bool) (calls : List Call) : Gathered :=
  calls.foldl (step declared) empty

/-- The calls of declared methods are gathered. -/
structure Follows (declared : String → Bool) (cs : List Call) (g : Gathered) : Prop where
  inner : g.inner = cs.filter fun c => declared c.target
  called : ∀ n, n ∈ g.called ↔ ∃ c ∈ g.inner, c.source ≠ c.target ∧ c.target = n

/-- The calls of sensitive methods are gathered. -/
structure Signals (cs : List Call) (g : Gathered) : Prop where
  nodup_signals : g.signals.Nodup
  signals : ∀ n, n ∈ g.signals ↔ ∃ c ∈ cs, c.isSensitive = true ∧ c.source = n
  nodup_apis : g.apis.Nodup
  apis : ∀ p, p ∈ g.apis ↔ ∃ c ∈ cs, c.isSensitive = true ∧ (c.source, c.target) = p
  tally : g.tally.Sound fun p => ∃ c ∈ cs, c.isSensitive = true ∧ c.source = p.1 ∧ p.2 ∈ c.categories
  sensitiveCalls : g.sensitiveCalls = (cs.filter Call.isSensitive).length

/-- All that calls say is gathered. -/
structure Covers (declared : String → Bool) (cs : List Call) (g : Gathered) : Prop extends
  Follows declared cs g, Signals cs g

section
variable {declared : String → Bool} {cs : List Call} {g : Gathered} {c : Call}

/-- Something is so of some call, the last one included. -/
theorem exists_mem_snoc {p : Call → Prop} :
    (∃ d ∈ cs ++ [c], p d) ↔ (∃ d ∈ cs, p d) ∨ p c := by
  simp [or_and_right, exists_or]

/-- `follow` gathers a call of a declared method. -/
theorem Follows.follow (h : Follows declared cs g) (hc : declared c.target = true) :
    Follows declared (cs ++ [c]) (g.follow c) := by
  constructor
  · simp [Gathered.follow, h.inner, hc]
  · intro n
    simp only [Gathered.follow, exists_mem_snoc, ← h.called]
    by_cases hself : c.source = c.target
    · simp [hself]
    · simp [hself, List.mem_insert_iff, or_comm, eq_comm]

/-- A call of a method that is not declared adds nothing to what `Follows` says. -/
theorem Follows.skip (h : Follows declared cs g) (hc : ¬ declared c.target = true) :
    Follows declared (cs ++ [c]) g :=
  ⟨by simp [h.inner, hc], h.called⟩

/-- `signal` gathers a call of a sensitive method. -/
theorem Signals.signal (h : Signals cs g) (hc : c.isSensitive = true) :
    Signals (cs ++ [c]) (g.signal c) := by
  constructor
  case nodup_signals => exact h.nodup_signals.insert
  case signals =>
    -- one call more, with what it adds
    intro n
    rw [Gathered.signal, exists_mem_snoc, List.mem_insert_iff, h.signals, or_comm, eq_comm (a := n)]
    simp only [hc, true_and]
  case nodup_apis => exact h.nodup_apis.insert
  case apis =>
    intro p
    rw [Gathered.signal, exists_mem_snoc, List.mem_insert_iff, h.apis, or_comm, eq_comm (a := p)]
    simp only [hc, true_and]
  case tally =>
    have hfold := h.tally.foldl c.source c.categories
    refine ⟨hfold.nodup, fun p => ?_, hfold.counts⟩
    rw [Gathered.signal, exists_mem_snoc, hfold.mem_iff, eq_comm (a := p.1)]
    simp only [hc, true_and]
  case sensitiveCalls => simp [Gathered.signal, h.sensitiveCalls, hc]

/-- A call of a method that is not sensitive adds nothing to what `Signals` says. -/
theorem Signals.skip (h : Signals cs g) (hc : ¬ c.isSensitive = true) : Signals (cs ++ [c]) g := by
  constructor
  case nodup_signals => exact h.nodup_signals
  case signals => simpa [exists_mem_snoc, hc] using h.signals
  case nodup_apis => exact h.nodup_apis
  case apis => simpa [exists_mem_snoc, hc] using h.apis
  case tally => simpa [exists_mem_snoc, hc] using h.tally
  case sensitiveCalls => simp [h.sensitiveCalls, hc]

/-- The step lemma: `step` gathers one more call. Its two halves touch different parts of what is gathered. -/
theorem Covers.step (h : Covers declared cs g) (c : Call) :
    Covers declared (cs ++ [c]) (g.step declared c) := by
  unfold Gathered.step
  -- four kinds of calls: declared or not, sensitive or not
  by_cases hd : declared c.target = true
  · have hfollows := h.toFollows.follow hd
    by_cases hs : c.isSensitive = true
    · rw [if_pos hd, if_pos hs]
      -- following a call leaves alone what is known about signals
      have hbefore : Signals cs (g.follow c) := ⟨h.nodup_signals, h.signals, h.nodup_apis, h.apis, h.tally,
        h.sensitiveCalls⟩
      exact ⟨⟨hfollows.inner, hfollows.called⟩, hbefore.signal hs⟩
    · rw [if_pos hd, if_neg hs]
      have hafter := h.toSignals.skip hs
      exact ⟨hfollows, ⟨hafter.nodup_signals, hafter.signals, hafter.nodup_apis, hafter.apis, hafter.tally,
        hafter.sensitiveCalls⟩⟩
  · have hfollows := h.toFollows.skip hd
    by_cases hs : c.isSensitive = true
    · rw [if_neg hd, if_pos hs]
      exact ⟨⟨hfollows.inner, hfollows.called⟩, h.toSignals.signal hs⟩
    · rw [if_neg hd, if_neg hs]
      exact ⟨hfollows, h.toSignals.skip hs⟩

/-- The run lemma: any number of calls are gathered, from `Covers.step` call by call. -/
theorem Covers.foldl (h : Covers declared cs g) (more : List Call) :
    Covers declared (cs ++ more) (more.foldl (Gathered.step declared) g) := by
  induction more generalizing cs g with
  | nil => simpa using h
  | cons c more ih =>
    have hrest := ih (h.step c)
    rwa [List.append_assoc, List.singleton_append] at hrest

end
end Gathered
end CallAtlas.Signal
