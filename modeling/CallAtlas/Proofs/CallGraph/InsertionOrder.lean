import Mathlib.Data.List.Pairwise
import CallAtlas.Proofs.CallGraph.Edges

/-!
# The order in which calls are recorded

Calls are recorded one by one in a new store, which is then frozen and read. Of calls that agree in all but
lines only the first is kept. So what is read does not depend on the order in which the calls came exactly if
calls that agree have their lines in common (`frozen_and_projected_of_perm`); else the lines that are kept
are those of the call that came first (`frozen_differs_linedCalls`).

Two orders are involved, and each has to keep apart all that is stored. A store is frozen in the order of
tuples, which looks at all parts of the place of a call but its line. Edges are listed in an order that looks
at the line and the position of the place, and not at its path. Tuples with different keys are told apart by
both (`agree_of_edge_cmp_eq`), so it makes no difference whether a sort is stable.
-/

namespace CallAtlas

namespace Facts

/-! ### A store with one relation -/

/-- The store is open, and has no other relation than that of one name and arity. -/
structure Store.OnlyHas (s : Store) (name : String) (arity : Int) : Prop where
  unfrozen : s.isFrozen = false
  relation : ∀ n r, s.get? n = some r → n = name ∧ r.arity = arity

namespace Store.OnlyHas

variable {s : Store} {name : String} {arity : Int}

/-- The empty store `OnlyHas` whatever relation. -/
theorem of_empty (name : String) (arity : Int) : empty.OnlyHas name arity :=
  ⟨rfl, fun _ _ h => (nomatch h)⟩

/-- `add` accepts a tuple of the right length. -/
private theorem exists_add (h : s.OnlyHas name arity) {t : Tuple} (ht : (t.length : Int) = arity) :
    ∃ s', s.add name t = .ok s' := by
  have hdeclare : ∃ s', s.declare name t.length = .ok s' := by
    unfold declare
    rw [if_neg (by simp [h.unfrozen])]
    -- the relation is declared by the first tuple, or is there with this arity
    cases hget : s.get? name with
    | none => exact ⟨_, rfl⟩
    | some r =>
      have harity : r.arity = (t.length : Int) := (h.relation name r hget).2.trans ht.symm
      exact ⟨s, if_pos harity⟩
  obtain ⟨s', hs'⟩ := hdeclare
  exact ⟨_, Result.bind_eq_ok.2 ⟨s', hs', rfl⟩⟩

/-- One more tuple of the right length is accepted, and the store still `OnlyHas` the relation. -/
theorem add (h : s.OnlyHas name arity) {t : Tuple} (ht : (t.length : Int) = arity) :
    (Operation.add name t).answer s = .ok () ∧ ((Operation.add name t).next s).OnlyHas name arity := by
  obtain ⟨s', hs'⟩ := h.exists_add ht
  have houtcome : (Operation.add name t).outcome s = .ok s' := hs'
  obtain ⟨hanswer, hnext⟩ := Operation.of_outcome_ok houtcome
  obtain ⟨harity, hreplaced⟩ := Store.of_add hs'
  rw [hnext]
  refine ⟨hanswer, hreplaced.after_open, fun n r hr => ?_⟩
  rw [hreplaced.get?_eq] at hr
  -- the relation that got the tuple, or another one, of which there is none
  by_cases hn : n = name
  · rw [if_pos hn] at hr
    obtain rfl := Option.some.inj hr
    exact ⟨hn, (Relation.arity_insert _ t).trans (harity.trans ht)⟩
  · rw [if_neg hn] at hr
    exact h.relation n r hr

/-- All tuples of the right length are accepted one after the other, and the store still `OnlyHas` the
    relation. -/
theorem adds (h : s.OnlyHas name arity) {ts : List Tuple} (hts : ∀ t ∈ ts, (t.length : Int) = arity) :
    (∀ t ∈ ts, (.add name t, .ok ()) ∈ answers s (ts.map (.add name))) ∧
      (∀ entry ∈ answers s (ts.map (.add name)), entry.2 = .ok ()) ∧
      (replay s (ts.map (.add name))).OnlyHas name arity := by
  -- tuple by tuple, the store of each step being one of this kind
  induction ts generalizing s with
  | nil => exact ⟨fun _ ht => (nomatch ht), fun _ hentry => (nomatch hentry), h⟩
  | cons t ts ih =>
    obtain ⟨hanswer, hnext⟩ := h.add (hts t List.mem_cons_self)
    obtain ⟨hmem, hall, honly⟩ := ih hnext fun u hu => hts u (List.mem_cons_of_mem t hu)
    refine ⟨fun u hu => ?_, fun entry hentry => ?_, honly⟩
    · rcases List.mem_cons.1 hu with rfl | hu
      · exact List.mem_cons.2 (.inl (by rw [hanswer]))
      · exact List.mem_cons_of_mem _ (hmem u hu)
    · rcases List.mem_cons.1 hentry with rfl | hentry
      · exact hanswer
      · exact hall entry hentry

end Store.OnlyHas

/-- `relation?` of a frozen store is that of the open one, sorted. -/
private theorem Store.relation?_of_freeze {s : Store} (h : s.isFrozen = false) (name : String) :
    s.freeze.relation? name = (s.relation? name).map (·.mergeSort Tuple.le) := by
  rw [relation?, get?_freeze h, relation?, Option.map_map, Option.map_map]
  exact congrArg (Option.map · _) (funext Relation.tuples_sorted)

end Facts

namespace CallGraph

open Facts

/-! ### Calls and what is stored of them -/

/-- A call as it is recorded. -/
structure Invocation where
  caller : Location
  callee : Location
  /-- The position of the call in its caller. -/
  offset : Int
  /-- The source line of the call. -/
  line : Int
  deriving DecidableEq

/-- The location is that of a method, which has no position, with a path free of the mark that closes locations
    in a key. -/
structure NamesMethod (l : Location) : Prop where
  declaration : l.isDeclaration = true
  plain : l.IsPlain
  offset : l.offset = Location.noOffset

instance (l : Location) : Decidable (NamesMethod l) :=
  decidable_of_iff (l.isDeclaration = true ∧ l.IsPlain ∧ l.offset = Location.noOffset)
    ⟨fun h => ⟨h.1, h.2.1, h.2.2⟩, fun h => ⟨h.declaration, h.plain, h.offset⟩⟩

namespace Invocation

/-- The place of the call. -/
def site (c : Invocation) : Location :=
  .ofSite c.caller c.offset c.line

/-- The tuple that the call is recorded as. -/
def tuple (c : Invocation) : Tuple :=
  [c.caller, c.callee, c.site]

/-- The edge that the tuple is read as. -/
def edge (c : Invocation) : Edge :=
  ⟨c.caller, c.callee, c.site⟩

/-- One method calls another at a position. -/
structure IsProper (c : Invocation) : Prop where
  caller : NamesMethod c.caller
  callee : NamesMethod c.callee
  offset : 0 ≤ c.offset

instance (c : Invocation) : Decidable c.IsProper :=
  decidable_of_iff (NamesMethod c.caller ∧ NamesMethod c.callee ∧ 0 ≤ c.offset)
    ⟨fun h => ⟨h.1, h.2.1, h.2.2⟩, fun h => ⟨h.caller, h.callee, h.offset⟩⟩

end Invocation

/-- A location that `NamesMethod` is such as a program has. -/
private theorem NamesMethod.isProper {l : Location} (h : NamesMethod l) : l.IsProper := by
  have hscheme := h.declaration
  simp only [Location.isDeclaration, Bool.or_eq_true, beq_iff_eq] at hscheme
  refine ⟨?_, h.plain, .inr ⟨?_, h.offset⟩⟩
  · rcases hscheme with (hs | hs) | hs <;> rw [hs] <;> decide
  · rcases hscheme with (hs | hs) | hs <;> rw [hs] <;> decide

/-- All locations in the `tuple` of a proper call are such as a program has. -/
private theorem Invocation.IsProper.isProper_of_mem {c : Invocation} (h : c.IsProper) :
    ∀ l ∈ c.tuple, l.IsProper := by
  intro l hl
  simp only [tuple, List.mem_cons, List.not_mem_nil, or_false] at hl
  rcases hl with rfl | rfl | rfl
  · exact h.caller.isProper
  · exact h.callee.isProper
  · have hscheme : Location.schemeInvocation ∈ Location.schemes := by decide
    exact ⟨hscheme, h.caller.plain, .inl ⟨rfl, h.offset⟩⟩

/-- Tuples of calls `Agree` exactly if caller, callee and position do. The place has the path of the caller, so
    it says no more. -/
theorem agree_tuple_iff {c d : Invocation} : Tuple.Agree c.tuple d.tuple ↔
    c.caller.identity = d.caller.identity ∧ c.callee.identity = d.callee.identity ∧ c.offset = d.offset := by
  simp only [Tuple.Agree, Invocation.tuple, Invocation.site, Location.ofSite, Location.identity, List.map_cons,
    List.map_nil, List.cons.injEq, Prod.mk.injEq, and_true, true_and]
  constructor
  · intro h
    exact ⟨h.1, h.2.1, h.2.2.2⟩
  · intro h
    exact ⟨h.1, h.2.1, h.1.2.1, h.2.2⟩

/-- Edges of calls that `Edge.cmp` does not tell apart come from tuples that `Agree`. -/
theorem agree_of_edge_cmp_eq {c d : Invocation} (h : Edge.cmp c.edge d.edge = .eq) :
    Tuple.Agree c.tuple d.tuple := by
  simp only [Edge.cmp, Ordering.then_eq_eq, Location.cmp_eq_iff, Std.compare_eq_iff_eq] at h
  exact agree_tuple_iff.2 ⟨h.1, h.2.2.2, h.2.2.1⟩

/-- A new store in which calls were recorded one after the other. -/
def recorded (calls : List Invocation) : Store :=
  replay .empty ((calls.map Invocation.tuple).map (.add relInvocation))

/-- The tuples of the recorded calls, in the order in which they came. -/
def stored (calls : List Invocation) : List Tuple :=
  (recorded calls).tuples relInvocation

section
variable {calls : List Invocation}

/-- The tuple of a call has three locations. -/
theorem length_of_mem_tuples : ∀ t ∈ calls.map Invocation.tuple, (t.length : Int) = 3 := by
  intro t ht
  obtain ⟨c, -, rfl⟩ := List.mem_map.1 ht
  rfl

/-- The store of `recorded` calls `OnlyHas` the relation of calls. -/
theorem onlyHas_recorded (calls : List Invocation) : (recorded calls).OnlyHas relInvocation 3 :=
  ((Store.OnlyHas.of_empty relInvocation 3).adds length_of_mem_tuples).2.2

/-- Only tuples of calls are `stored`. -/
theorem exists_call_of_mem_stored {t : Tuple} (h : t ∈ stored calls) : ∃ c ∈ calls, c.tuple = t := by
  have hadded := mem_of_mem_answers (added_of_mem_replay h)
  obtain ⟨u, hu, heq⟩ := List.mem_map.1 hadded
  obtain ⟨-, rfl⟩ := Operation.add.inj heq
  exact List.mem_map.1 hu

/-- For every call a tuple is `stored` that says who calls whom at which position. -/
theorem exists_agree_of_mem (hproper : ∀ c ∈ calls, c.IsProper) {c : Invocation} (hc : c ∈ calls) :
    ∃ t ∈ stored calls, Tuple.Agree t c.tuple := by
  have hadded := ((Store.OnlyHas.of_empty relInvocation 3).adds length_of_mem_tuples).1 c.tuple
    (List.mem_map_of_mem hc)
  -- what is stored under the key of the call is a call as well, and proper keys tell all its parts
  obtain ⟨t, ht, hkey⟩ := exists_key_of_mem_answers hadded
  obtain ⟨d, hd, rfl⟩ := exists_call_of_mem_stored ht
  exact ⟨d.tuple, ht,
    Tuple.agree_of_key_eq (hproper d hd).isProper_of_mem (hproper c hc).isProper_of_mem hkey⟩

/-- No two `stored` tuples `Agree`. -/
theorem pairwise_stored (calls : List Invocation) :
    (stored calls).Pairwise fun t u => ¬ Tuple.Agree t u := by
  apply Store.pairwise_tuples
  intro r hr
  have hsound : (recorded calls).Sound := Store.sound_empty.replay _
  exact (hsound.relation relInvocation r hr).keys.imp fun hne hagree => hne hagree.key_eq

/-- The first call is `stored` as it is. -/
theorem tuple_mem_stored_cons (c : Invocation) (calls : List Invocation) :
    c.tuple ∈ stored (c :: calls) := by
  have hadded := ((Store.OnlyHas.of_empty relInvocation 3).add (t := c.tuple) rfl).1
  obtain ⟨u, hu, -⟩ := Operation.exists_key_of_added hadded
  -- in an empty store there is nothing else that could be found under the key
  have heq : c.tuple = u := by
    rcases Operation.mem_or_added hu with hempty | ⟨hop, -⟩
    · exact absurd hempty List.not_mem_nil
    · exact (Operation.add.inj hop).2
  rw [← heq] at hu
  exact mem_replay hu _

/-- Of calls that all `Agree` with one that is `stored`, no other is. -/
private theorem stored_eq_singleton {c : Invocation} (hc : c.tuple ∈ stored calls)
    (hagree : ∀ d ∈ calls, Tuple.Agree d.tuple c.tuple) : stored calls = [c.tuple] := by
  have hall : ∀ t ∈ stored calls, Tuple.Agree t c.tuple := by
    intro t ht
    obtain ⟨d, hd, rfl⟩ := exists_call_of_mem_stored ht
    exact hagree d hd
  have hapart := pairwise_stored calls
  generalize stored calls = ts at hc hall hapart
  -- two calls that are stored do not agree
  cases ts with
  | nil => exact absurd hc List.not_mem_nil
  | cons t ts =>
    cases ts with
    | nil => rw [List.mem_singleton.1 hc]
    | cons u ts =>
      have hne := (List.pairwise_cons.1 hapart).1 u List.mem_cons_self
      have hu := hall u (List.mem_cons_of_mem t List.mem_cons_self)
      exact absurd ((hall t List.mem_cons_self).trans hu.symm) hne

/-- `relation?` finds the relation of calls as soon as there is a call, and no other one. -/
theorem relation?_recorded (hproper : ∀ c ∈ calls, c.IsProper) (name : String) :
    (recorded calls).relation? name =
      if name = relInvocation ∧ calls ≠ [] then some (stored calls) else none := by
  cases hget : (recorded calls).get? name with
  | none =>
    rw [if_neg]
    · rw [Store.relation?, hget]
      rfl
    · -- a call that was accepted has left a tuple
      rintro ⟨rfl, hne⟩
      obtain ⟨c, hc⟩ := List.exists_mem_of_ne_nil calls hne
      obtain ⟨t, ht, -⟩ := exists_agree_of_mem hproper hc
      simp [stored, Store.tuples, Store.relation?, hget] at ht
  | some r =>
    have hname := ((onlyHas_recorded calls).relation name r hget).1
    rw [if_pos]
    · rw [stored, ← hname, Store.tuples_of_get? hget, Store.relation?, hget]
      rfl
    · refine ⟨hname, fun hnil => ?_⟩
      have hnone : (recorded []).get? name = none := rfl
      simp [hnil, hnone] at hget

/-- `relation?_recorded` for the frozen store: the relation is sorted by `Tuple.le`. -/
theorem relation?_freeze_recorded (hproper : ∀ c ∈ calls, c.IsProper) (name : String) :
    (recorded calls).freeze.relation? name =
      if name = relInvocation ∧ calls ≠ [] then some ((stored calls).mergeSort Tuple.le) else none := by
  rw [Store.relation?_of_freeze (onlyHas_recorded calls).unfrozen, relation?_recorded hproper]
  split <;> rfl

/-- The frozen tuples are the `stored` ones, sorted by `Tuple.le`. -/
theorem tuples_freeze_recorded (calls : List Invocation) :
    (recorded calls).freeze.tuples relInvocation = (stored calls).mergeSort Tuple.le := by
  rw [Store.tuples, Store.relation?_of_freeze (onlyHas_recorded calls).unfrozen, stored, Store.tuples]
  cases (recorded calls).relation? relInvocation <;> simp

/-! ### Both orders keep apart what is stored -/

/-- `Tuple.le` keeps all `stored` tuples apart. -/
theorem pairwise_untied_stored (calls : List Invocation) :
    (stored calls).Pairwise fun t u => tied Tuple.le t u = false := by
  refine (pairwise_stored calls).imp fun hne => ?_
  rw [← Bool.not_eq_true]
  exact fun htied => hne (Tuple.cmp_eq_iff.1 ((tied_cmp_iff Tuple.cmp _ _).1 htied))

/-- The edges of the recorded calls, in the order in which they came. -/
def storedEdges (calls : List Invocation) : List Edge :=
  (stored calls).filterMap Edge.ofTuple?

/-- The edge of a `stored` tuple is that of the call that the tuple comes from. -/
theorem exists_call_of_ofTuple? {t : Tuple} {e : Edge} (ht : t ∈ stored calls)
    (he : Edge.ofTuple? t = some e) : ∃ c ∈ calls, c.tuple = t ∧ c.edge = e := by
  obtain ⟨c, hc, rfl⟩ := exists_call_of_mem_stored ht
  exact ⟨c, hc, rfl, Option.some.inj he⟩

/-- `Edge.le` keeps all `storedEdges` apart. -/
theorem pairwise_untied_storedEdges (calls : List Invocation) :
    (storedEdges calls).Pairwise fun e f => tied Edge.le e f = false := by
  rw [storedEdges, List.pairwise_filterMap]
  refine (pairwise_stored calls).imp_of_mem fun ht hu hne e he f hf => ?_
  obtain ⟨c, -, rfl, rfl⟩ := exists_call_of_ofTuple? ht he
  obtain ⟨d, -, rfl, rfl⟩ := exists_call_of_ofTuple? hu hf
  rw [← Bool.not_eq_true]
  exact fun htied => hne (agree_of_edge_cmp_eq ((tied_cmp_iff Edge.cmp _ _).1 htied))

/-- `project` gives the same before and after freezing: `freeze` puts the tuples in another order, which is lost
    again when the edges are put in theirs. -/
private theorem project_freeze_recorded (hproper : ∀ c ∈ calls, c.IsProper) :
    project (recorded calls).freeze = project (recorded calls) := by
  have hperm : (((stored calls).mergeSort Tuple.le).filterMap Edge.ofTuple?).Perm (storedEdges calls) :=
    (List.mergeSort_perm (stored calls) Tuple.le).filterMap Edge.ofTuple?
  have hsame := Edge.totalPreorder_le.eq_of_sorts (pairwise_untied_storedEdges calls) hperm
    (Edge.totalPreorder_le.sorts_mergeSort _) (Edge.totalPreorder_le.sorts_mergeSort _)
  rw [project, project, project?, project?, relation?_freeze_recorded hproper, relation?_recorded hproper]
  split
  · exact congrArg Except.ok hsame.symm
  · rfl

/-- `project` sorts the `storedEdges`, or fails if no call was recorded. -/
theorem project_recorded (hproper : ∀ c ∈ calls, c.IsProper) :
    project (recorded calls) =
      if calls ≠ [] then .ok ((storedEdges calls).mergeSort Edge.le) else .error noInvocations := by
  rw [project, project?, relation?_recorded hproper]
  by_cases h : calls = []
  · simp [h]
  · simp [h, storedEdges]

end

/-! ### Calls in another order -/

/-- The line of a call is determined by its position and what `key` tells of its caller. -/
def LinesDetermined {κ : Type} (key : Location → κ) (calls : List Invocation) : Prop :=
  ∀ c ∈ calls, ∀ d ∈ calls, key c.caller = key d.caller → c.offset = d.offset → c.line = d.line

instance {κ : Type} [DecidableEq κ] (key : Location → κ) (calls : List Invocation) :
    Decidable (LinesDetermined key calls) :=
  inferInstanceAs (Decidable (∀ c ∈ calls, ∀ d ∈ calls, key c.caller = key d.caller →
    c.offset = d.offset → c.line = d.line))

/-- Calls that agree in all but lines have callers with one line, and callees with one line. -/
def MethodLinesDetermined (calls : List Invocation) : Prop :=
  ∀ c ∈ calls, ∀ d ∈ calls, Tuple.Agree c.tuple d.tuple →
    c.caller.line = d.caller.line ∧ c.callee.line = d.callee.line

instance (calls : List Invocation) : Decidable (MethodLinesDetermined calls) :=
  inferInstanceAs (Decidable (∀ c ∈ calls, ∀ d ∈ calls, Tuple.Agree c.tuple d.tuple →
    c.caller.line = d.caller.line ∧ c.callee.line = d.callee.line))

/-- An edge with its locations seen in some way. -/
def Edge.through (view : Location → Location) (e : Edge) : Edge :=
  ⟨view e.caller, view e.callee, view e.site⟩

/-- Frozen and projected, both stores look the same. -/
structure LookAlike (view : Location → Location) (s s' : Store) : Prop where
  frozen : ∀ name, (s.freeze.relation? name).map (List.map (List.map view)) =
    (s'.freeze.relation? name).map (List.map (List.map view))
  projected : (project s).map (List.map (Edge.through view)) =
    (project s').map (List.map (Edge.through view))

/-- A way to see the locations of calls that shows all but the lines of methods, and those only if calls that
    agree have the same ones. -/
structure Shows (calls : List Invocation) (view : Location → Location) : Prop where
  identity : ∀ l, (view l).identity = l.identity
  site : ∀ c ∈ calls, view c.site = c.site
  agree : ∀ c ∈ calls, ∀ d ∈ calls, Tuple.Agree c.tuple d.tuple → c.tuple.map view = d.tuple.map view

section
variable {calls calls' : List Invocation} {view : Location → Location}

/-- A view that keeps identities shows a tuple that is in `Tuple.Agree` with the one it is a view of. -/
theorem agree_map (hview : ∀ l, (view l).identity = l.identity) (t : Tuple) :
    Tuple.Agree (t.map view) t := by
  rw [Tuple.Agree, List.map_map]
  exact List.map_congr_left fun l _ => hview l

/-- What a view `Shows` of calls it shows of them in another order. -/
theorem Shows.of_perm (h : Shows calls view) (hperm : calls'.Perm calls) : Shows calls' view where
  identity := h.identity
  site c hc := h.site c (hperm.mem_iff.1 hc)
  agree c hc d hd := h.agree c (hperm.mem_iff.1 hc) d (hperm.mem_iff.1 hd)

/-- What is seen of the `stored` tuples does not depend on the order of the calls: where one call was stored for
    another one that agrees with it, it looks the same. -/
private theorem mem_map_stored_of_perm (hproper : ∀ c ∈ calls, c.IsProper) (hshows : Shows calls view)
    (hperm : calls'.Perm calls) {t : Tuple} (ht : t ∈ (stored calls').map (List.map view)) :
    t ∈ (stored calls).map (List.map view) := by
  obtain ⟨u, hu, rfl⟩ := List.mem_map.1 ht
  obtain ⟨c, hc, rfl⟩ := exists_call_of_mem_stored hu
  -- the other store has kept this call or one that was there before it under the same key
  obtain ⟨v, hv, hagree⟩ := exists_agree_of_mem hproper (hperm.mem_iff.1 hc)
  obtain ⟨d, hd, rfl⟩ := exists_call_of_mem_stored hv
  rw [← hshows.agree d hd c (hperm.mem_iff.1 hc) hagree]
  exact List.mem_map_of_mem hv

/-- A view that keeps identities still tells `stored` tuples apart. -/
private theorem nodup_map_stored (hview : ∀ l, (view l).identity = l.identity) (calls : List Invocation) :
    ((stored calls).map (List.map view)).Nodup := by
  rw [List.Nodup, List.pairwise_map]
  refine (pairwise_stored calls).imp fun {t u} hne heq => hne ?_
  have ht : Tuple.Agree (t.map view) t := agree_map hview t
  have hu : Tuple.Agree (u.map view) u := agree_map hview u
  rw [heq] at ht
  exact ht.symm.trans hu

/-- The `stored` tuples of calls in another order look the same up to order. -/
private theorem perm_map_stored (hproper : ∀ c ∈ calls, c.IsProper) (hshows : Shows calls view)
    (hperm : calls'.Perm calls) :
    ((stored calls').map (List.map view)).Perm ((stored calls).map (List.map view)) := by
  have hproper' : ∀ c ∈ calls', c.IsProper := fun c hc => hproper c (hperm.mem_iff.1 hc)
  rw [List.perm_ext_iff_of_nodup (nodup_map_stored hshows.identity calls')
    (nodup_map_stored hshows.identity calls)]
  intro t
  exact ⟨mem_map_stored_of_perm hproper hshows hperm,
    mem_map_stored_of_perm hproper' (hshows.of_perm hperm) hperm.symm⟩

/-- `Location.cmp` does not depend on a view that keeps identities. -/
private theorem cmp_view (hview : ∀ l, (view l).identity = l.identity) (l l' : Location) :
    Location.cmp (view l) (view l') = Location.cmp l l' := by
  have hl : Location.cmp (view l) l = .eq := Location.cmp_eq_iff.2 (hview l)
  have hl' : Location.cmp (view l') l' = .eq := Location.cmp_eq_iff.2 (hview l')
  rw [Std.TransCmp.congr_left hl, Std.TransCmp.congr_right hl']

/-- `Tuple.le` does not depend on a view that keeps identities. -/
theorem le_map (hview : ∀ l, (view l).identity = l.identity) (t u : Tuple) :
    Tuple.le (t.map view) (u.map view) = Tuple.le t u := by
  have ht : Tuple.cmp (t.map view) t = .eq := Tuple.cmp_eq_iff.2 (agree_map hview t)
  have hu : Tuple.cmp (u.map view) u = .eq := Tuple.cmp_eq_iff.2 (agree_map hview u)
  rw [Tuple.le, Tuple.le, Std.TransCmp.congr_left ht, Std.TransCmp.congr_right hu]

/-- `Edge.le` does not depend on a view that `Shows` the places of calls. -/
theorem Shows.le_through (h : Shows calls view) {c d : Invocation} (hc : c ∈ calls) (hd : d ∈ calls) :
    Edge.le (c.edge.through view) (d.edge.through view) = Edge.le c.edge d.edge := by
  simp only [Edge.le, Edge.cmp, Edge.through, Invocation.edge, h.site c hc, h.site d hd, cmp_view h.identity]

/-- `Tuple.le` keeps `stored` tuples apart as they are seen. -/
private theorem pairwise_untied_map (hview : ∀ l, (view l).identity = l.identity) (calls : List Invocation) :
    ((stored calls).map (List.map view)).Pairwise fun t u => tied Tuple.le t u = false := by
  rw [List.pairwise_map]
  refine (pairwise_untied_stored calls).imp fun h => ?_
  rw [tied, le_map hview, le_map hview]
  exact h

/-- Only edges of calls are `storedEdges`. -/
theorem exists_call_of_mem_storedEdges {e : Edge} (h : e ∈ storedEdges calls) : ∃ c ∈ calls, c.edge = e := by
  obtain ⟨t, ht, he⟩ := List.mem_filterMap.1 h
  obtain ⟨c, hc, -, hedge⟩ := exists_call_of_ofTuple? ht he
  exact ⟨c, hc, hedge⟩

/-- `Edge.le` keeps `storedEdges` apart as they are seen. -/
private theorem Shows.pairwise_untied_through (h : Shows calls view) :
    ((storedEdges calls).map (Edge.through view)).Pairwise fun e f => tied Edge.le e f = false := by
  rw [List.pairwise_map]
  refine (pairwise_untied_storedEdges calls).imp_of_mem fun he hf huntied => ?_
  obtain ⟨c, hc, rfl⟩ := exists_call_of_mem_storedEdges he
  obtain ⟨d, hd, rfl⟩ := exists_call_of_mem_storedEdges hf
  rw [tied, h.le_through hc hd, h.le_through hd hc]
  exact huntied

/-- `storedEdges` are seen as the tuples are that they come from. -/
private theorem map_through_storedEdges (calls : List Invocation) (view : Location → Location) :
    (storedEdges calls).map (Edge.through view) =
      ((stored calls).map (List.map view)).filterMap Edge.ofTuple? := by
  rw [storedEdges, List.map_filterMap, List.filterMap_map]
  refine List.filterMap_congr fun t ht => ?_
  obtain ⟨c, -, rfl⟩ := exists_call_of_mem_stored ht
  rfl

/-- Stores of calls in two orders `LookAlike` through a view that `Shows` the calls, frozen and projected. -/
private theorem Shows.lookAlike (h : Shows calls view) (hproper : ∀ c ∈ calls, c.IsProper)
    (hperm : calls'.Perm calls) : LookAlike view (recorded calls) (recorded calls') := by
  have hproper' : ∀ c ∈ calls', c.IsProper := fun c hc => hproper c (hperm.mem_iff.1 hc)
  have hstored := perm_map_stored hproper h hperm
  -- without calls there is no relation, on either side
  have hnil : calls' = [] ↔ calls = [] := by
    rw [← List.length_eq_zero_iff, hperm.length_eq, List.length_eq_zero_iff]
  constructor
  · -- both frozen lists sort what looks the same, and nothing is tied, so they are the same list
    intro name
    have hsame := Tuple.totalPreorder_le.eq_of_sorts (pairwise_untied_map h.identity calls) hstored
      ((Tuple.totalPreorder_le.sorts_mergeSort (stored calls)).map (List.map view)
        fun t _ u _ => le_map h.identity t u)
      ((Tuple.totalPreorder_le.sorts_mergeSort (stored calls')).map (List.map view)
        fun t _ u _ => le_map h.identity t u)
    rw [relation?_freeze_recorded hproper, relation?_freeze_recorded hproper']
    simp only [ne_eq, hnil]
    split
    · exact congrArg some hsame
    · rfl
  · have hedges : ((storedEdges calls').map (Edge.through view)).Perm
        ((storedEdges calls).map (Edge.through view)) := by
      rw [map_through_storedEdges, map_through_storedEdges]
      exact hstored.filterMap Edge.ofTuple?
    -- the view keeps the order of edges, on either side
    have hsorts : ∀ {cs : List Invocation}, Shows cs view →
        Sorts Edge.le ((storedEdges cs).map (Edge.through view))
          (((storedEdges cs).mergeSort Edge.le).map (Edge.through view)) := by
      intro cs hcs
      refine (Edge.totalPreorder_le.sorts_mergeSort (storedEdges cs)).map _ fun e he f hf => ?_
      obtain ⟨c, hc, rfl⟩ := exists_call_of_mem_storedEdges he
      obtain ⟨d, hd, rfl⟩ := exists_call_of_mem_storedEdges hf
      exact hcs.le_through hc hd
    have hsame := Edge.totalPreorder_le.eq_of_sorts h.pairwise_untied_through hedges (hsorts h)
      (hsorts (h.of_perm hperm))
    rw [project_recorded hproper, project_recorded hproper']
    simp only [ne_eq, hnil]
    split
    · exact congrArg Except.ok hsame
    · rfl

end

/-! ### Lines of methods -/

/-- The location without the line, if it is that of a method. -/
def withoutMethodLine (l : Location) : Location :=
  if l.isDeclaration then { l with line := 0 } else l

/-- `withoutMethodLine` keeps the identity. -/
private theorem identity_withoutMethodLine (l : Location) : (withoutMethodLine l).identity = l.identity := by
  unfold withoutMethodLine
  split <;> rfl

/-- Locations of methods that agree are the same `withoutMethodLine`. -/
private theorem withoutMethodLine_eq {l l' : Location} (h : NamesMethod l) (h' : NamesMethod l')
    (hsame : l.identity = l'.identity) : withoutMethodLine l = withoutMethodLine l' := by
  simp only [Location.identity, Prod.mk.injEq] at hsame
  rw [withoutMethodLine, withoutMethodLine, if_pos h.declaration, if_pos h'.declaration, hsame.1, hsame.2.1,
    hsame.2.2]

section
variable {calls : List Invocation}

/-- Places of calls that `Agree` are the same, with their lines. -/
private theorem LinesDetermined.site_eq (h : LinesDetermined Location.identity calls) {c d : Invocation}
    (hc : c ∈ calls) (hd : d ∈ calls) (hagree : Tuple.Agree c.tuple d.tuple) : c.site = d.site := by
  obtain ⟨hcaller, -, hoffset⟩ := agree_tuple_iff.1 hagree
  have hline := h c hc d hd hcaller hoffset
  simp only [Location.identity, Prod.mk.injEq] at hcaller
  rw [Invocation.site, Invocation.site, Location.ofSite, Location.ofSite, hcaller.2.1, hoffset, hline]

/-- `withoutMethodLine` is a view that `Shows` the calls, if their lines are determined by who calls. -/
theorem LinesDetermined.shows (h : LinesDetermined Location.identity calls)
    (hproper : ∀ c ∈ calls, c.IsProper) : Shows calls withoutMethodLine where
  identity := identity_withoutMethodLine
  site _ _ := rfl
  agree := by
    intro c hc d hd hagree
    -- places are the same, and what else differs is a line that the view leaves out
    have hsite := h.site_eq hc hd hagree
    obtain ⟨hcaller, hcallee, -⟩ := agree_tuple_iff.1 hagree
    simp only [Invocation.tuple, List.map_cons, List.map_nil, hsite,
      withoutMethodLine_eq (hproper c hc).caller (hproper d hd).caller hcaller,
      withoutMethodLine_eq (hproper c hc).callee (hproper d hd).callee hcallee]

/-- A location is its identity and its line. -/
private theorem location_eq {l l' : Location} (hsame : l.identity = l'.identity) (hline : l.line = l'.line) :
    l = l' := by
  obtain ⟨_, _, _, _⟩ := l
  obtain ⟨_, _, _, _⟩ := l'
  simp_all [Location.identity]

/-- Calls that `Agree` have the same tuple, if lines of methods are determined as well. -/
private theorem MethodLinesDetermined.tuple_eq (h : MethodLinesDetermined calls)
    (hlines : LinesDetermined id calls) {c d : Invocation} (hc : c ∈ calls) (hd : d ∈ calls)
    (hagree : Tuple.Agree c.tuple d.tuple) : c.tuple = d.tuple := by
  obtain ⟨hcaller, hcallee, hoffset⟩ := agree_tuple_iff.1 hagree
  obtain ⟨hcallerLine, hcalleeLine⟩ := h c hc d hd hagree
  have hsame : c.caller = d.caller := location_eq hcaller hcallerLine
  have hline := hlines c hc d hd hsame hoffset
  rw [Invocation.tuple, Invocation.tuple, Invocation.site, Invocation.site, hsame,
    location_eq hcallee hcalleeLine, hoffset, hline]

/-- Then calls can be seen as they are: `id` is a view that `Shows` them. -/
private theorem MethodLinesDetermined.shows_id (h : MethodLinesDetermined calls)
    (hlines : LinesDetermined id calls) : Shows calls id where
  identity _ := rfl
  site _ _ := rfl
  agree _ hc _ hd hagree := congrArg (List.map id) (h.tuple_eq hlines hc hd hagree)

/-- If the frozen calls do not depend on the order, then `MethodLinesDetermined`: of calls that agree, each is
    kept if it comes first. -/
private theorem methodLinesDetermined_of_perm
    (h : ∀ calls', calls'.Perm calls → (recorded calls).freeze.tuples relInvocation =
      (recorded calls').freeze.tuples relInvocation) : MethodLinesDetermined calls := by
  have hstored : ∀ c ∈ calls, c.tuple ∈ stored calls := by
    -- the call is put in front of the others
    intro c hc
    have hfirst := tuple_mem_stored_cons c (calls.erase c)
    have hsame := h _ (List.perm_cons_erase hc).symm
    rw [tuples_freeze_recorded, tuples_freeze_recorded] at hsame
    have hsorted : c.tuple ∈ (stored (c :: calls.erase c)).mergeSort Tuple.le := List.mem_mergeSort.2 hfirst
    rwa [← hsame, List.mem_mergeSort] at hsorted
  intro c hc d hd hagree
  -- no two stored tuples agree
  have heq : c.tuple = d.tuple := by
    by_contra hne
    have hsymm : Std.Symm fun t u => ¬ Tuple.Agree t u := ⟨fun _ _ hnot hsame => hnot hsame.symm⟩
    exact (pairwise_stored calls).forall (hstored c hc) (hstored d hd) hne hagree
  obtain ⟨hcaller, hrest⟩ := List.cons.inj heq
  exact ⟨congrArg Location.line hcaller, congrArg Location.line (List.cons.inj hrest).1⟩

end

/-- Stores that `LookAlike` through `id` are the same when frozen and projected. -/
theorem LookAlike.eq {s s' : Store} (h : LookAlike id s s') :
    (∀ name, s.freeze.relation? name = s'.freeze.relation? name) ∧ project s = project s' := by
  -- a view through `id` is no view
  have hthrough : Edge.through id = id := rfl
  have hmap : ∀ r : Except Failure (List Edge), r.map id = r := by
    intro r
    cases r <;> rfl
  constructor
  · intro name
    have hfrozen := h.frozen name
    simpa using hfrozen
  · have hprojected := h.projected
    rwa [hthrough, List.map_id_fun, hmap, hmap] at hprojected

/-! ### Reading calls back -/

/-- The store has recorded the calls, and gives them back in orders of its own. -/
structure ReadsBack (calls : List Invocation) (s : Store) : Prop where
  /-- The relation of calls is there as soon as there is a call, and no other one is. -/
  relation : ∀ name, (s.freeze.relation? name).isSome = true ↔ name = relInvocation ∧ calls ≠ []
  /-- Only calls are frozen, -/
  exists_call : ∀ t ∈ s.freeze.tuples relInvocation, ∃ c ∈ calls, c.tuple = t
  /-- each of them, -/
  exists_tuple : ∀ c ∈ calls, ∃ t ∈ s.freeze.tuples relInvocation, Tuple.Agree t c.tuple
  /-- once and in order, -/
  ascending : (s.freeze.tuples relInvocation).Pairwise fun t u => Tuple.cmp t u = .lt
  /-- which is the only way to sort them. -/
  frozen_of_sorts : ∀ ts, Sorts Tuple.le (s.tuples relInvocation) ts → ts = s.freeze.tuples relInvocation
  absent : calls = [] → project s = .error noInvocations
  /-- The frozen calls are projected in order, and sorting can not leave them otherwise either. -/
  projected : calls ≠ [] → ∃ edges, project s = .ok edges ∧
    edges.Perm ((s.freeze.tuples relInvocation).filterMap Edge.ofTuple?) ∧
    edges.Pairwise (fun e f => Edge.cmp e f = .lt) ∧
    ∀ es, Sorts Edge.le ((s.tuples relInvocation).filterMap Edge.ofTuple?) es → es = edges
  /-- It makes no difference whether the store is frozen. -/
  project_freeze : project s.freeze = project s

/-- A store `ReadsBack` the calls that were recorded in it. -/
private theorem readsBack_recorded {calls : List Invocation} (hproper : ∀ c ∈ calls, c.IsProper) :
    ReadsBack calls (recorded calls) := by
  -- freezing only sorts what is stored
  have hmem : ∀ t, t ∈ (recorded calls).freeze.tuples relInvocation ↔ t ∈ stored calls := by
    intro t
    rw [tuples_freeze_recorded, List.mem_mergeSort]
  have hsorts := Tuple.totalPreorder_le.sorts_mergeSort (stored calls)
  have hedges := Edge.totalPreorder_le.sorts_mergeSort (storedEdges calls)
  constructor
  case relation =>
    intro name
    rw [relation?_freeze_recorded hproper]
    split <;> simp [*]
  case exists_call =>
    intro t ht
    exact exists_call_of_mem_stored ((hmem t).1 ht)
  case exists_tuple =>
    intro c hc
    obtain ⟨t, ht, hagree⟩ := exists_agree_of_mem hproper hc
    exact ⟨t, (hmem t).2 ht, hagree⟩
  case ascending =>
    rw [tuples_freeze_recorded]
    exact hsorts.pairwise_lt (pairwise_untied_stored calls)
  case frozen_of_sorts =>
    intro ts hts
    -- no two stored tuples are tied, so that all sorts agree
    rw [tuples_freeze_recorded]
    exact Tuple.totalPreorder_le.eq_of_sorts (pairwise_untied_stored calls) (List.Perm.refl _) hts hsorts
  case absent =>
    intro hnil
    rw [project_recorded hproper, if_neg (not_not_intro hnil)]
  case projected =>
    intro hne
    refine ⟨_, by rw [project_recorded hproper, if_pos hne], ?_, ?_, fun es hes => ?_⟩
    · rw [tuples_freeze_recorded]
      exact hedges.perm.trans (hsorts.perm.symm.filterMap Edge.ofTuple?)
    · exact hedges.pairwise_lt (pairwise_untied_storedEdges calls)
    · exact Edge.totalPreorder_le.eq_of_sorts (pairwise_untied_storedEdges calls) (List.Perm.refl _) hes hedges
  case project_freeze => exact project_freeze_recorded hproper

/-- In whatever order calls are recorded, all of them are accepted and read back (`ReadsBack`). The frozen store
    and the projected edges are the same in every order exactly if calls that agree have methods with the same
    lines (`MethodLinesDetermined`). Should they have others, which of these are kept depends on the order, and
    nothing else does as long as the places of calls have their lines from the callers. -/
theorem frozen_and_projected_of_perm {calls : List Invocation} (hproper : ∀ c ∈ calls, c.IsProper)
    (hlines : LinesDetermined id calls) :
    (∀ calls', calls'.Perm calls →
      (∀ entry ∈ answers .empty ((calls'.map Invocation.tuple).map (.add relInvocation)),
        entry.2 = .ok ()) ∧
      ReadsBack calls' (recorded calls') ∧
      (LinesDetermined Location.identity calls →
        LookAlike withoutMethodLine (recorded calls) (recorded calls'))) ∧
    (MethodLinesDetermined calls ↔ ∀ calls', calls'.Perm calls →
      (∀ name, (recorded calls).freeze.relation? name = (recorded calls').freeze.relation? name) ∧
      project (recorded calls) = project (recorded calls')) := by
  refine ⟨fun calls' hperm => ⟨?_, ?_, fun hsites => ?_⟩, fun hmethods calls' hperm => ?_, fun hsame => ?_⟩
  · exact ((Store.OnlyHas.of_empty relInvocation 3).adds length_of_mem_tuples).2.1
  · exact readsBack_recorded fun c hc => hproper c (hperm.mem_iff.1 hc)
  · exact (hsites.shows hproper).lookAlike hproper hperm
  · exact ((hmethods.shows_id hlines).lookAlike hproper hperm).eq
  · refine methodLinesDetermined_of_perm fun calls' hperm => ?_
    rw [Store.tuples, Store.tuples, (hsame calls' hperm).1]

/-- Calls of a method and of a constructor with the same path, of which two stand on one line and one is there
    twice. -/
def sameLineCalls : List Invocation :=
  [⟨⟨"java+method", "/A/A()", -1, 4⟩, ⟨"java+method", "/B/g()", -1, 0⟩, 7, 3⟩,
   ⟨⟨"java+method", "/A/A()", -1, 4⟩, ⟨"java+method", "/B/f()", -1, 0⟩, 7, 3⟩,
   ⟨⟨"java+method", "/A/A()", -1, 4⟩, ⟨"java+method", "/B/g()", -1, 0⟩, 2, 3⟩,
   ⟨⟨"java+constructor", "/A/A()", -1, 0⟩, ⟨"java+method", "/B/g()", -1, 0⟩, 7, 9⟩,
   ⟨⟨"java+method", "/A/A()", -1, 4⟩, ⟨"java+method", "/B/g()", -1, 0⟩, 7, 3⟩]

/-- `frozen_and_projected_of_perm` on `sameLineCalls` and the same in reverse. -/
theorem frozen_and_projected_sameLineCalls :
    (∀ c ∈ sameLineCalls, c.IsProper) ∧ LinesDetermined id sameLineCalls ∧
      ReadsBack sameLineCalls.reverse (recorded sameLineCalls.reverse) ∧
      (recorded sameLineCalls).freeze.relation? relInvocation =
        (recorded sameLineCalls.reverse).freeze.relation? relInvocation ∧
      project (recorded sameLineCalls) = project (recorded sameLineCalls.reverse) := by
  have hproper : ∀ c ∈ sameLineCalls, c.IsProper := by decide
  have hlines : LinesDetermined id sameLineCalls := by decide
  have hmethods : MethodLinesDetermined sameLineCalls := by decide
  obtain ⟨hread, hiff⟩ := frozen_and_projected_of_perm hproper hlines
  have hperm := List.reverse_perm sameLineCalls
  obtain ⟨hfrozen, hprojected⟩ := hiff.1 hmethods _ hperm
  exact ⟨hproper, hlines, (hread _ hperm).2.1, hfrozen relInvocation, hprojected⟩

/-- One call, recorded with two lines of its caller. -/
def linedCalls : List Invocation :=
  [⟨⟨"java+method", "/A/f()", -1, 1⟩, ⟨"java+method", "/B/g()", -1, 0⟩, 0, 5⟩,
   ⟨⟨"java+method", "/A/f()", -1, 2⟩, ⟨"java+method", "/B/g()", -1, 0⟩, 0, 5⟩]

/-- Which line of the caller is frozen and projected depends on the order, as `linedCalls` shows. -/
theorem frozen_differs_linedCalls :
    (∀ c ∈ linedCalls, c.IsProper) ∧ LinesDetermined id linedCalls ∧
      linedCalls.reverse.Perm linedCalls ∧
      (recorded linedCalls).freeze.relation? relInvocation ≠
        (recorded linedCalls.reverse).freeze.relation? relInvocation ∧
      project (recorded linedCalls) ≠ project (recorded linedCalls.reverse) := by
  have hproper : ∀ c ∈ linedCalls, c.IsProper := by decide
  have hproper' : ∀ c ∈ linedCalls.reverse, c.IsProper := by decide
  -- of calls with one key the first is stored, in either order
  have hstored : stored linedCalls = [linedCalls[0].tuple] :=
    stored_eq_singleton (tuple_mem_stored_cons linedCalls[0] [linedCalls[1]]) (by decide)
  have hstored' : stored linedCalls.reverse = [linedCalls[1].tuple] :=
    stored_eq_singleton (tuple_mem_stored_cons linedCalls[1] [linedCalls[0]]) (by decide)
  refine ⟨hproper, by decide, List.reverse_perm _, ?_, ?_⟩
  · rw [relation?_freeze_recorded hproper, relation?_freeze_recorded hproper', hstored, hstored',
      List.mergeSort_singleton, List.mergeSort_singleton]
    decide
  · rw [project_recorded hproper, project_recorded hproper', storedEdges, storedEdges, hstored, hstored']
    simp [Edge.ofTuple?, Invocation.tuple, linedCalls]

end CallGraph
end CallAtlas
