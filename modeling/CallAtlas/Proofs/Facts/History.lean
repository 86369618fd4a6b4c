import CallAtlas.Proofs.Facts.Order
import CallAtlas.Proofs.Facts.Recording
import CallAtlas.Proofs.Result

/-!
# Histories of a store

A new store is declared relations, given tuples and frozen, in any order and however often, and answers
each of these calls. The calls are carried out in place (`Edit`), so that a call that is refused half way
would leave its traces; that it leaves none is `run_perform`.

What one call can do is said by `get?_next`; all that holds after a history (`WriteOnce`) follows from it
call by call. Tuples are told apart by their keys, which are texts. For locations as a program has them
(`Location.IsProper`) this comes to the same as telling them apart part by part
(`Tuple.agree_of_key_eq`).
-/

namespace CallAtlas

/-! ### Locations that are told apart by their texts -/

namespace Location

/-- The schemes that locations have. -/
def schemes : List String :=
  [schemeMethod, schemeConstructor, schemeInitializer, schemeClass, schemeInterface, schemeInvocation,
    schemeUnit]

/-- The location has one of the schemes, a path without the character that closes locations in a key, and a
    position exactly if it is a call. -/
structure IsProper (l : Location) : Prop where
  scheme : l.scheme ∈ schemes
  path : l.IsPlain
  offset : l.scheme = schemeInvocation ∧ 0 ≤ l.offset ∨
    l.scheme ≠ schemeInvocation ∧ l.offset = noOffset

instance (l : Location) : Decidable l.IsProper :=
  decidable_of_iff (l.scheme ∈ schemes ∧ l.IsPlain ∧ (l.scheme = schemeInvocation ∧ 0 ≤ l.offset ∨
      l.scheme ≠ schemeInvocation ∧ l.offset = noOffset))
    ⟨fun h => ⟨h.1, h.2.1, h.2.2⟩, fun h => ⟨h.scheme, h.path, h.offset⟩⟩

/-- No scheme of `schemes` holds the colon or the `mark`, the characters that cut texts of locations. -/
theorem notMem_of_mem_schemes : ∀ s ∈ schemes, ':' ∉ s.toList ∧ mark ∉ s.toList := by
  decide

/-- The `text` of a location that `IsProper` does not hold the `mark`, since neither its scheme nor its path
    does. -/
theorem IsProper.notMem_text {l : Location} (h : l.IsProper) : mark ∉ l.text.toList :=
  h.path.notMem_text (notMem_of_mem_schemes _ h.scheme).2

/-- The `text` of a location that `IsProper` tells its `identity`: scheme, path and position. -/
private theorem IsProper.identity_eq {l l' : Location} (h : l.IsProper) (h' : l'.IsProper)
    (htext : l.text = l'.text) : l.identity = l'.identity := by
  have hchars := congrArg String.toList htext
  rw [toList_text, toList_text] at hchars
  -- no scheme has a colon, so the first one ends it
  obtain ⟨hscheme, hrest⟩ := Text.cut_first (notMem_of_mem_schemes _ h.scheme).1
    (notMem_of_mem_schemes _ h'.scheme).1 hchars
  have hscheme : l.scheme = l'.scheme := String.toList_inj.1 hscheme
  have htail : l.path.toList ++ offsetText l.offset = l'.path.toList ++ offsetText l'.offset := by
    simpa using hrest
  suffices hsame : l.path.toList = l'.path.toList ∧ l.offset = l'.offset by
    simp only [identity, hscheme, String.toList_inj.1 hsame.1, hsame.2]
  rcases h.offset with ⟨hcall, hnonneg⟩ | ⟨hother, hnone⟩
  · -- a path may hold the character before a position, but digits do not: the last one counts
    rcases h'.offset with ⟨_, hnonneg'⟩ | ⟨hother', _⟩
    · rw [offsetText, offsetText, if_pos hnonneg, if_pos hnonneg'] at htail
      obtain ⟨hpath, hdigits⟩ := Text.cut_last (notMem_toDigits (by decide) _)
        (notMem_toDigits (by decide) _) htail
      have hnat := toDigits_inj hdigits
      exact ⟨hpath, by omega⟩
    · exact absurd (hscheme.symm.trans hcall) hother'
  · rcases h'.offset with ⟨hcall', _⟩ | ⟨_, hnone'⟩
    · exact absurd (hscheme.trans hcall') hother
    · rw [hnone, hnone'] at htail
      exact ⟨List.append_cancel_right htail, hnone.trans hnone'.symm⟩

end Location

/-- Tuples with one `key` `Agree`, if all their locations are such as a program has (`Location.IsProper`). -/
theorem Tuple.agree_of_key_eq {t u : Tuple} (ht : ∀ l ∈ t, l.IsProper) (hu : ∀ l ∈ u, l.IsProper)
    (h : t.key = u.key) : Agree t u := by
  have htexts := text_eq_of_key_eq (fun l hl => (ht l hl).notMem_text) (fun l hl => (hu l hl).notMem_text) h
  clear h
  unfold Agree
  -- the locations are compared one by one, both tuples having the same texts in the same order
  induction t generalizing u with
  | nil => rw [List.map_eq_nil_iff.1 htexts.symm]
  | cons l t ih =>
    obtain ⟨l', u, rfl, htext, hrest⟩ := List.map_eq_cons_iff.1 htexts.symm
    have hhead := (ht l List.mem_cons_self).identity_eq (hu l' List.mem_cons_self) htext.symm
    have htail := ih (fun x hx => ht x (List.mem_cons_of_mem l hx))
      (fun x hx => hu x (List.mem_cons_of_mem l' hx)) hrest.symm
    rw [List.map_cons, List.map_cons, hhead, htail]

namespace Facts

/-! ### Calls in place -/

/-- A change in place: what it did before it is refused stays done. -/
abbrev Edit : Type → Type :=
  EStateM Problem Store

namespace Edit

/-- Adds a relation without tuples, unless it is there. -/
def declare (name : String) (arity : Int) : Edit Unit := do
  if (← get).isFrozen then throw .frozen
  match (← get).get? name with
  | some r => if r.arity ≠ arity then throw (.arity name r.arity arity)
  | none => modify fun s => { s with relations := s.relations ++ [.empty name arity] }

/-- Adds a tuple to a relation, which is declared first. -/
def add (name : String) (t : Tuple) : Edit Unit := do
  declare name t.length
  modify fun s =>
    { s with relations := s.relations.map fun r => if r.name == name then r.insert t else r }

/-- Puts the relations in ascending order and closes the store. -/
def freeze : Edit Unit :=
  modify Store.freeze

end Edit

/-- A call that changes a store. -/
inductive Operation where
  | declare (name : String) (arity : Int)
  | add (name : String) (t : Tuple)
  | freeze
  deriving DecidableEq

namespace Operation

/-- Carries a call out in place. -/
def perform : Operation → Edit Unit
  | declare name arity => Edit.declare name arity
  | add name t => Edit.add name t
  | freeze => Edit.freeze

/-- What a store answers to a call. -/
def answer (op : Operation) (s : Store) : Except Problem Unit :=
  match op.perform.run s with
  | .ok _ _ => .ok ()
  | .error p _ => .error p

/-- The store that a call leaves. -/
def next (op : Operation) (s : Store) : Store :=
  match op.perform.run s with
  | .ok _ s' => s'
  | .error _ s' => s'

/-- The new store that a call comes to, or why it is refused. -/
def outcome (op : Operation) (s : Store) : Except Problem Store :=
  match op with
  | declare name arity => s.declare name arity
  | add name t => s.add name t
  | freeze => .ok s.freeze

/-- The locations of the call are such as a program has. -/
def IsProper : Operation → Prop
  | declare _ _ => True
  | add _ t => ∀ l ∈ t, l.IsProper
  | freeze => True

instance : DecidablePred IsProper
  | declare _ _ => inferInstanceAs (Decidable True)
  | add _ t => inferInstanceAs (Decidable (∀ l ∈ t, l.IsProper))
  | freeze => inferInstanceAs (Decidable True)

end Operation

/-- What a change in place comes to, `s` being the store before: a refused one leaves `s`. -/
def settled (s : Store) : Except Problem Store → EStateM.Result Problem Store Unit
  | .ok s' => .ok () s'
  | .error p => .error p s

/-- `Edit.declare` in place comes to what `Store.declare` gives: it checks everything before it changes the
    store. -/
private theorem run_declare (name : String) (arity : Int) (s : Store) :
    (Edit.declare name arity).run s = settled s (s.declare name arity) := by
  unfold Edit.declare Store.declare
  -- the three ways out of the call: the store is closed, the name is new, or the relation is there already
  by_cases hfrozen : s.isFrozen = true
  · simp [hfrozen, settled]
  · cases hget : s.get? name with
    | none => simp [hfrozen, hget, settled]
    | some r =>
      by_cases harity : r.arity = arity
      · simp [hfrozen, hget, harity, settled]
      · simp [hfrozen, hget, harity, settled]

/-- `Edit.add` in place comes to what `Store.add` gives: it can only be refused by the declaration that goes
    before. -/
private theorem run_add (name : String) (t : Tuple) (s : Store) :
    (Edit.add name t).run s = settled s (s.add name t) := by
  have hdeclare := run_declare name t.length s
  unfold Edit.add Store.add
  cases hresult : s.declare name t.length with
  | error p =>
    -- a declaration that is refused leaves the store alone
    rw [hresult] at hdeclare
    rw [EStateM.run_bind, hdeclare]
    rfl
  | ok s' =>
    rw [hresult] at hdeclare
    rw [EStateM.run_bind, hdeclare]
    rfl

/-- `perform` in place comes to `outcome`, and a refused call leaves the store as it was (`settled`). -/
theorem run_perform (op : Operation) (s : Store) : op.perform.run s = settled s (op.outcome s) := by
  cases op with
  | declare name arity => exact run_declare name arity s
  | add name t => exact run_add name t s
  | freeze => rfl

namespace Operation

variable {op : Operation} {s s' : Store}

/-- A call whose `outcome` is a store is answered with success, and that store is the `next` one. -/
theorem of_outcome_ok (h : op.outcome s = .ok s') : op.answer s = .ok () ∧ op.next s = s' := by
  simp only [answer, next, run_perform, h, settled, and_self]

/-- A call whose `outcome` is a problem is answered with it, and the `next` store is the old one. -/
private theorem of_outcome_error {p : Problem} (h : op.outcome s = .error p) :
    op.answer s = .error p ∧ op.next s = s := by
  simp only [answer, next, run_perform, h, settled, and_self]

end Operation

/-! ### What one call can do -/

namespace Relation

/-- `insert` puts a tuple with a new key at the end. -/
private theorem tuples_insert_of_notMem {r : Relation} {t : Tuple} (h : t.key ∉ r.keys) :
    (r.insert t).tuples = r.tuples ++ [t] := by
  rw [insert, if_neg (fun hc => h (Std.HashSet.mem_iff_contains.2 hc))]
  simp [tuples]

/-- `insert` takes no tuple away. -/
private theorem mem_tuples_insert_of_mem {r : Relation} {t u : Tuple} (hu : u ∈ r.tuples) :
    u ∈ (r.insert t).tuples := by
  by_cases h : t.key ∈ r.keys
  · rw [insert_of_mem h]
    exact hu
  · rw [tuples_insert_of_notMem h]
    exact List.mem_append_left _ hu

/-- `insert` keeps the arity. -/
theorem arity_insert (r : Relation) (t : Tuple) : (r.insert t).arity = r.arity := by
  unfold insert
  split <;> rfl

end Relation

namespace Store

/-- The relation that a call works on: the one with its name, or a new one. -/
def target (s : Store) (name : String) (arity : Int) : Relation :=
  (s.get? name).getD (.empty name arity)

/-- Both stores are open, and they differ in the relation of one name only. -/
structure Replaced (s s' : Store) (name : String) (r : Relation) : Prop where
  before_open : s.isFrozen = false
  after_open : s'.isFrozen = false
  get?_eq : ∀ n, s'.get? n = if n = name then some r else s.get? n

/-- `get?` after a change of all relations that does not rename any is the changed relation of that name. -/
private theorem get?_map (s : Store) (frozen : Bool) {f : Relation → Relation}
    (hf : ∀ r, (f r).name = r.name) (name : String) :
    get? ⟨s.relations.map f, frozen⟩ name = (s.get? name).map f := by
  have hname : (fun r : Relation => r.name == name) ∘ f = fun r => r.name == name := by
    funext r
    simp [hf]
  rw [get?, List.find?_map, hname]
  rfl

/-- `get?` finds a relation under its own name. -/
theorem name_of_get? {s : Store} {name : String} {r : Relation} (h : s.get? name = some r) :
    r.name = name := by
  simpa using List.find?_some h

/-- `declare` succeeds on an open store only, whose `target` for the name has the right arity, and puts that
    `target` under the name. -/
private theorem of_declare {s s' : Store} {name : String} {arity : Int} (h : s.declare name arity = .ok s') :
    (s.target name arity).arity = arity ∧ s.Replaced s' name (s.target name arity) := by
  unfold declare at h
  by_cases hfrozen : s.isFrozen = true
  · simp [hfrozen] at h
  · rw [if_neg hfrozen] at h
    rw [Bool.not_eq_true] at hfrozen
    cases hget : s.get? name with
    | some r =>
      -- the relation is there, and nothing changes but what is checked
      rw [hget] at h
      by_cases harity : r.arity = arity
      · simp only [harity, if_true, Except.ok.injEq] at h
        subst h
        refine ⟨by simp [target, hget, harity], hfrozen, hfrozen, fun n => ?_⟩
        by_cases hn : n = name
        · simp [hn, target, hget]
        · simp [hn]
      · simp [harity] at h
    | none =>
      -- the new relation stands at the end, behind all that have other names
      simp only [hget, Except.ok.injEq] at h
      subst h
      refine ⟨by simp [target, hget, Relation.empty], hfrozen, hfrozen, fun n => ?_⟩
      have hfind : s.relations.find? (fun r => r.name == name) = none := hget
      by_cases hn : n = name
      · simp [hn, get?, target, hfind, Relation.empty]
      · simp [hn, get?, Relation.empty, Ne.symm hn]

/-- `add` succeeds if `declare` with the length of the tuple does, and inserts the tuple into the `target`. -/
theorem of_add {s s' : Store} {name : String} {t : Tuple} (h : s.add name t = .ok s') :
    (s.target name t.length).arity = t.length ∧
      s.Replaced s' name ((s.target name t.length).insert t) := by
  unfold add at h
  obtain ⟨d, hd, h⟩ := Result.bind_eq_ok.1 h
  obtain ⟨harity, hreplaced⟩ := of_declare hd
  rw [Result.pure_eq_ok] at h
  subst h
  refine ⟨harity, hreplaced.before_open, hreplaced.after_open, fun n => ?_⟩
  -- inserting keeps the names under which relations are found
  have hname : ∀ r : Relation, (if r.name == name then r.insert t else r).name = r.name := by
    intro r
    split
    · exact Relation.name_insert r t
    · rfl
  rw [get?_map d d.isFrozen hname, hreplaced.get?_eq]
  by_cases hn : n = name
  · subst hn
    -- the relation was found under its name, so it is the one that takes the tuple
    have htarget : (s.target n t.length).name = n := by
      refine name_of_get? (s := d) ?_
      rw [hreplaced.get?_eq, if_pos rfl]
    simp [htarget]
  · cases hget : s.get? n with
    | none => simp [hn]
    | some r => simp [hn, name_of_get? hget]

/-- `freeze` of an open store sorts the relation under each name. -/
theorem get?_freeze {s : Store} (h : s.isFrozen = false) (name : String) :
    s.freeze.get? name = (s.get? name).map Relation.sorted := by
  rw [freeze, h]
  exact get?_map s true (f := Relation.sorted) (fun _ => rfl) name

/-- `freeze` leaves a frozen store as it is. -/
private theorem freeze_of_isFrozen {s : Store} (h : s.isFrozen = true) : s.freeze = s := by
  rw [freeze, if_pos h]

/-- After `freeze` a store is frozen. -/
private theorem isFrozen_freeze (s : Store) : s.freeze.isFrozen = true := by
  unfold freeze
  split
  · assumption
  · rfl

end Store

/-- A call is refused and `next` is the old store, or it is answered with success and a relation is declared, or
    takes a tuple, or the store is frozen. -/
theorem next_cases (op : Operation) (s : Store) :
    (∃ p, op.answer s = .error p ∧ op.next s = s) ∨ op.answer s = .ok () ∧
      ((∃ name arity, op = .declare name arity ∧ (s.target name arity).arity = arity ∧
          s.Replaced (op.next s) name (s.target name arity)) ∨
        (∃ name t, op = .add name t ∧ (s.target name t.length).arity = t.length ∧
          s.Replaced (op.next s) name ((s.target name t.length).insert t)) ∨
        op = .freeze ∧ op.next s = s.freeze) := by
  cases hresult : op.outcome s with
  | error p => exact .inl ⟨p, Operation.of_outcome_error hresult⟩
  | ok s' =>
    obtain ⟨hanswer, hnext⟩ := Operation.of_outcome_ok hresult
    rw [hnext]
    refine .inr ⟨hanswer, ?_⟩
    -- each call that succeeds has one spec lemma
    cases op with
    | declare name arity => exact .inl ⟨name, arity, rfl, Store.of_declare hresult⟩
    | add name t => exact .inr (.inl ⟨name, t, rfl, Store.of_add hresult⟩)
    | freeze => exact .inr (.inr ⟨rfl, (Except.ok.inj hresult).symm⟩)

/-- The step lemma: what a call does to the relation that `get?` finds under one name. It is kept, or the call
    declares it, gives it a tuple, or puts it in order. -/
theorem get?_next (op : Operation) (s : Store) (name : String) :
    (op.next s).get? name = s.get? name ∨
    op.answer s = .ok () ∧ ∃ r, (op.next s).get? name = some r ∧
      ((∃ arity, op = .declare name arity ∧ r = s.target name arity ∧ r.arity = arity) ∨
        (∃ t, op = .add name t ∧ r = (s.target name t.length).insert t ∧ r.arity = t.length) ∨
        op = .freeze ∧ ∃ q, s.get? name = some q ∧ r = q.sorted) := by
  rcases next_cases op s with ⟨p, -, hnext⟩ | ⟨hanswer, hcase⟩
  · exact .inl (by rw [hnext])
  · rcases hcase with ⟨n, a, hop, harity, hreplaced⟩ | ⟨n, t, hop, harity, hreplaced⟩ | ⟨hop, hnext⟩
    · -- a declaration under this name or another
      have hget := hreplaced.get?_eq name
      by_cases hn : name = n
      · subst hn
        rw [if_pos rfl] at hget
        exact .inr ⟨hanswer, _, hget, .inl ⟨a, hop, rfl, harity⟩⟩
      · rw [if_neg hn] at hget
        exact .inl hget
    · -- a tuple for this relation or another
      have hget := hreplaced.get?_eq name
      by_cases hn : name = n
      · subst hn
        rw [if_pos rfl] at hget
        have harity' := (Relation.arity_insert (s.target name t.length) t).trans harity
        exact .inr ⟨hanswer, _, hget, .inr (.inl ⟨t, hop, rfl, harity'⟩)⟩
      · rw [if_neg hn] at hget
        exact .inl hget
    · -- freezing sorts, but for a store that was frozen before
      by_cases hfrozen : s.isFrozen = true
      · exact .inl (by rw [hnext, Store.freeze_of_isFrozen hfrozen])
      · rw [Bool.not_eq_true] at hfrozen
        have hget := Store.get?_freeze hfrozen name
        cases hq : s.get? name with
        | none => exact .inl (by rw [hnext, hget, hq]; rfl)
        | some q =>
          rw [hq] at hget
          exact .inr ⟨hanswer, q.sorted, hnext ▸ hget, .inr (.inr ⟨hop, q, rfl, rfl⟩)⟩

/-- A frozen store is its own `next` one: it refuses everything but to be frozen, which it is. -/
private theorem next_of_isFrozen {s : Store} (h : s.isFrozen = true) (op : Operation) : op.next s = s := by
  rcases next_cases op s with ⟨p, -, hnext⟩ | ⟨-, hcase⟩
  · exact hnext
  · rcases hcase with ⟨name, arity, -, -, hreplaced⟩ | ⟨name, t, -, -, hreplaced⟩ | ⟨-, hnext⟩
    · exact absurd (hreplaced.before_open.symm.trans h) Bool.false_ne_true
    · exact absurd (hreplaced.before_open.symm.trans h) Bool.false_ne_true
    · rw [hnext, Store.freeze_of_isFrozen h]

/-- Only `freeze` makes the `next` store of an open one frozen. -/
private theorem eq_freeze_of_isFrozen_next {op : Operation} {s : Store} (h : s.isFrozen = false)
    (hnext : (op.next s).isFrozen = true) : op = .freeze ∧ op.next s = s.freeze := by
  rcases next_cases op s with ⟨p, -, hsame⟩ | ⟨-, hcase⟩
  · rw [hsame, h] at hnext
    exact nomatch hnext
  · rcases hcase with ⟨name, arity, -, -, hreplaced⟩ | ⟨name, t, -, -, hreplaced⟩ | hfreeze
    · exact absurd (hreplaced.after_open.symm.trans hnext) Bool.false_ne_true
    · exact absurd (hreplaced.after_open.symm.trans hnext) Bool.false_ne_true
    · exact hfreeze

/-! ### What every call keeps -/

namespace Relation

/-- All tuples have the arity of the relation, and no two of them have one key. -/
structure Sound (r : Relation) : Prop where
  arity : ∀ t ∈ r.tuples, (t.length : Int) = r.arity
  keys : r.tuples.Pairwise fun t u => t.key ≠ u.key

/-- The empty relation is `Sound`. -/
theorem sound_empty (name : String) (arity : Int) : (empty name arity).Sound :=
  ⟨fun _ h => absurd h List.not_mem_nil, List.Pairwise.nil⟩

/-- `insert` keeps a relation `Sound` if the tuple has its arity. -/
theorem Sound.insert {r : Relation} (h : r.Sound) {t : Tuple} (ht : (r.insert t).arity = t.length) :
    (r.insert t).Sound := by
  rw [arity_insert] at ht
  by_cases hkey : t.key ∈ r.keys
  · rw [insert_of_mem hkey]
    exact h
  · -- a new tuple: the arity is checked for it alone, its key against all that were there
    constructor
    · intro u hu
      rw [arity_insert]
      rcases mem_tuples_insert hu with hu | rfl
      · exact h.arity u hu
      · exact ht.symm
    · rw [tuples_insert_of_notMem hkey, List.pairwise_append]
      refine ⟨h.keys, List.pairwise_singleton _ t, fun u hu v hv => ?_⟩
      rw [List.mem_singleton.1 hv]
      intro heq
      exact hkey ((r.mem_keys _).2 ⟨u, Array.mem_toList_iff.1 hu, heq⟩)

/-- The tuples of `sorted` are those of the relation, sorted by `Tuple.le`. -/
theorem tuples_sorted (r : Relation) : r.sorted.tuples = r.tuples.mergeSort Tuple.le := by
  simp [sorted, tuples]

/-- `sorted` keeps a relation `Sound`, since both parts of it hold of tuples in any order. -/
theorem Sound.sorted {r : Relation} (h : r.Sound) : r.sorted.Sound := by
  have hperm : r.sorted.tuples.Perm r.tuples := by
    rw [tuples_sorted]
    exact List.mergeSort_perm _ _
  constructor
  · intro t ht
    exact h.arity t (hperm.mem_iff.1 ht)
  · exact (hperm.pairwise_iff fun hne => hne.symm).2 h.keys

end Relation

namespace Store

/-- Every relation is sound, and in ascending order once the store is frozen. -/
structure Sound (s : Store) : Prop where
  relation : ∀ name r, s.get? name = some r → r.Sound
  ascending : s.isFrozen = true → ∀ name r, s.get? name = some r →
    r.tuples.Pairwise fun t u => Tuple.le t u = true

/-- The empty store is `Sound`. -/
theorem sound_empty : empty.Sound :=
  ⟨fun _ _ h => (nomatch h), fun h => (nomatch h)⟩

/-- The `target` of a call in a `Sound` store is sound, whether it is there or new. -/
theorem Sound.target {s : Store} (h : s.Sound) (name : String) (arity : Int) :
    (s.target name arity).Sound := by
  unfold Store.target
  cases hget : s.get? name with
  | none => exact Relation.sound_empty name arity
  | some r => exact h.relation name r hget

/-- Every call keeps a store `Sound`: the step of the invariant. -/
theorem Sound.next {s : Store} (h : s.Sound) (op : Operation) : (op.next s).Sound := by
  -- `get?_next` leaves one case for each change of a relation
  constructor
  · intro name r hr
    rcases get?_next op s name with hsame | ⟨-, r', hr', hcase⟩
    · rw [hsame] at hr
      exact h.relation name r hr
    · obtain rfl : r' = r := Option.some.inj (hr'.symm.trans hr)
      rcases hcase with ⟨a, -, rfl, -⟩ | ⟨t, -, rfl, harity⟩ | ⟨-, q, hq, rfl⟩
      · exact h.target name a
      · exact (h.target name t.length).insert harity
      · exact (h.relation name q hq).sorted
  · -- the order can only get lost while the store is open, and freezing restores it
    intro hfrozen name r hr
    by_cases hs : s.isFrozen = true
    · rw [next_of_isFrozen hs] at hr
      exact h.ascending hs name r hr
    · rw [Bool.not_eq_true] at hs
      obtain ⟨-, hnext⟩ := eq_freeze_of_isFrozen_next hs hfrozen
      rw [hnext, get?_freeze hs] at hr
      obtain ⟨q, -, rfl⟩ := Option.map_eq_some_iff.1 hr
      rw [Relation.tuples_sorted]
      exact Tuple.totalPreorder_le.pairwise_mergeSort q.tuples

/-- `tuples` under a name are those of the relation that `get?` finds. -/
theorem tuples_of_get? {s : Store} {name : String} {r : Relation} (h : s.get? name = some r) :
    s.tuples name = r.tuples := by
  rw [tuples, relation?, h]
  rfl

/-- What holds along the tuples of every relation that `get?` finds holds along `tuples`, also if there is
    none. -/
theorem pairwise_tuples {s : Store} {name : String} {p : Tuple → Tuple → Prop}
    (h : ∀ r, s.get? name = some r → r.tuples.Pairwise p) : (s.tuples name).Pairwise p := by
  cases hget : s.get? name with
  | none =>
    rw [tuples, relation?, hget]
    exact List.Pairwise.nil
  | some r =>
    rw [tuples_of_get? hget]
    exact h r hget

/-- Stores with the same relation under a name have the same `tuples` there. -/
private theorem tuples_congr {s s' : Store} {name : String} (h : s'.get? name = s.get? name) :
    s'.tuples name = s.tuples name := by
  rw [tuples, tuples, relation?, relation?, h]

/-- The `target` of a name holds the `tuples` under it. -/
theorem tuples_target (s : Store) (name : String) (arity : Int) :
    (s.target name arity).tuples = s.tuples name := by
  rw [target, tuples, relation?]
  cases s.get? name <;> rfl

end Store

namespace Operation

variable {op : Operation} {s : Store} {name : String} {t : Tuple}

/-- A tuple that is there in the `next` store was there before, or the call has added it. -/
theorem mem_or_added (h : t ∈ (op.next s).tuples name) :
    t ∈ s.tuples name ∨ op = .add name t ∧ op.answer s = .ok () := by
  rcases get?_next op s name with hsame | ⟨hanswer, r, hr, hcase⟩
  · rw [Store.tuples_congr hsame] at h
    exact .inl h
  · rw [Store.tuples_of_get? hr] at h
    -- by what has happened to the relation: declared, with a tuple more, or sorted
    rcases hcase with ⟨a, -, rfl, -⟩ | ⟨u, rfl, rfl, -⟩ | ⟨-, q, hq, rfl⟩
    · rw [Store.tuples_target] at h
      exact .inl h
    · rcases Relation.mem_tuples_insert h with h | rfl
      · rw [Store.tuples_target] at h
        exact .inl h
      · exact .inr ⟨rfl, hanswer⟩
    · rw [Store.tuples_of_get? hq]
      exact .inl (Relation.mem_tuples_sorted.1 h)

/-- No call takes a tuple away: what is there is there in the `next` store. -/
private theorem mem_next (h : t ∈ s.tuples name) (op : Operation) : t ∈ (op.next s).tuples name := by
  rcases get?_next op s name with hsame | ⟨-, r, hr, hcase⟩
  · rw [Store.tuples_congr hsame]
    exact h
  · rw [Store.tuples_of_get? hr]
    -- declaring keeps the tuples, inserting adds to them, sorting moves them
    rcases hcase with ⟨a, -, rfl, -⟩ | ⟨u, -, rfl, -⟩ | ⟨-, q, hq, rfl⟩
    · rw [Store.tuples_target]
      exact h
    · rw [← Store.tuples_target s name u.length] at h
      exact Relation.mem_tuples_insert_of_mem h
    · rw [Store.tuples_of_get? hq] at h
      exact Relation.mem_tuples_sorted.2 h

/-- No call changes the arity of a relation that `get?` finds. -/
private theorem arity_next {r : Relation} (h : s.get? name = some r) (op : Operation) :
    ∃ r', (op.next s).get? name = some r' ∧ r'.arity = r.arity := by
  -- the relation is there, so it is the target of any call under its name
  have htarget : ∀ a, s.target name a = r := by
    intro a
    rw [Store.target, h]
    rfl
  rcases get?_next op s name with hsame | ⟨-, r', hr', hcase⟩
  · exact ⟨r, hsame.trans h, rfl⟩
  · refine ⟨r', hr', ?_⟩
    rcases hcase with ⟨a, -, rfl, -⟩ | ⟨u, -, rfl, -⟩ | ⟨-, q, hq, rfl⟩
    · rw [htarget]
    · rw [htarget, Relation.arity_insert]
    · rw [Option.some.inj (hq.symm.trans h)]
      rfl

/-- After an `add` that is answered with success, a tuple with the `key` of the added one is there. -/
theorem exists_key_of_added (h : (Operation.add name t).answer s = .ok ()) :
    ∃ u ∈ ((Operation.add name t).next s).tuples name, u.key = t.key := by
  rcases next_cases (.add name t) s with ⟨p, hanswer, -⟩ | ⟨-, hcase⟩
  · rw [hanswer] at h
    exact nomatch h
  · rcases hcase with ⟨n, a, hop, -⟩ | ⟨n, u, hop, -, hreplaced⟩ | ⟨hop, -⟩
    · exact nomatch hop
    · obtain ⟨rfl, rfl⟩ := Operation.add.inj hop
      have hget := hreplaced.get?_eq name
      rw [if_pos rfl] at hget
      -- either the tuple has gone in, or another one with its key was there
      have hkey : t.key ∈ ((s.target name t.length).insert t).keys :=
        Relation.mem_keys_insert.2 (.inl rfl)
      obtain ⟨u, hu, heq⟩ := (Relation.mem_keys _ _).1 hkey
      rw [Store.tuples_of_get? hget]
      exact ⟨u, Array.mem_toList_iff.2 hu, heq⟩
    · exact nomatch hop

/-- After a `declare` that is answered with success, the relation has the declared arity. -/
private theorem arity_of_declared {arity : Int} (h : (Operation.declare name arity).answer s = .ok ()) :
    ∃ r, ((Operation.declare name arity).next s).get? name = some r ∧ r.arity = arity := by
  rcases next_cases (.declare name arity) s with ⟨p, hanswer, -⟩ | ⟨-, hcase⟩
  · rw [hanswer] at h
    exact nomatch h
  · rcases hcase with ⟨n, a, hop, harity, hreplaced⟩ | ⟨n, u, hop, -⟩ | ⟨hop, -⟩
    · obtain ⟨rfl, rfl⟩ := Operation.declare.inj hop
      exact ⟨_, by rw [hreplaced.get?_eq, if_pos rfl], harity⟩
    · exact nomatch hop
    · exact nomatch hop

end Operation

/-! ### What every history keeps -/

/-- The store that calls leave, one after the other. -/
def replay (s : Store) (ops : List Operation) : Store :=
  ops.foldl (fun s op => op.next s) s

/-- The calls with their answers. -/
def answers (s : Store) : List Operation → List (Operation × Except Problem Unit)
  | [] => []
  | op :: ops => (op, op.answer s) :: answers (op.next s) ops

section
variable {s : Store} {ops : List Operation} {name : String} {t : Tuple}

/-- `replay` of two histories one after the other. -/
private theorem replay_append (s : Store) (ops more : List Operation) :
    replay s (ops ++ more) = replay (replay s ops) more :=
  List.foldl_append

/-- Every history keeps a store `Sound`: the run lemma, from `Sound.next` call by call. -/
theorem Store.Sound.replay (h : s.Sound) (ops : List Operation) : (replay s ops).Sound := by
  induction ops generalizing s with
  | nil => exact h
  | cons op ops ih => exact ih (h.next op)

/-- Only calls of the history have `answers`. -/
theorem mem_of_mem_answers {entry : Operation × Except Problem Unit} (h : entry ∈ answers s ops) :
    entry.1 ∈ ops := by
  induction ops generalizing s with
  | nil => exact nomatch h
  | cons op ops ih =>
    rcases List.mem_cons.1 h with rfl | h
    · exact List.mem_cons_self
    · exact List.mem_cons_of_mem op (ih h)

/-- `replay` leaves a frozen store as it is. -/
private theorem replay_of_isFrozen (h : s.isFrozen = true) (ops : List Operation) : replay s ops = s := by
  induction ops with
  | nil => rfl
  | cons op ops ih =>
    show replay (op.next s) ops = s
    rw [next_of_isFrozen h]
    exact ih

/-- After a history with a `freeze` in it a store is frozen. -/
private theorem isFrozen_replay (h : .freeze ∈ ops) : (replay s ops).isFrozen = true := by
  induction ops generalizing s with
  | nil => exact nomatch h
  | cons op ops ih =>
    rcases List.mem_cons.1 h with rfl | h
    · -- whatever follows the call that freezes is without effect
      have hfrozen : (Operation.freeze.next s).isFrozen = true := Store.isFrozen_freeze s
      show (replay (Operation.freeze.next s) ops).isFrozen = true
      rw [replay_of_isFrozen hfrozen]
      exact hfrozen
    · exact ih h

/-- Every tuple after `replay` was there from the start or has been added with success. -/
private theorem mem_or_added_of_replay (h : t ∈ (replay s ops).tuples name) :
    t ∈ s.tuples name ∨ (.add name t, .ok ()) ∈ answers s ops := by
  induction ops generalizing s with
  | nil => exact .inl h
  | cons op ops ih =>
    -- either a later call has added it, or it was there after the first one
    rcases ih h with h | h
    · rcases Operation.mem_or_added h with h | ⟨hop, hanswer⟩
      · exact .inl h
      · refine .inr (List.mem_cons.2 (.inl ?_))
        rw [hanswer, hop]
    · exact .inr (List.mem_cons_of_mem _ h)

/-- `replay` takes no tuple away. -/
theorem mem_replay (h : t ∈ s.tuples name) (ops : List Operation) : t ∈ (replay s ops).tuples name := by
  induction ops generalizing s with
  | nil => exact h
  | cons op ops ih => exact ih (Operation.mem_next h op)

/-- For every tuple that `answers` say was added, one with its `key` is there after `replay`. -/
theorem exists_key_of_mem_answers (h : (.add name t, .ok ()) ∈ answers s ops) :
    ∃ u ∈ (replay s ops).tuples name, u.key = t.key := by
  induction ops generalizing s with
  | nil => exact nomatch h
  | cons op ops ih =>
    rcases List.mem_cons.1 h with heq | h
    · obtain ⟨rfl, hanswer⟩ := Prod.mk.inj heq
      obtain ⟨u, hu, hkey⟩ := Operation.exists_key_of_added hanswer.symm
      exact ⟨u, mem_replay hu ops, hkey⟩
    · exact ih h

/-- `replay` changes the arity of no relation that is there. -/
private theorem arity_replay {r : Relation} (h : s.get? name = some r) (ops : List Operation) :
    ∃ r', (replay s ops).get? name = some r' ∧ r'.arity = r.arity := by
  induction ops generalizing s r with
  | nil => exact ⟨r, h, rfl⟩
  | cons op ops ih =>
    obtain ⟨q, hq, harity⟩ := Operation.arity_next h op
    obtain ⟨r', hr', harity'⟩ := ih hq
    exact ⟨r', hr', harity'.trans harity⟩

/-- A relation that `answers` say was declared has the declared arity after `replay`. -/
theorem arity_of_mem_answers {arity : Int} (h : (.declare name arity, .ok ()) ∈ answers s ops) :
    ∃ r, (replay s ops).get? name = some r ∧ r.arity = arity := by
  induction ops generalizing s with
  | nil => exact nomatch h
  | cons op ops ih =>
    rcases List.mem_cons.1 h with heq | h
    · obtain ⟨rfl, hanswer⟩ := Prod.mk.inj heq
      obtain ⟨q, hq, harity⟩ := Operation.arity_of_declared hanswer.symm
      -- later calls keep the arity
      obtain ⟨r, hr, harity'⟩ := arity_replay hq ops
      exact ⟨r, hr, harity'.trans harity⟩
    · exact ih h

end

/-- What holds of a new store after calls: it is a set of tuples for each name that is written once. -/
structure WriteOnce (ops : List Operation) : Prop where
  /-- Tuples have the arity of their relation. -/
  arity : ∀ name r, (replay .empty ops).get? name = some r → ∀ t ∈ r.tuples, (t.length : Int) = r.arity
  /-- That is the arity it was declared with. -/
  declared : ∀ name arity, (.declare name arity, .ok ()) ∈ answers .empty ops →
    ∃ r, (replay .empty ops).get? name = some r ∧ r.arity = arity
  /-- No two tuples name the same locations. -/
  distinct : ∀ name, ((replay .empty ops).tuples name).Pairwise fun t u => ¬ Tuple.Agree t u
  /-- A tuple is there, whatever its lines, exactly if it was added with success. -/
  present : ∀ name t, (∃ u ∈ (replay .empty ops).tuples name, Tuple.Agree u t) ↔
    ∃ u, Tuple.Agree u t ∧ (.add name u, .ok ()) ∈ answers .empty ops
  /-- A call that is refused next changes nothing. -/
  refused : ∀ (op : Operation) p, op.answer (replay .empty ops) = .error p →
    op.next (replay .empty ops) = replay .empty ops
  /-- Once frozen, relations are strictly ascending, and no more calls change anything. -/
  frozen : .freeze ∈ ops →
    (∀ name, ((replay .empty ops).tuples name).Pairwise fun t u => Tuple.cmp t u = .lt) ∧
      ∀ more, replay .empty (ops ++ more) = replay .empty ops

/-- Every tuple after `replay` from the empty store has been added with success. -/
theorem added_of_mem_replay {ops : List Operation} {name : String} {t : Tuple}
    (h : t ∈ (replay .empty ops).tuples name) : (.add name t, .ok ()) ∈ answers .empty ops := by
  rcases mem_or_added_of_replay h with h | h
  · exact nomatch h
  · exact h

/-- A new store is a set of tuples for each name while it is open, and stays as it is once it is frozen
    (`WriteOnce`), whatever calls with proper locations it gets. -/
theorem writeOnce_of_isProper {ops : List Operation} (h : ∀ op ∈ ops, op.IsProper) : WriteOnce ops := by
  have hsound : (replay .empty ops).Sound := Store.sound_empty.replay ops
  have hproper : ∀ {name t}, (.add name t, .ok ()) ∈ answers .empty ops → ∀ l ∈ t, l.IsProper := by
    intro name t hadded
    exact h _ (mem_of_mem_answers hadded)
  -- keys tell the tuples of a relation apart, and tuples that agree have one key
  have hdistinct : ∀ name, ((replay .empty ops).tuples name).Pairwise fun t u => ¬ Tuple.Agree t u := by
    intro name
    apply Store.pairwise_tuples
    intro r hr
    exact (hsound.relation name r hr).keys.imp fun hne hagree => hne hagree.key_eq
  constructor
  case arity =>
    intro name r hr
    exact (hsound.relation name r hr).arity
  case declared =>
    intro name arity hdeclared
    exact arity_of_mem_answers hdeclared
  case distinct => exact hdistinct
  case present =>
    -- added tuples are found by their keys, and keys of proper tuples tell what they name
    intro name t
    constructor
    · rintro ⟨u, hu, hagree⟩
      exact ⟨u, hagree, added_of_mem_replay hu⟩
    · rintro ⟨u, hagree, hadded⟩
      obtain ⟨v, hv, hkey⟩ := exists_key_of_mem_answers hadded
      have hsame := Tuple.agree_of_key_eq (hproper (added_of_mem_replay hv)) (hproper hadded) hkey
      exact ⟨v, hv, hsame.trans hagree⟩
  case refused =>
    intro op p hanswer
    rcases next_cases op (replay .empty ops) with ⟨-, -, hnext⟩ | ⟨hok, -⟩
    · exact hnext
    · exact nomatch hok.symm.trans hanswer
  case frozen =>
    -- a frozen store is sorted and takes no more calls
    intro hfreeze
    have hfrozen : (replay .empty ops).isFrozen = true := isFrozen_replay hfreeze
    constructor
    · intro name
      have hle : ((replay .empty ops).tuples name).Pairwise fun t u => Tuple.le t u = true :=
        Store.pairwise_tuples (hsound.ascending hfrozen name)
      exact hle.imp₂ (fun t u htu hne => Tuple.cmp_eq_lt htu hne) (hdistinct name)
    · intro more
      rw [replay_append, replay_of_isFrozen hfrozen]

/-- Calls of all kinds: one tuple twice at different lines, one whose path looks like that of another call, one
    that is too short, and some after freezing. -/
def mixedCalls : List Operation :=
  [.declare "calls" 2,
   .add "calls" [⟨"java+method", "/A/f()", -1, 0⟩, ⟨"java+invocation", "/A/f()#1", 2, 10⟩],
   .add "calls" [⟨"java+method", "/A/f()", -1, 0⟩, ⟨"java+invocation", "/A/f()#1", 2, 20⟩],
   .add "calls" [⟨"java+method", "/A/f()", -1, 0⟩, ⟨"java+invocation", "/A/f()", 12, 10⟩],
   .add "calls" [⟨"java+method", "/A/f()", -1, 0⟩],
   .freeze,
   .add "calls" [⟨"java+method", "/A/f()", -1, 0⟩, ⟨"java+invocation", "/A/f()", 0, 9⟩],
   .declare "other" 1,
   .freeze]

/-- `writeOnce_of_isProper` on `mixedCalls`. -/
theorem writeOnce_mixedCalls : (∀ op ∈ mixedCalls, op.IsProper) ∧ WriteOnce mixedCalls :=
  ⟨by decide, writeOnce_of_isProper (by decide)⟩

end Facts
end CallAtlas
