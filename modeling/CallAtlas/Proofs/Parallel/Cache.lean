import CallAtlas.Facts.Descriptor

/-!
# Caches of method types

A cache may forget what was added to it, but what it answers was added before under the same descriptor.
This is all that a build relies on. A cache that forgets what was not used for longest is an instance
(`Cache.leastRecent`).
-/

namespace CallAtlas.Parallel

/-- The operations on method types that are kept by descriptor. -/
structure CacheOps where
  State : Type
  /-- Nothing is kept, and there is room for a number of types. -/
  empty : Nat → State
  get : State → String → Option MethodType × State
  add : State → String → MethodType → State

/-- The operations lead from the empty cache of a size to a state, and `added` is what they added, the latest
    first. -/
inductive CacheOps.Reached (ops : CacheOps) (size : Nat) :
    List (String × MethodType) → ops.State → Prop where
  | empty : Reached ops size [] (ops.empty size)
  | get {added : List (String × MethodType)} {s : ops.State} (d : String) :
      Reached ops size added s → Reached ops size added (ops.get s d).2
  | add {added : List (String × MethodType)} {s : ops.State} (d : String) (t : MethodType) :
      Reached ops size added s → Reached ops size ((d, t) :: added) (ops.add s d t)

/-- A cache answers only with what was added before under the same descriptor. -/
structure Cache extends CacheOps where
  mem_of_get {size : Nat} {added : List (String × MethodType)} {s : State} {d : String}
    {t : MethodType} : toCacheOps.Reached size added s → (get s d).1 = some t → (d, t) ∈ added

/-! ### Forgetting what was not used for longest -/

/-- Types by descriptor, the one that was used last in front. -/
structure Recent where
  capacity : Nat
  items : List (String × MethodType)

namespace Recent

/-- The descriptor was used last. -/
def touch (r : Recent) (d : String) (t : MethodType) : List (String × MethodType) :=
  (d, t) :: r.items.filter fun item => item.1 ≠ d

def get (r : Recent) (d : String) : Option MethodType × Recent :=
  match r.items.lookup d with
  | none => (none, r)
  | some t => (some t, { r with items := r.touch d t })

def add (r : Recent) (d : String) (t : MethodType) : Recent :=
  { r with items := (r.touch d t).take r.capacity }

def ops : CacheOps :=
  { State := Recent, empty := fun capacity => ⟨capacity, []⟩, get, add }

/-- What `lookup` finds is in the list, under the descriptor asked for. -/
private theorem mem_of_lookup {items : List (String × MethodType)} {d : String} {t : MethodType}
    (h : items.lookup d = some t) : (d, t) ∈ items := by
  obtain ⟨before, behind, rfl, -⟩ := List.lookup_eq_some_iff.1 h
  simp

/-- `touch` brings in no item but the one that was used. -/
private theorem mem_of_mem_touch {r : Recent} {d : String} {t : MethodType} {item : String × MethodType}
    (h : item ∈ r.touch d t) : item = (d, t) ∨ item ∈ r.items := by
  rcases List.mem_cons.1 h with h | h
  · exact .inl h
  · exact .inr (List.mem_filter.1 h).1

/-- `get` changes the order of the items only. -/
private theorem mem_of_mem_get {r : Recent} {d : String} {item : String × MethodType}
    (h : item ∈ (r.get d).2.items) : item ∈ r.items := by
  unfold get at h
  split at h
  · exact h
  · next t hlookup =>
    rcases mem_of_mem_touch h with rfl | h
    · exact mem_of_lookup hlookup
    · exact h

/-- Every item that a reached state keeps was added. -/
private theorem mem_added {size : Nat} {added : List (String × MethodType)} {r : ops.State}
    (h : ops.Reached size added r) : ∀ item ∈ Recent.items r, item ∈ added := by
  -- by induction on the operations that lead to the state
  induction h with
  | empty => exact fun item hitem => absurd hitem List.not_mem_nil
  | get d _ ih => exact fun item hitem => ih item (mem_of_mem_get hitem)
  | add d t _ ih =>
    intro item hitem
    rcases mem_of_mem_touch (List.mem_of_mem_take hitem) with rfl | hitem
    · exact List.mem_cons_self
    · exact List.mem_cons_of_mem _ (ih item hitem)

/-- `get` answers with what `lookup` finds. -/
private theorem lookup_of_get {r : Recent} {d : String} {t : MethodType} (h : (r.get d).1 = some t) :
    r.items.lookup d = some t := by
  unfold get at h
  split at h
  · exact nomatch h
  · next hlookup => exact hlookup.trans h

end Recent

/-- The cache that keeps what was used last. -/
def Cache.leastRecent : Cache :=
  { Recent.ops with
    mem_of_get := fun hreached hget =>
      Recent.mem_added hreached _ (Recent.mem_of_lookup (Recent.lookup_of_get hget)) }

end CallAtlas.Parallel
