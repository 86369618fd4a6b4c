import CallAtlas.Proofs.Facts.Insertion
import CallAtlas.Proofs.Facts.Key

/-!
# What a relation holds of what was added to it

A relation holds nothing but tuples that were added to it, and for each of them one with its key
(`records_foldl_insert`). So a tuple can be missing only if another one has its key. Where the keys tell
the texts of locations apart (`KeysApart`), a relation between things that are no calls holds exactly
what was added (`Records.mem_iff`).
-/

namespace CallAtlas.Facts

/-- Tuples with one key name the same locations. -/
def KeysApart (ts : List Tuple) : Prop :=
  ∀ t ∈ ts, ∀ u ∈ ts, t.key = u.key → t.map Location.text = u.map Location.text

/-- The rows are some of the tuples that were added, and every key that was added is there. -/
structure Records (rows added : List Tuple) : Prop where
  subset : ∀ t ∈ rows, t ∈ added
  exists_key : ∀ t ∈ added, ∃ u ∈ rows, u.key = t.key

/-! ### Adding tuples -/

namespace Relation

/-- `insert` adds nothing but the tuple. -/
theorem mem_tuples_insert {r : Relation} {t u : Tuple} (hu : u ∈ (r.insert t).tuples) :
    u ∈ r.tuples ∨ u = t := by
  by_cases h : t.key ∈ r.keys
  · rw [insert_of_mem h] at hu
    exact .inl hu
  · rw [insert, if_neg (fun hc => h (Std.HashSet.mem_iff_contains.2 hc))] at hu
    simpa [tuples] using hu

/-- A run of `insert` adds nothing but the tuples. -/
private theorem mem_tuples_foldl_insert {r : Relation} {ts : List Tuple} {u : Tuple}
    (hu : u ∈ (ts.foldl insert r).tuples) : u ∈ r.tuples ∨ u ∈ ts := by
  induction ts generalizing r with
  | nil => exact .inl hu
  | cons t ts ih =>
    rcases ih hu with h | h
    · rcases mem_tuples_insert h with h | rfl
      · exact .inl h
      · exact .inr List.mem_cons_self
    · exact .inr (List.mem_cons_of_mem t h)

/-- After a run of `insert` the keys of all its tuples are there. -/
private theorem mem_keys_foldl_insert {r : Relation} {ts : List Tuple} {k : String} :
    k ∈ (ts.foldl insert r).keys ↔ k ∈ r.keys ∨ ∃ t ∈ ts, t.key = k := by
  induction ts generalizing r with
  | nil => simp
  | cons t ts ih =>
    rw [List.foldl_cons, ih, mem_keys_insert]
    simp only [List.mem_cons, exists_eq_or_imp]
    rw [eq_comm (a := k), or_assoc, or_left_comm]

/-- What a new relation holds after a run of `insert` is what `Records` says. -/
theorem records_foldl_insert (name : String) (arity : Int) (ts : List Tuple) :
    Records (ts.foldl insert (empty name arity)).tuples ts := by
  constructor
  · intro t ht
    rcases mem_tuples_foldl_insert ht with h | h
    · exact absurd h List.not_mem_nil
    · exact h
  · intro t ht
    -- every key is there, though maybe with another tuple
    have hkey : t.key ∈ (ts.foldl insert (empty name arity)).keys :=
      mem_keys_foldl_insert.2 (.inr ⟨t, ht, rfl⟩)
    obtain ⟨u, hu, heq⟩ := (mem_keys _ _).1 hkey
    exact ⟨u, Array.mem_toList_iff.2 hu, heq⟩

/-- Once a key is there, `insert` adds no further tuple with this key. -/
private theorem notMem_tuples_foldl_insert {r : Relation} {ts : List Tuple} {u : Tuple} (hkey : u.key ∈ r.keys)
    (hu : u ∉ r.tuples) : u ∉ (ts.foldl insert r).tuples := by
  induction ts generalizing r with
  | nil => exact hu
  | cons t ts ih =>
    refine ih (mem_keys_insert.2 (.inr hkey)) fun hmem => ?_
    rcases mem_tuples_insert hmem with h | rfl
    · exact hu h
    · rw [insert_of_mem hkey] at hmem
      exact hu hmem

/-- Of tuples with one key the first counts. -/
theorem notMem_tuples_of_earlier (name : String) (arity : Int) {ts us : List Tuple} {u : Tuple}
    (hkey : ∃ t ∈ ts, t.key = u.key) (hu : u ∉ ts) :
    u ∉ ((ts ++ us).foldl insert (empty name arity)).tuples := by
  rw [List.foldl_append]
  refine notMem_tuples_foldl_insert (mem_keys_foldl_insert.2 (.inr hkey)) fun hmem => ?_
  rcases mem_tuples_foldl_insert hmem with h | h
  · exact absurd h List.not_mem_nil
  · exact hu h

theorem mem_tuples_sorted {r : Relation} {t : Tuple} : t ∈ r.sorted.tuples ↔ t ∈ r.tuples := by
  simp [sorted, tuples]

end Relation

/-- `Records` asks for what is held, and not for its order. -/
theorem Records.of_mem_iff {rows rows' added : List Tuple} (h : Records rows added)
    (hrows : ∀ t, t ∈ rows' ↔ t ∈ rows) : Records rows' added := by
  constructor
  · exact fun t ht => h.subset t ((hrows t).1 ht)
  · intro t ht
    obtain ⟨u, hu, hkey⟩ := h.exists_key t ht
    exact ⟨u, (hrows u).2 hu, hkey⟩

/-! ### Keys that tell tuples apart -/

theorem KeysApart.mono {ts us : List Tuple} (h : KeysApart us) (hsub : ∀ t ∈ ts, t ∈ us) :
    KeysApart ts :=
  fun t ht u hu => h t (hsub t ht) u (hsub u hu)

/-- `KeysApart` holds where no location holds the character that closes locations in a key. -/
theorem keysApart_of_plain {ts : List Tuple}
    (h : ∀ t ∈ ts, ∀ l ∈ t, Location.mark ∉ l.text.toList) : KeysApart ts :=
  fun t ht u hu => Tuple.text_eq_of_key_eq (h t ht) (h u hu)

/-- Locations that are no calls can be read off their texts. -/
private theorem eq_of_map_text_eq {t u : Tuple} (ht : ∀ l ∈ t, l.IsFixed) (hu : ∀ l ∈ u, l.IsFixed)
    (h : t.map Location.text = u.map Location.text) : t = u := by
  induction t generalizing u with
  | nil => exact (List.map_eq_nil_iff.1 h.symm).symm
  | cons l t ih =>
    obtain ⟨l', u', rfl, htext, hrest⟩ := List.map_eq_cons_iff.1 h.symm
    have hl := (ht l List.mem_cons_self).eq_of_text_eq (hu l' List.mem_cons_self) htext.symm
    have htail := ih (fun x hx => ht x (List.mem_cons_of_mem l hx))
      (fun x hx => hu x (List.mem_cons_of_mem l' hx)) hrest.symm
    rw [hl, htail]

namespace Records

variable {rows added : List Tuple} (h : Records rows added)
include h

/-- Every tuple that was added is there, up to what is no part of a `text`. -/
theorem exists_text (hkeys : KeysApart added) {t : Tuple} (ht : t ∈ added) :
    ∃ u ∈ rows, u.map Location.text = t.map Location.text := by
  obtain ⟨u, hu, hkey⟩ := h.exists_key t ht
  exact ⟨u, hu, hkeys u (h.subset u hu) t ht hkey⟩

/-- Between things that are no calls, everything that was added is there. -/
theorem mem_iff (hkeys : KeysApart added) (hfixed : ∀ t ∈ added, ∀ l ∈ t, l.IsFixed) {t : Tuple} :
    t ∈ rows ↔ t ∈ added := by
  refine ⟨h.subset t, fun ht => ?_⟩
  obtain ⟨u, hu, htext⟩ := h.exists_text hkeys ht
  rw [← eq_of_map_text_eq (hfixed u (h.subset u hu)) (hfixed t ht) htext]
  exact hu

end Records

/-! ### Stores -/

namespace Store

/-- Of relations with different names, each is found by `relation?` once a store is frozen. -/
theorem relation?_freeze {rs : List Relation} (hnames : (rs.map Relation.name).Nodup) {r : Relation}
    (hr : r ∈ rs) : (freeze ⟨rs, false⟩).relation? r.name = some r.sorted.tuples := by
  have hget : (freeze ⟨rs, false⟩).get? r.name = some r.sorted := by
    show (rs.map Relation.sorted).find? (fun q => q.name == r.name) = some r.sorted
    induction rs with
    | nil => exact absurd hr List.not_mem_nil
    | cons q rs ih =>
      obtain ⟨hnew, hrest⟩ := List.nodup_cons.1 hnames
      rw [List.map_cons]
      -- the relations before it have other names, so that the search passes them
      rcases List.mem_cons.1 hr with rfl | hr
      · exact List.find?_cons_of_pos (beq_self_eq_true r.name)
      · have hne : q.sorted.name ≠ r.name := fun heq => hnew (heq ▸ List.mem_map_of_mem hr)
        rw [List.find?_cons_of_neg (by simpa using hne)]
        exact ih hrest hr
  rw [relation?, hget]
  rfl

/-- `declarations` lists what stands first in the tuples of the relation of declarations. -/
theorem mem_declarations {s : Store} {d : Location} :
    d ∈ s.declarations ↔
      d.isDeclaration = true ∧ ∃ t ∈ s.tuples relDeclarations, t.head? = some d := by
  rw [declarations, mem_dropRepeats, List.mem_mergeSort, List.mem_filterMap]
  simp only [Option.filter_eq_some_iff]
  constructor
  · rintro ⟨t, ht, hhead, hdecl⟩
    exact ⟨hdecl, t, ht, hhead⟩
  · rintro ⟨hdecl, t, ht, hhead⟩
    exact ⟨t, ht, hhead, hdecl⟩

end Store
end CallAtlas.Facts
