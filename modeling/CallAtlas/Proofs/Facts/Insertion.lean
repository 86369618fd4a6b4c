import CallAtlas.Facts.Store

/-!
# Adding tuples to a relation

How many tuples a relation has after a run of insertions. Every tuple counts at most once, and all of
them count exactly when their keys are distinct and new (`size_foldl_insert_eq_iff`).
-/

namespace CallAtlas.Facts.Relation

/-- `insert` drops a tuple whose key is there. -/
theorem insert_of_mem {r : Relation} {t : Tuple} (h : t.key ∈ r.keys) : r.insert t = r := by
  rw [insert, if_pos (Std.HashSet.mem_iff_contains.1 h)]

/-- `insert` adds a row for a tuple with a new key. -/
theorem size_insert_of_notMem {r : Relation} {t : Tuple} (h : t.key ∉ r.keys) :
    (r.insert t).rows.size = r.rows.size + 1 := by
  rw [insert, if_neg (fun hc => h (Std.HashSet.mem_iff_contains.2 hc))]
  exact Array.size_push t

/-- After `insert` the key of the tuple is there, whether it was added or not. -/
theorem mem_keys_insert {r : Relation} {t : Tuple} {k : String} :
    k ∈ (r.insert t).keys ↔ k = t.key ∨ k ∈ r.keys := by
  -- a key that is there already changes nothing
  by_cases h : t.key ∈ r.keys
  · rw [insert_of_mem h]
    constructor
    · exact .inr
    · rintro (rfl | hk)
      · exact h
      · exact hk
  · rw [insert, if_neg (fun hc => h (Std.HashSet.mem_iff_contains.2 hc))]
    simp only [Std.HashSet.mem_insert, beq_iff_eq]
    exact or_congr_left eq_comm

theorem name_insert (r : Relation) (t : Tuple) : (r.insert t).name = r.name := by
  unfold insert
  split <;> rfl

/-- Tuples do not change the name of a relation. -/
theorem name_foldl_insert (r : Relation) (ts : List Tuple) : (ts.foldl insert r).name = r.name := by
  induction ts generalizing r with
  | nil => rfl
  | cons t ts ih => rw [List.foldl_cons, ih, name_insert]

/-- No tuple counts more than once. -/
private theorem size_foldl_insert_le (r : Relation) (ts : List Tuple) :
    (ts.foldl insert r).rows.size ≤ r.rows.size + ts.length := by
  induction ts generalizing r with
  | nil => exact Nat.le_refl _
  | cons t ts ih =>
    have hrest := ih (r.insert t)
    rw [List.foldl_cons, List.length_cons]
    -- each tuple makes the relation longer by one at most
    by_cases h : t.key ∈ r.keys
    · rw [insert_of_mem h] at hrest ⊢
      omega
    · rw [size_insert_of_notMem h] at hrest
      omega

/-- All tuples of a run of `insert` count exactly when no two of them have the same key and none of their keys
    was there before. -/
theorem size_foldl_insert_eq_iff (r : Relation) (ts : List Tuple) :
    (ts.foldl insert r).rows.size = r.rows.size + ts.length ↔
      (ts.Pairwise fun t u => t.key ≠ u.key) ∧ ∀ t ∈ ts, t.key ∉ r.keys := by
  induction ts generalizing r with
  | nil => simp
  | cons t ts ih =>
    rw [List.foldl_cons, List.length_cons, List.pairwise_cons]
    by_cases h : t.key ∈ r.keys
    · -- the first tuple is dropped, and what follows cannot make up for it
      rw [insert_of_mem h]
      have hle := size_foldl_insert_le r ts
      constructor
      · intro heq
        omega
      · intro hnew
        exact absurd h (hnew.2 t List.mem_cons_self)
    · -- the first tuple counts, and for the rest its key is one that was there before
      have hsize := ih (r.insert t)
      rw [size_insert_of_notMem h] at hsize
      rw [show r.rows.size + (ts.length + 1) = r.rows.size + 1 + ts.length by omega, hsize]
      constructor
      · rintro ⟨hpair, hnew⟩
        refine ⟨⟨fun u hu heq => hnew u hu (mem_keys_insert.2 (.inl heq.symm)), hpair⟩, ?_⟩
        intro u hu
        rcases List.mem_cons.1 hu with rfl | hu
        · exact h
        · exact fun hk => hnew u hu (mem_keys_insert.2 (.inr hk))
      · rintro ⟨⟨hfirst, hpair⟩, hnew⟩
        refine ⟨hpair, fun u hu hk => ?_⟩
        rcases mem_keys_insert.1 hk with heq | hk
        · exact hfirst u hu heq.symm
        · exact hnew u (List.mem_cons_of_mem t hu) hk

end CallAtlas.Facts.Relation
