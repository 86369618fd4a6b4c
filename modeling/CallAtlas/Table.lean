import Std.Data.HashMap
import Std.Data.HashSet

/-!
# Tables

A list of pairs answers what belongs to a key in as many steps as it has pairs. A table answers at
once, and `getElem?_firstTable`, `getElem?_lastTable`, `getD_groups`, `contains_setOf` and
`getD_countTable` say that the answer is the same.
-/

namespace CallAtlas

variable {α β : Type} [BEq α] [Hashable α]

/-- The table of pairs of which the first one with a key counts. -/
def firstTable (ps : List (α × β)) : Std.HashMap α β :=
  ps.foldl (fun m p => m.insertIfNew p.1 p.2) ∅

/-- The table of pairs of which the last one with a key counts. -/
def lastTable (ps : List (α × β)) : Std.HashMap α β :=
  ps.foldl (fun m p => m.insert p.1 p.2) ∅

/-- The elements of a list as a set. -/
def setOf (as : List α) : Std.HashSet α :=
  as.foldl (fun s a => s.insert a) ∅

/-- The values of each key in their order. -/
def groups (ps : List (α × β)) : Std.HashMap α (List β) :=
  ps.foldr (fun p m => m.insert p.1 (p.2 :: m.getD p.1 [])) ∅

/-- How often each element of a list is there. -/
def countTable (as : List α) : Std.HashMap α Nat :=
  as.foldl (fun m a => m.insert a (m.getD a 0 + 1)) ∅

variable [LawfulBEq α]

/-- Pairs that are added behind others count only for keys that these do not have. -/
theorem getElem?_foldl_insertIfNew (m : Std.HashMap α β) (ps : List (α × β)) (k : α) :
    (ps.foldl (fun m p => m.insertIfNew p.1 p.2) m)[k]? = m[k]?.or (ps.lookup k) := by
  induction ps generalizing m with
  | nil => simp
  | cons p ps ih =>
    obtain ⟨a, b⟩ := p
    rw [List.foldl_cons, ih, Std.HashMap.getElem?_insertIfNew, List.lookup_cons]
    by_cases h : k = a
    · subst h
      by_cases hm : k ∈ m <;> simp [hm]
    · have h' : ¬ a = k := fun e => h e.symm
      simp [h', beq_eq_false_iff_ne.2 h]

theorem getElem?_firstTable (ps : List (α × β)) (k : α) : (firstTable ps)[k]? = ps.lookup k := by
  simp [firstTable, getElem?_foldl_insertIfNew]

/-- Pairs that are added behind others win over these. -/
theorem getElem?_foldl_insert (m : Std.HashMap α β) (ps : List (α × β)) (k : α) :
    (ps.foldl (fun m p => m.insert p.1 p.2) m)[k]? = (ps.reverse.lookup k).or m[k]? := by
  induction ps generalizing m with
  | nil => simp
  | cons p ps ih =>
    obtain ⟨a, b⟩ := p
    rw [List.foldl_cons, ih, Std.HashMap.getElem?_insert, List.reverse_cons, List.lookup_append,
      List.lookup_cons, Option.or_assoc]
    by_cases h : k = a
    · simp [h]
    · have h' : ¬ a = k := fun e => h e.symm
      simp [h', beq_eq_false_iff_ne.2 h]

theorem getElem?_lastTable (ps : List (α × β)) (k : α) :
    (lastTable ps)[k]? = ps.reverse.lookup k := by
  simp [lastTable, getElem?_foldl_insert]

/-- Keys that are added to a table are there together with those before. -/
theorem contains_foldl_insert_pair (m : Std.HashMap α β) (ps : List (α × β)) (k : α) :
    (ps.foldl (fun m p => m.insert p.1 p.2) m).contains k =
      (m.contains k || (ps.map Prod.fst).contains k) := by
  induction ps generalizing m with
  | nil => simp
  | cons p ps ih =>
    rw [List.foldl_cons, ih, Std.HashMap.contains_insert, List.map_cons, List.contains_cons]
    by_cases h : k = p.1
    · simp [h]
    · simp [beq_eq_false_iff_ne.2 h, beq_eq_false_iff_ne.2 fun e => h (Eq.symm e)]

theorem contains_lastTable (ps : List (α × β)) (k : α) :
    (lastTable ps).contains k = (ps.map Prod.fst).contains k := by
  simp [lastTable, contains_foldl_insert_pair]

omit [Hashable α] in
/-- If no two pairs have one key, each pair is found. -/
theorem lookup_eq_some_iff_mem {ps : List (α × β)} (h : (ps.map Prod.fst).Nodup) {k : α} {b : β} :
    ps.lookup k = some b ↔ (k, b) ∈ ps := by
  induction ps with
  | nil => simp
  | cons p ps ih =>
    obtain ⟨a, c⟩ := p
    obtain ⟨hnew, hrest⟩ := List.nodup_cons.1 h
    rw [List.lookup_cons]
    by_cases hk : k = a
    · subst hk
      have hnot : (k, b) ∉ ps := fun hmem => hnew (List.mem_map.2 ⟨(k, b), hmem, rfl⟩)
      simp [hnot, eq_comm]
    · simp [beq_eq_false_iff_ne.2 hk, hk, ih hrest]

theorem getElem?_firstTable_eq_some {ps : List (α × β)} (h : (ps.map Prod.fst).Nodup) {k : α} {b : β} :
    (firstTable ps)[k]? = some b ↔ (k, b) ∈ ps := by
  rw [getElem?_firstTable, lookup_eq_some_iff_mem h]

theorem getElem?_lastTable_eq_some {ps : List (α × β)} (h : (ps.map Prod.fst).Nodup) {k : α} {b : β} :
    (lastTable ps)[k]? = some b ↔ (k, b) ∈ ps := by
  have hreverse : (ps.reverse.map Prod.fst).Nodup := by
    rw [List.map_reverse]
    exact List.pairwise_reverse.2 (h.imp Ne.symm)
  rw [getElem?_lastTable, lookup_eq_some_iff_mem hreverse, List.mem_reverse]

theorem getD_groups (ps : List (α × β)) (k : α) :
    (groups ps).getD k [] = (ps.filter fun p => p.1 == k).map Prod.snd := by
  induction ps with
  | nil => simp [groups]
  | cons p ps ih =>
    unfold groups at ih ⊢
    rw [List.foldr_cons, Std.HashMap.getD_insert, ih, List.filter_cons]
    by_cases h : p.1 = k
    · subst h
      simp [ih]
    · simp [beq_eq_false_iff_ne.2 h]

/-- Elements that are added to a set are there together with those before. -/
theorem contains_foldl_insert (s : Std.HashSet α) (as : List α) (a : α) :
    (as.foldl (fun s a => s.insert a) s).contains a = (s.contains a || as.contains a) := by
  induction as generalizing s with
  | nil => simp
  | cons b bs ih =>
    rw [List.foldl_cons, ih, Std.HashSet.contains_insert, List.contains_cons]
    by_cases h : a = b
    · simp [h]
    · simp [beq_eq_false_iff_ne.2 h, beq_eq_false_iff_ne.2 fun e => h (Eq.symm e)]

theorem contains_setOf (as : List α) (a : α) : (setOf as).contains a = as.contains a := by
  simp [setOf, contains_foldl_insert]

/-- Elements that are counted add to what was counted before. -/
theorem getD_foldl_count (m : Std.HashMap α Nat) (as : List α) (a : α) :
    (as.foldl (fun m a => m.insert a (m.getD a 0 + 1)) m).getD a 0 = m.getD a 0 + as.count a := by
  induction as generalizing m with
  | nil => simp
  | cons b bs ih =>
    rw [List.foldl_cons, ih, Std.HashMap.getD_insert, List.count_cons]
    by_cases h : b = a
    · subst h
      simp
      omega
    · simp [h]

theorem getD_countTable (as : List α) (a : α) : (countTable as).getD a 0 = as.count a := by
  simp [countTable, getD_foldl_count]

end CallAtlas
