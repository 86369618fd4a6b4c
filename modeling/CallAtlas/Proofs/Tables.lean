import Mathlib.Algebra.BigOperators.Group.List.Basic
import Mathlib.Algebra.GroupWithZero.Nat
import Mathlib.Data.List.Nodup
import Mathlib.Data.List.Perm.Basic
import CallAtlas.Repeats
import CallAtlas.Table

/-!
# Tables and the lists they are made of

What a table holds can be said in terms of the list that it was made of: `groups` keeps, under each key, what
has this key, and `countTable` how often each element is there. A table lists its keys in no order that is
known, so what it lists is only known up to order (`perm_toList`). Adding up what `countTable` counts is adding
up the list itself (`sum_map_distinct`).
-/

namespace CallAtlas

/-! ### Lists -/

/-- Of a list in ascending order, what `find?` gives is the least element with a property. -/
theorem find?_eq_some_iff_least {α : Type} {cmp : α → α → Ordering} [Std.OrientedCmp cmp] {p : α → Bool}
    {as : List α} (h : as.Pairwise fun a b => cmp a b = .lt) {a : α} :
    as.find? p = some a ↔ a ∈ as ∧ p a = true ∧ ∀ b ∈ as, p b = true → (cmp a b).isLE = true := by
  induction as with
  | nil => simp
  | cons b bs ih =>
    obtain ⟨hb, hbs⟩ := List.pairwise_cons.1 h
    -- the first element has the property and ends the search, or is passed over
    by_cases hp : p b = true
    · rw [List.find?_cons_of_pos hp, Option.some.injEq]
      constructor
      · rintro rfl
        refine ⟨List.mem_cons_self, hp, fun c hc _ => ?_⟩
        rcases List.mem_cons.1 hc with rfl | hc
        · have hself : cmp c c = .eq := Std.ReflCmp.compare_self
          rw [hself]
          rfl
        · rw [hb c hc]
          rfl
      · rintro ⟨ha, -, hle⟩
        rcases List.mem_cons.1 ha with rfl | ha
        · rfl
        · -- `b` stands before `a` and has the property, so `a` cannot be the least
          have hab := hle b List.mem_cons_self hp
          have hswap : cmp a b = (cmp b a).swap := Std.OrientedCmp.eq_swap
          rw [hswap, hb a ha] at hab
          cases hab
    · rw [List.find?_cons_of_neg hp, ih hbs]
      constructor
      · rintro ⟨ha, hpa, hle⟩
        refine ⟨List.mem_cons_of_mem b ha, hpa, fun c hc hpc => ?_⟩
        rcases List.mem_cons.1 hc with rfl | hc
        · exact absurd hpc hp
        · exact hle c hc hpc
      · rintro ⟨ha, hpa, hle⟩
        refine ⟨(List.mem_cons.1 ha).resolve_left ?_, hpa, fun c hc => hle c (List.mem_cons_of_mem b hc)⟩
        rintro rfl
        exact hp hpa

/-- What has one of several keys, looked up key by key. -/
theorem perm_flatMap_filter {α κ : Type} [BEq κ] [LawfulBEq κ] {keys : List κ} (h : keys.Nodup)
    (key : α → κ) (as : List α) : (keys.flatMap fun k => as.filter fun a => key a == k).Perm
      (as.filter fun a => keys.contains (key a)) := by
  induction keys with
  | nil => simp
  | cons k keys ih =>
    obtain ⟨hk, hkeys⟩ := List.nodup_cons.1 h
    have hfirst : (as.filter fun a => (k :: keys).contains (key a)).filter (fun a => key a == k) =
        as.filter fun a => key a == k := by
      rw [List.filter_filter]
      refine List.filter_congr fun a _ => ?_
      by_cases ha : key a = k <;> simp [ha]
    have hrest : (as.filter fun a => (k :: keys).contains (key a)).filter (fun a => !(key a == k)) =
        as.filter fun a => keys.contains (key a) := by
      rw [List.filter_filter]
      refine List.filter_congr fun a _ => ?_
      by_cases ha : key a = k
      · simp [ha, hk]
      · simp [ha]
    -- what has the first key, and what has another: both parts make up the list
    have hsplit := List.filter_append_perm (fun a => key a == k)
      (as.filter fun a => (k :: keys).contains (key a))
    rw [hfirst, hrest] at hsplit
    rw [List.flatMap_cons]
    exact ((ih hkeys).append_left _).trans hsplit

/-- If all have one of several keys, looking them up key by key gives all of them, in another order. -/
theorem perm_flatMap_filter_of_mem {α κ : Type} [BEq κ] [LawfulBEq κ] {keys : List κ} (h : keys.Nodup)
    {key : α → κ} {as : List α} (hall : ∀ a ∈ as, key a ∈ keys) :
    (keys.flatMap fun k => as.filter fun a => key a == k).Perm as := by
  have hkept : as.filter (fun a => keys.contains (key a)) = as :=
    List.filter_eq_self.2 fun a ha => List.contains_iff_mem.2 (hall a ha)
  have hgroups := perm_flatMap_filter h key as
  rwa [hkept] at hgroups

/-- Adding up only what has a property is adding up with nothing for the rest. -/
theorem sum_map_ite_zero {α : Type} (p : α → Bool) (f : α → Nat) (as : List α) :
    (as.map fun a => if p a then f a else 0).sum = ((as.filter p).map f).sum := by
  rw [List.sum_map_ite]
  simp

/-! ### Tables -/

/-- `lastTable` has one of the pairs for each key. -/
theorem mem_of_getD_lastTable {ps : List (String × String)} {k : String} (h : k ∈ ps.map Prod.fst) :
    (k, (lastTable ps).getD k "") ∈ ps := by
  rw [Std.HashMap.getD_eq_getD_getElem?, getElem?_lastTable]
  -- the key is there, and the last pair with it counts
  cases hfound : ps.reverse.lookup k with
  | none =>
    obtain ⟨p, hp, rfl⟩ := List.mem_map.1 h
    have hnone := List.lookup_eq_none_iff.1 hfound p (List.mem_reverse.2 hp)
    simp at hnone
  | some b =>
    obtain ⟨before, behind, heq, -⟩ := List.lookup_eq_some_iff.1 hfound
    exact List.mem_reverse.1 (heq ▸ List.mem_append_right before List.mem_cons_self)

/-- `groups` has, under each key, the elements with that key. -/
theorem getD_groups_map {α κ : Type} [BEq κ] [Hashable κ] [LawfulBEq κ] (key : α → κ) (as : List α) (k : κ) :
    (groups (as.map fun a => (key a, a))).getD k [] = as.filter fun a => key a == k := by
  rw [getD_groups, List.filter_map, List.map_map]
  exact List.map_id _

/-! ### Tables of counts -/

section
variable {α : Type} [BEq α] [Hashable α] [LawfulBEq α]

/-- `toList` lists each key of a table once, with what the table has for it. -/
theorem perm_toList {m : Std.HashMap α Nat} {keys : List α} (hkeys : keys.Nodup)
    (hmem : ∀ a, a ∈ m ↔ a ∈ keys) : m.toList.Perm (keys.map fun a => (a, m.getD a 0)) := by
  -- neither list has a pair twice, so that membership decides
  have hlisted : m.toList.Nodup := by
    refine Std.HashMap.distinct_keys_toList.imp fun {d e} hne heq => ?_
    rw [heq, beq_self_eq_true] at hne
    cases hne
  have hmapped : (keys.map fun a => (a, m.getD a 0)).Nodup :=
    hkeys.map fun a b heq => (Prod.mk.inj heq).1
  rw [List.perm_ext_iff_of_nodup hlisted hmapped]
  rintro ⟨a, n⟩
  rw [Std.HashMap.mem_toList_iff_getElem?_eq_some, List.mem_map]
  constructor
  · intro hget
    have ha : a ∈ m := Std.HashMap.mem_iff_isSome_getElem?.2 (by rw [hget]; rfl)
    exact ⟨a, (hmem a).1 ha, by rw [Std.HashMap.getD_eq_getD_getElem?, hget]; rfl⟩
  · rintro ⟨b, hb, heq⟩
    obtain ⟨rfl, rfl⟩ := Prod.mk.inj heq
    exact Std.HashMap.getElem?_eq_some_getD ((hmem b).2 hb)

/-- Counting adds the elements of the list to the keys. -/
theorem mem_foldl_count {m : Std.HashMap α Nat} {as : List α} {a : α} :
    a ∈ as.foldl (fun m a => m.insert a (m.getD a 0 + 1)) m ↔ a ∈ m ∨ a ∈ as := by
  induction as generalizing m with
  | nil => simp
  | cons b bs ih =>
    rw [List.foldl_cons, ih, Std.HashMap.mem_insert, List.mem_cons, beq_iff_eq]
    grind

/-- The keys of `countTable` are the elements of the list. -/
theorem mem_countTable {as : List α} {a : α} : a ∈ countTable as ↔ a ∈ as := by
  simp [countTable, mem_foldl_count]

/-- `countTable` lists the `distinct` elements with their counts. -/
theorem perm_toList_countTable (as : List α) :
    (countTable as).toList.Perm ((distinct as).map fun a => (a, as.count a)) := by
  have hperm := perm_toList (m := countTable as) (nodup_distinct as)
    fun a => mem_countTable.trans mem_distinct.symm
  simpa only [getD_countTable] using hperm

/-- Adding up by `distinct` elements, as often as each is there, is adding up one by one. -/
theorem sum_map_distinct (as : List α) (f : α → Nat) :
    ((distinct as).map fun a => as.count a * f a).sum = (as.map f).sum := by
  have hlisted : ∀ a ∈ as, id a ∈ distinct as := fun a ha => mem_distinct.2 ha
  -- put together again, the groups of equal elements are the list in another order
  have hgroups := perm_flatMap_filter_of_mem (nodup_distinct as) hlisted
  simp only [id, List.filter_beq] at hgroups
  rw [← (hgroups.map f).sum_eq, List.map_flatMap, List.flatMap_def, List.sum_flatten, List.map_map]
  simp [Function.comp_def]

end

end CallAtlas
