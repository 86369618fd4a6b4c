import Mathlib.Logic.Relation
import CallAtlas.Closure
import CallAtlas.Table

/-!
# Search finds everything once

A breadth-first search lists no element twice (`nodup_closure`): what is fresh was not seen before, and
what was found counts as seen from then on. What it lists is what can be reached (`mem_closure`): the
search never stops while a link leads out of what it has found.
-/

namespace CallAtlas

variable {α : Type} [BEq α] [Hashable α] [LawfulBEq α]

theorem contains_withAll (s : Std.HashSet α) (xs : List α) (a : α) :
    (withAll s xs).contains a = (s.contains a || xs.contains a) :=
  contains_foldl_insert s xs a

/-- `fresh` elements were not seen before. -/
theorem notMem_of_mem_fresh {domain seen : Std.HashSet α} {xs : List α} {a : α}
    (h : a ∈ fresh domain seen xs) : seen.contains a = false := by
  induction xs generalizing seen with
  | nil => exact nomatch h
  | cons x xs ih =>
    unfold fresh at h
    split at h
    · rename_i hx
      simp only [Bool.and_eq_true, Bool.not_eq_true'] at hx
      rcases List.mem_cons.1 h with rfl | h
      · exact hx.2
      · -- the rest is searched with `x` seen too, which only takes elements away
        have := ih h
        rw [Std.HashSet.contains_insert, Bool.or_eq_false_iff] at this
        exact this.2
    · exact ih h

/-- `fresh` lists each element once. -/
theorem nodup_fresh (domain seen : Std.HashSet α) (xs : List α) : (fresh domain seen xs).Nodup := by
  induction xs generalizing seen with
  | nil => exact List.nodup_nil
  | cons x xs ih =>
    unfold fresh
    split
    · -- the first element is seen by the time the others are looked at
      refine List.nodup_cons.2 ⟨fun hmem => ?_, ih (seen.insert x)⟩
      have := notMem_of_mem_fresh hmem
      simp at this
    · exact ih seen

/-- Following links lists everything once if that was so before, and all of it is then seen. -/
theorem nodup_followed (domain : Std.HashSet α) (xs : List α) {seen : Std.HashSet α} {found : List α}
    (hseen : ∀ x ∈ found, seen.contains x = true) (hfound : found.Nodup) :
    (∀ y ∈ (fresh domain seen xs).reverse ++ found,
      (withAll seen (fresh domain seen xs)).contains y = true) ∧
    ((fresh domain seen xs).reverse ++ found).Nodup := by
  constructor
  · intro y hy
    rw [contains_withAll, Bool.or_eq_true]
    rcases List.mem_append.1 hy with hy | hy
    · exact .inr (List.contains_iff_mem.2 (List.mem_reverse.1 hy))
    · exact .inl (hseen y hy)
  · refine List.nodup_append.2 ⟨?_, hfound, ?_⟩
    · exact List.pairwise_reverse.2 ((nodup_fresh domain seen xs).imp fun h => h.symm)
    · -- what is fresh was not seen, unlike all that was found
      intro a ha b hb hab
      have := notMem_of_mem_fresh (List.mem_reverse.1 ha)
      rw [hab, hseen b hb] at this
      exact Bool.noConfusion this

/-- An `explore` that has listed everything once so far, and knows all of it as seen, ends so. -/
theorem nodup_explore (domain : Std.HashSet α) (next : α → List α) (seen : Std.HashSet α)
    (found queue : List α) (hseen : ∀ x ∈ found, seen.contains x = true) (hfound : found.Nodup) :
    (explore domain next seen found queue).Nodup := by
  induction seen, found, queue using explore.induct domain next with
  | case1 seen found =>
    unfold explore
    exact List.pairwise_reverse.2 (hfound.imp fun h => h.symm)
  | case2 seen found x queue more ih =>
    unfold explore
    obtain ⟨hseen', hfound'⟩ := nodup_followed domain (next x) hseen hfound
    exact ih hseen' hfound'

/-- `closure` lists no element twice. -/
theorem nodup_closure (domain : List α) (next : α → List α) (roots : List α) :
    (closure domain next roots).Nodup := by
  apply nodup_explore
  · intro x hx
    rw [contains_withAll, Bool.or_eq_true]
    exact .inr (List.contains_iff_mem.2 (List.mem_reverse.1 hx))
  · exact List.pairwise_reverse.2 ((nodup_fresh _ _ roots).imp fun h => h.symm)

/-! ### What can be reached -/

/-- A link leads from `a` to `b`, which is in the domain. -/
def Leads (domain : List α) (next : α → List α) (a b : α) : Prop :=
  b ∈ next a ∧ b ∈ domain

/-- The element can be reached from one of the roots without leaving the domain. -/
def Reached (domain : List α) (next : α → List α) (roots : List α) (x : α) : Prop :=
  ∃ r ∈ roots, r ∈ domain ∧ Relation.ReflTransGen (Leads domain next) r x

/-- `fresh` gives what is in the domain and was not seen before. -/
theorem mem_fresh {domain seen : Std.HashSet α} {xs : List α} {a : α} :
    a ∈ fresh domain seen xs ↔ a ∈ xs ∧ a ∈ domain ∧ a ∉ seen := by
  induction xs generalizing seen with
  | nil => simp [fresh]
  | cons x xs ih =>
    unfold fresh
    by_cases hx : domain.contains x && !seen.contains x
    · rw [if_pos hx, List.mem_cons, List.mem_cons, ih, Std.HashSet.mem_insert, beq_iff_eq]
      simp only [Bool.and_eq_true, Bool.not_eq_true', ← Std.HashSet.mem_iff_contains,
        Std.HashSet.contains_eq_false_iff_not_mem] at hx
      -- once `x` is listed it counts as seen, so it is asked for apart
      by_cases hax : a = x
      · subst hax
        simp [hx]
      · have hxa : ¬ x = a := fun h => hax h.symm
        simp [hax, hxa]
    · -- `x` is passed over, for it is seen or not in the domain
      rw [if_neg hx, List.mem_cons, ih]
      simp only [Bool.and_eq_true, Bool.not_eq_true', ← Std.HashSet.mem_iff_contains,
        Std.HashSet.contains_eq_false_iff_not_mem] at hx
      constructor
      · exact fun h => ⟨.inr h.1, h.2⟩
      · rintro ⟨rfl | ha, h⟩
        · exact absurd h hx
        · exact ⟨ha, h⟩

/-- `withAll` adds all elements of the list. -/
theorem mem_withAll {s : Std.HashSet α} {xs : List α} {a : α} :
    a ∈ withAll s xs ↔ a ∈ s ∨ a ∈ xs := by
  rw [Std.HashSet.mem_iff_contains, contains_withAll, Bool.or_eq_true, ← Std.HashSet.mem_iff_contains,
    List.contains_iff_mem]

/-- What holds of a search at every step: all that was found can be reached, the roots are found, and links out
    of what was found lead to what was found, except for what still waits in the queue. -/
structure Searching (domain : List α) (next : α → List α) (roots : List α) (seen : Std.HashSet α)
    (found queue : List α) : Prop where
  seen_iff : ∀ x, x ∈ seen ↔ x ∈ found
  waiting : ∀ x ∈ queue, x ∈ found
  reached : ∀ x ∈ found, Reached domain next roots x
  started : ∀ r ∈ roots, r ∈ domain → r ∈ found
  closed : ∀ x ∈ found, x ∉ queue → ∀ y, Leads domain next x y → y ∈ found

namespace Searching

variable {domain roots : List α} {next : α → List α} {seen : Std.HashSet α} {found queue : List α}

/-- `Searching` holds when the search starts, with the roots in the queue. -/
theorem start (domain : List α) (next : α → List α) (roots : List α) :
    Searching domain next roots (withAll ∅ (fresh (withAll ∅ domain) ∅ roots))
      (fresh (withAll ∅ domain) ∅ roots).reverse (fresh (withAll ∅ domain) ∅ roots) := by
  have hfresh : ∀ x, x ∈ fresh (withAll ∅ domain) ∅ roots ↔ x ∈ roots ∧ x ∈ domain := by
    intro x
    simp [mem_fresh, mem_withAll]
  constructor
  · simp [mem_withAll]
  · simp
  · intro x hx
    obtain ⟨hroot, hdomain⟩ := (hfresh x).1 (List.mem_reverse.1 hx)
    exact ⟨x, hroot, hdomain, .refl⟩
  · intro r hr hdomain
    exact List.mem_reverse.2 ((hfresh r).2 ⟨hr, hdomain⟩)
  · -- everything found is still in the queue
    intro x hx hqueue
    exact absurd (List.mem_reverse.1 hx) hqueue

/-- `Searching` is kept by a step, which follows the links of the first element in the queue. -/
theorem step {x : α} (h : Searching domain next roots seen found (x :: queue)) :
    Searching domain next roots (withAll seen (fresh (withAll ∅ domain) seen (next x)))
      ((fresh (withAll ∅ domain) seen (next x)).reverse ++ found)
      (queue ++ fresh (withAll ∅ domain) seen (next x)) := by
  have hmore : ∀ y, y ∈ fresh (withAll ∅ domain) seen (next x) ↔ Leads domain next x y ∧ y ∉ found := by
    intro y
    simp [mem_fresh, mem_withAll, Leads, h.seen_iff, and_assoc]
  constructor
  · -- `seen_iff`: what was found is marked, and so is what is new
    intro y
    simp only [mem_withAll, h.seen_iff, List.mem_append, List.mem_reverse]
    exact Or.comm
  · -- `waiting`: what is new waits and is found at once
    intro y hy
    rcases List.mem_append.1 hy with hy | hy
    · exact List.mem_append_right _ (h.waiting y (List.mem_cons_of_mem x hy))
    · exact List.mem_append_left _ (List.mem_reverse.2 hy)
  · -- `reached`: what is new is one link behind `x`
    intro y hy
    rcases List.mem_append.1 hy with hy | hy
    · obtain ⟨r, hr, hdomain, hpath⟩ := h.reached x (h.waiting x List.mem_cons_self)
      exact ⟨r, hr, hdomain, hpath.tail ((hmore y).1 (List.mem_reverse.1 hy)).1⟩
    · exact h.reached y hy
  · intro r hr hdomain
    exact List.mem_append_right _ (h.started r hr hdomain)
  · -- `closed`: only the links of `x` have changed their place
    intro y hy hqueue z hz
    simp only [List.mem_append, not_or] at hqueue
    rcases List.mem_append.1 hy with hy | hy
    · exact absurd (List.mem_reverse.1 hy) hqueue.2
    · by_cases hfound : z ∈ found
      · exact List.mem_append_right _ hfound
      · by_cases hyx : y = x
        · -- the links of `x` are followed in this very step
          subst hyx
          exact List.mem_append_left _ (List.mem_reverse.2 ((hmore z).2 ⟨hz, hfound⟩))
        · have hwait : y ∉ x :: queue := by
            simp only [List.mem_cons, not_or]
            exact ⟨hyx, hqueue.1⟩
          exact absurd (h.closed y hy hwait z hz) hfound

omit [LawfulBEq α] in
/-- A search that has come to its end has found what is `Reached`. -/
theorem mem_found_iff (h : Searching domain next roots seen found []) {x : α} :
    x ∈ found ↔ Reached domain next roots x := by
  constructor
  · exact h.reached x
  · rintro ⟨r, hr, hdomain, hpath⟩
    induction hpath with
    | refl => exact h.started r hr hdomain
    | tail _ hlead ih => exact h.closed _ ih List.not_mem_nil _ hlead

/-- `explore` finds what is `Reached`. -/
theorem mem_explore (h : Searching domain next roots seen found queue) {x : α} :
    x ∈ explore (withAll ∅ domain) next seen found queue ↔ Reached domain next roots x := by
  induction seen, found, queue using explore.induct (withAll ∅ domain) next with
  | case1 seen found =>
    unfold explore
    rw [List.mem_reverse]
    exact h.mem_found_iff
  | case2 seen found y queue more ih =>
    unfold explore
    exact ih h.step

end Searching

/-- `closure` lists what is `Reached` from the roots. -/
theorem mem_closure {domain roots : List α} {next : α → List α} {x : α} :
    x ∈ closure domain next roots ↔ Reached domain next roots x :=
  (Searching.start domain next roots).mem_explore

end CallAtlas
