import CallAtlas.Proofs.Closure

/-!
# A search that stops finds the neighbourhood

A breadth-first search that follows at most so many links in a row finds exactly what so many links lead to
(`mem_neighbourhood`). An element that is found late gets fewer links of its own, so this depends on the
order of the queue: whatever has been found so far took at most one link more than what waits
(`SearchingNear.ahead`). Hence an element that was found before it is met again took no more links than it
would have taken now.
-/

namespace CallAtlas

variable {α : Type}

/-- So many links in a row lead from one element to another. -/
inductive Hops (link : α → α → Prop) : Nat → α → α → Prop where
  | none (a : α) : Hops link 0 a a
  | one_more {n : Nat} {a b c : α} : Hops link n a b → link b c → Hops link (n + 1) a c

/-- Elements that all have one number are those of the list. -/
theorem exists_label_iff {xs : List α} {d : Nat} {x : α} :
    (∃ k, (x, k) ∈ xs.map fun y => (y, d)) ↔ x ∈ xs := by
  simp only [List.mem_map, Prod.mk.injEq]
  constructor
  · rintro ⟨_, y, hy, rfl, rfl⟩
    exact hy
  · exact fun hx => ⟨d, x, hx, rfl, rfl⟩

variable [BEq α] [Hashable α]

/-- What holds of a search at every step. `labels` are the elements found so far, each with the number of links
    that led to it. -/
structure SearchingNear (domain : List α) (next : α → List α) (hops : Nat) (roots : List α)
    (labels : List (α × Nat)) (seen : Std.HashSet α) (found : List α) (queue : List (α × Nat)) :
    Prop where
  seen_iff : ∀ x, x ∈ seen ↔ ∃ d, (x, d) ∈ labels
  found_iff : ∀ x, x ∈ found ↔ ∃ d, (x, d) ∈ labels
  waiting : ∀ p ∈ queue, p ∈ labels
  /-- The queue is in the order of the number of links. -/
  ascending : queue.Pairwise fun p q => p.2 ≤ q.2
  /-- Nothing was found with more than one link more than what waits. -/
  ahead : ∀ p ∈ queue, ∀ q ∈ labels, q.2 ≤ p.2 + 1
  reached : ∀ p ∈ labels, p.2 ≤ hops ∧ ∃ r ∈ roots, Hops (Leads domain next) p.2 r p.1
  started : ∀ r ∈ roots, (r, 0) ∈ labels
  /-- Links out of what does not wait any more have been followed, unless it took all links to get there. -/
  followed : ∀ p ∈ labels, p ∉ queue → p.2 < hops → ∀ y, Leads domain next p.1 y →
    ∃ d, d ≤ p.2 + 1 ∧ (y, d) ∈ labels

namespace SearchingNear

variable {domain roots : List α} {next : α → List α} {hops : Nat} {labels : List (α × Nat)}
  {seen : Std.HashSet α} {found : List α} {queue : List (α × Nat)}

/-- `SearchingNear` holds when the search starts, with the roots at no links. -/
theorem start [LawfulBEq α] (domain : List α) (next : α → List α) (hops : Nat) (roots : List α) :
    SearchingNear domain next hops roots (roots.map fun r => (r, 0)) (withAll ∅ roots) roots.reverse
      (roots.map fun r => (r, 0)) := by
  -- nothing is known but the roots, which no link leads to
  have hzero : ∀ p ∈ roots.map fun r => (r, 0), p.1 ∈ roots ∧ p.2 = 0 := by
    intro p hp
    obtain ⟨r, hr, rfl⟩ := List.mem_map.1 hp
    exact ⟨hr, rfl⟩
  constructor
  · intro x
    rw [exists_label_iff, mem_withAll]
    simp
  · intro x
    rw [exists_label_iff, List.mem_reverse]
  · exact fun p hp => hp
  · exact List.pairwise_map.2 (List.pairwise_of_forall fun _ _ => Nat.le_refl 0)
  · intro p _ q hq
    rw [(hzero q hq).2]
    omega
  · intro p hp
    obtain ⟨hr, hd⟩ := hzero p hp
    rw [hd]
    exact ⟨Nat.zero_le hops, p.1, hr, .none p.1⟩
  · exact fun r hr => List.mem_map_of_mem hr
  · exact fun p hp hwait => absurd hp hwait

/-- `SearchingNear` is kept when an element that took all links is dropped. -/
theorem drop {x : α} {depth : Nat}
    (h : SearchingNear domain next hops roots labels seen found ((x, depth) :: queue))
    (hdepth : hops ≤ depth) : SearchingNear domain next hops roots labels seen found queue := by
  refine { h with
    waiting := fun p hp => h.waiting p (List.mem_cons_of_mem _ hp)
    ascending := h.ascending.tail
    ahead := fun p hp => h.ahead p (List.mem_cons_of_mem _ hp)
    followed := ?_ }
  intro p hp hwait hlt
  -- an element that may still follow links is not the one dropped
  have hne : p ≠ (x, depth) := by
    rintro rfl
    exact absurd hdepth (Nat.not_le.2 hlt)
  refine h.followed p hp (fun hmem => ?_) hlt
  rcases List.mem_cons.1 hmem with heq | hmem
  · exact hne heq
  · exact hwait hmem

/-- `SearchingNear` is kept when the links of the first element in the queue are followed. -/
theorem step [LawfulBEq α] {x : α} {depth : Nat}
    (h : SearchingNear domain next hops roots labels seen found ((x, depth) :: queue))
    (hdepth : depth < hops) :
    SearchingNear domain next hops roots
      (labels ++ (fresh (withAll ∅ domain) seen (next x)).map fun y => (y, depth + 1))
      (withAll seen (fresh (withAll ∅ domain) seen (next x)))
      ((fresh (withAll ∅ domain) seen (next x)).reverse ++ found)
      (queue ++ (fresh (withAll ∅ domain) seen (next x)).map fun y => (y, depth + 1)) := by
  have hmore : ∀ y, y ∈ fresh (withAll ∅ domain) seen (next x) ↔ Leads domain next x y ∧ y ∉ seen := by
    intro y
    simp [mem_fresh, mem_withAll, Leads, and_assoc]
  generalize fresh (withAll ∅ domain) seen (next x) = more at hmore
  have hhead : (x, depth) ∈ (x, depth) :: queue := List.mem_cons_self
  have hnew : ∀ p ∈ more.map fun y => (y, depth + 1), p.1 ∈ more ∧ p.2 = depth + 1 := by
    intro p hp
    obtain ⟨y, hy, rfl⟩ := List.mem_map.1 hp
    exact ⟨hy, rfl⟩
  -- what waits behind the first element took as many links as it, or one more
  have hbehind : ∀ p ∈ queue, depth ≤ p.2 ∧ p.2 ≤ depth + 1 := by
    intro p hp
    have hlabel := h.waiting p (List.mem_cons_of_mem _ hp)
    exact ⟨(List.pairwise_cons.1 h.ascending).1 p hp, h.ahead _ hhead p hlabel⟩
  -- one goal for each field, in the order of the structure
  constructor
  · intro y
    simp only [mem_withAll, h.seen_iff, List.mem_append, exists_or, exists_label_iff]
  · intro y
    simp only [List.mem_append, List.mem_reverse, h.found_iff, exists_or, exists_label_iff]
    exact or_comm
  · intro p hp
    rcases List.mem_append.1 hp with hp | hp
    · exact List.mem_append_left _ (h.waiting p (List.mem_cons_of_mem _ hp))
    · exact List.mem_append_right _ hp
  · -- `ascending`: the new elements took more links than the first, and go to the end
    refine List.pairwise_append.2 ⟨h.ascending.tail, ?_, ?_⟩
    · exact List.pairwise_map.2 (List.pairwise_of_forall fun _ _ => Nat.le_refl _)
    · -- `ahead`: all that was found lies within one link of what waits
      intro p hp q hq
      rw [(hnew q hq).2]
      exact (hbehind p hp).2
  · intro p hp q hq
    have hp' : depth ≤ p.2 := by
      rcases List.mem_append.1 hp with hp | hp
      · exact (hbehind p hp).1
      · have := (hnew p hp).2
        omega
    have hq' : q.2 ≤ depth + 1 := by
      rcases List.mem_append.1 hq with hq | hq
      · exact h.ahead _ hhead q hq
      · exact Nat.le_of_eq (hnew q hq).2
    omega
  · intro p hp
    rcases List.mem_append.1 hp with hp | hp
    · exact h.reached p hp
    · obtain ⟨hmem, hd⟩ := hnew p hp
      obtain ⟨-, r, hr, hpath⟩ := h.reached _ (h.waiting _ hhead)
      rw [hd]
      exact ⟨hdepth, r, hr, hpath.one_more ((hmore p.1).1 hmem).1⟩
  · exact fun r hr => List.mem_append_left _ (h.started r hr)
  · -- `followed`: the first element does not wait any more
    intro p hp hwait hlt y hy
    have hwait' : p ∉ queue ∧ p ∉ more.map fun y => (y, depth + 1) := by
      simpa only [List.mem_append, not_or] using hwait
    have hp : p ∈ labels := (List.mem_append.1 hp).resolve_right hwait'.2
    by_cases hpx : p = (x, depth)
    · -- these links are followed right now; what they lead to is new or was found in time
      subst hpx
      by_cases hseen : y ∈ seen
      · obtain ⟨d, hd⟩ := (h.seen_iff y).1 hseen
        exact ⟨d, h.ahead _ hhead _ hd, List.mem_append_left _ hd⟩
      · have hfresh : y ∈ more := (hmore y).2 ⟨hy, hseen⟩
        exact ⟨depth + 1, Nat.le_refl _, List.mem_append_right _ (List.mem_map_of_mem hfresh)⟩
    · have hwaited : p ∉ (x, depth) :: queue := by
        simp only [List.mem_cons, not_or]
        exact ⟨hpx, hwait'.1⟩
      obtain ⟨d, hd, hmem⟩ := h.followed p hp hwaited hlt y hy
      exact ⟨d, hd, List.mem_append_left _ hmem⟩

/-- A search that has come to its end has found everything with as few links as lead to it. -/
theorem exists_label (h : SearchingNear domain next hops roots labels seen found []) {n : Nat} {r x : α}
    (hr : r ∈ roots) (hpath : Hops (Leads domain next) n r x) (hn : n ≤ hops) :
    ∃ d, d ≤ n ∧ (x, d) ∈ labels := by
  induction hpath with
  | none => exact ⟨0, Nat.le_refl 0, h.started _ hr⟩
  | @one_more n a b c _ hlink ih =>
    -- the element before was found with as few links, so its own links were followed in time
    obtain ⟨d, hd, hmem⟩ := ih hr (by omega)
    obtain ⟨d', hd', hmem'⟩ := h.followed _ hmem List.not_mem_nil (Nat.lt_of_le_of_lt hd hn) _ hlink
    exact ⟨d', Nat.le_trans hd' (Nat.succ_le_succ hd), hmem'⟩

/-- `exploreNear` finds what at most so many links lead to. -/
theorem mem_exploreNear [LawfulBEq α] (h : SearchingNear domain next hops roots labels seen found queue)
    {x : α} : x ∈ exploreNear (withAll ∅ domain) next hops seen found queue ↔
      ∃ n ≤ hops, ∃ r ∈ roots, Hops (Leads domain next) n r x := by
  induction seen, found, queue using exploreNear.induct (withAll ∅ domain) next hops
    generalizing labels with
  | case1 seen found =>
    unfold exploreNear
    rw [List.mem_reverse, h.found_iff]
    constructor
    · rintro ⟨d, hd⟩
      exact ⟨d, h.reached _ hd⟩
    · rintro ⟨n, hn, r, hr, hpath⟩
      obtain ⟨d, -, hmem⟩ := h.exists_label hr hpath hn
      exact ⟨d, hmem⟩
  | case2 seen found y depth queue hdepth ih =>
    -- an element that took all links has none of its own
    unfold exploreNear
    rw [if_pos hdepth]
    exact ih (h.drop hdepth)
  | case3 seen found y depth queue hdepth more =>
    -- any other has its links followed
    rename_i ih
    unfold exploreNear
    rw [if_neg hdepth]
    exact ih (h.step (Nat.not_le.1 hdepth))

end SearchingNear

variable [LawfulBEq α]

/-- `neighbourhood` finds what at most so many links lead to. -/
theorem mem_neighbourhood {domain roots : List α} {next : α → List α} {hops : Nat} {x : α} :
    x ∈ neighbourhood domain next hops roots ↔
      ∃ n ≤ hops, ∃ r ∈ roots, Hops (Leads domain next) n r x :=
  (SearchingNear.start domain next hops roots).mem_exploreNear

/-- An `exploreNear` that has listed everything once so far, and knows all of it as seen, ends so. -/
theorem nodup_exploreNear (domain : Std.HashSet α) (next : α → List α) (hops : Nat)
    (seen : Std.HashSet α) (found : List α) (queue : List (α × Nat))
    (hseen : ∀ x ∈ found, seen.contains x = true) (hfound : found.Nodup) :
    (exploreNear domain next hops seen found queue).Nodup := by
  induction seen, found, queue using exploreNear.induct domain next hops with
  | case1 seen found =>
    unfold exploreNear
    exact List.pairwise_reverse.2 (hfound.imp fun h => h.symm)
  | case2 seen found y depth queue hdepth ih =>
    -- too far from the roots to go on from there
    unfold exploreNear
    rw [if_pos hdepth]
    exact ih hseen hfound
  | case3 seen found y depth queue hdepth more =>
    rename_i ih
    unfold exploreNear
    rw [if_neg hdepth]
    obtain ⟨hseen', hfound'⟩ := nodup_followed domain (next y) hseen hfound
    exact ih hseen' hfound'

/-- `neighbourhood` lists no element twice if the roots do not. -/
theorem nodup_neighbourhood (domain : List α) (next : α → List α) (hops : Nat) {roots : List α}
    (h : roots.Nodup) : (neighbourhood domain next hops roots).Nodup := by
  apply nodup_exploreNear
  · intro x hx
    rw [contains_withAll, Bool.or_eq_true]
    exact .inr (List.contains_iff_mem.2 (List.mem_reverse.1 hx))
  · exact List.pairwise_reverse.2 (h.imp fun h => h.symm)

end CallAtlas
