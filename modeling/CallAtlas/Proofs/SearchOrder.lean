import Mathlib.Data.List.Nodup
import CallAtlas.Proofs.Neighbourhood

/-!
# Search finds near elements first

A breadth-first search lists elements in the order of the number of links that it takes to get to them
(`pairwise_closure`). What has been found so far is done or waits. Along the one and then the other the
number of links ascends, and from the first that waits to the last it grows by one at most
(`SearchingInOrder`).
-/

namespace CallAtlas

variable {α : Type} [BEq α] [Hashable α]

section
variable {link : α → α → Prop} {a b : α}

omit [BEq α] [Hashable α] in
/-- Links lead somewhere if so many of them do. -/
theorem reflTransGen_iff_hops : Relation.ReflTransGen link a b ↔ ∃ n, Hops link n a b := by
  constructor
  · intro h
    -- links are counted from the first on
    induction h with
    | refl => exact ⟨0, .none a⟩
    | tail _ hlink ih =>
      obtain ⟨n, hpath⟩ := ih
      exact ⟨n + 1, hpath.one_more hlink⟩
  · rintro ⟨n, hpath⟩
    induction hpath with
    | none => exact .refl
    | one_more _ hlink ih => exact ih.tail hlink

omit [BEq α] [Hashable α] in
/-- One link or more lead somewhere if so many of them do. -/
theorem transGen_iff_hops : Relation.TransGen link a b ↔ ∃ n, Hops link (n + 1) a b := by
  simp only [Relation.TransGen.tail'_iff, reflTransGen_iff_hops]
  constructor
  · rintro ⟨c, ⟨n, hpath⟩, hlink⟩
    exact ⟨n, hpath.one_more hlink⟩
  · rintro ⟨n, hpath⟩
    cases hpath with
    | one_more hpath hlink => exact ⟨_, ⟨n, hpath⟩, hlink⟩

end

/-- So many links lead from one of the roots to the element, and none leaves the domain. -/
def ReachedAfter (domain : List α) (next : α → List α) (roots : List α) (n : Nat) (x : α) : Prop :=
  ∃ r ∈ roots, r ∈ domain ∧ Hops (Leads domain next) n r x

omit [BEq α] [Hashable α] in
/-- What is `Reached` is reached after some number of links. -/
theorem reached_iff_exists_reachedAfter {domain roots : List α} {next : α → List α} {x : α} :
    Reached domain next roots x ↔ ∃ n, ReachedAfter domain next roots n x := by
  simp only [Reached, ReachedAfter, reflTransGen_iff_hops]
  constructor
  · rintro ⟨r, hr, hdomain, n, hpath⟩
    exact ⟨n, r, hr, hdomain, hpath⟩
  · rintro ⟨n, r, hr, hdomain, hpath⟩
    exact ⟨r, hr, hdomain, n, hpath⟩

/-- What holds of a search at every step. The elements found so far come with the number of links that led to
    them: those whose links have been followed, and those that wait. -/
structure SearchingInOrder (domain : List α) (next : α → List α) (roots : List α)
    (done waiting : List (α × Nat)) (seen : Std.HashSet α) : Prop where
  seen_iff : ∀ x, x ∈ seen ↔ ∃ d, (x, d) ∈ done ++ waiting
  ascending : (done ++ waiting).Pairwise fun p q => p.2 ≤ q.2
  /-- What waits spans two numbers of links at most. -/
  close : ∀ p ∈ waiting, ∀ q ∈ waiting, q.2 ≤ p.2 + 1
  reached : ∀ p ∈ done ++ waiting, ReachedAfter domain next roots p.2 p.1
  started : ∀ r ∈ roots, r ∈ domain → (r, 0) ∈ done ++ waiting
  followed : ∀ p ∈ done, ∀ y, Leads domain next p.1 y → ∃ d, d ≤ p.2 + 1 ∧ (y, d) ∈ done ++ waiting

namespace SearchingInOrder

variable {domain roots : List α} {next : α → List α} {done waiting : List (α × Nat)}
  {seen : Std.HashSet α}

/-- `SearchingInOrder` holds when the search starts, with the roots at no links. -/
theorem start [LawfulBEq α] (domain : List α) (next : α → List α) (roots : List α) :
    SearchingInOrder domain next roots []
      ((fresh (withAll ∅ domain) ∅ roots).map fun r => (r, 0))
      (withAll ∅ (fresh (withAll ∅ domain) ∅ roots)) := by
  -- of the roots only those in the domain are there, once each
  have hfresh : ∀ x, x ∈ fresh (withAll ∅ domain) ∅ roots ↔ x ∈ roots ∧ x ∈ domain := by
    intro x
    simp [mem_fresh, mem_withAll]
  generalize fresh (withAll ∅ domain) ∅ roots = first at hfresh
  have hzero : ∀ p ∈ first.map fun r => (r, 0), p.1 ∈ first ∧ p.2 = 0 := by
    intro p hp
    obtain ⟨r, hr, rfl⟩ := List.mem_map.1 hp
    exact ⟨hr, rfl⟩
  -- all that is there are the roots, and none of them has been followed
  constructor
  · intro x
    rw [List.nil_append, exists_label_iff, mem_withAll]
    simp
  · exact List.pairwise_map.2 (List.pairwise_of_forall fun _ _ => Nat.le_refl 0)
  · intro p _ q hq
    rw [(hzero q hq).2]
    omega
  · intro p hp
    obtain ⟨hfirst, hd⟩ := hzero p hp
    obtain ⟨hroot, hdomain⟩ := (hfresh p.1).1 hfirst
    rw [hd]
    exact ⟨p.1, hroot, hdomain, .none p.1⟩
  · exact fun r hr hdomain => List.mem_map_of_mem ((hfresh r).2 ⟨hr, hdomain⟩)
  · exact fun p hp => absurd hp List.not_mem_nil

/-- `SearchingInOrder` is kept by a step, which follows the links of the first element that waits. -/
theorem step [LawfulBEq α] {x : α} {depth : Nat}
    (h : SearchingInOrder domain next roots done ((x, depth) :: waiting) seen) :
    SearchingInOrder domain next roots (done ++ [(x, depth)])
      (waiting ++ (fresh (withAll ∅ domain) seen (next x)).map fun y => (y, depth + 1))
      (withAll seen (fresh (withAll ∅ domain) seen (next x))) := by
  have hmore : ∀ y, y ∈ fresh (withAll ∅ domain) seen (next x) ↔ Leads domain next x y ∧ y ∉ seen := by
    intro y
    simp [mem_fresh, mem_withAll, Leads, and_assoc]
  generalize fresh (withAll ∅ domain) seen (next x) = more at hmore
  have hnew : ∀ p ∈ more.map fun y => (y, depth + 1), p.1 ∈ more ∧ p.2 = depth + 1 := by
    intro p hp
    obtain ⟨y, hy, rfl⟩ := List.mem_map.1 hp
    exact ⟨hy, rfl⟩
  -- the list of all that was found is the old one with the new elements at its end
  have hwhole : (done ++ [(x, depth)]) ++ (waiting ++ more.map fun y => (y, depth + 1)) =
      (done ++ (x, depth) :: waiting) ++ more.map fun y => (y, depth + 1) := by
    simp
  have hhead : (x, depth) ∈ (x, depth) :: waiting := List.mem_cons_self
  obtain ⟨-, hwaiting, hdone⟩ := List.pairwise_append.1 h.ascending
  -- what has been found so far took at most one link more than the first element that waits
  have hfound : ∀ p ∈ done ++ (x, depth) :: waiting, p.2 ≤ depth + 1 := by
    intro p hp
    rcases List.mem_append.1 hp with hp | hp
    · exact Nat.le_succ_of_le (hdone p hp _ hhead)
    · exact h.close _ hhead p hp
  have hbehind : ∀ p ∈ waiting ++ more.map fun y => (y, depth + 1), depth ≤ p.2 ∧ p.2 ≤ depth + 1 := by
    intro p hp
    rcases List.mem_append.1 hp with hp | hp
    · exact ⟨(List.pairwise_cons.1 hwaiting).1 p hp, h.close _ hhead p (List.mem_cons_of_mem _ hp)⟩
    · rw [(hnew p hp).2]
      exact ⟨Nat.le_succ depth, Nat.le_refl _⟩
  constructor
  · intro y
    rw [hwhole]
    simp only [mem_withAll, h.seen_iff, List.mem_append (t := more.map _), exists_or, exists_label_iff]
  · -- `ascending`: the new elements took one link more than the first that waited
    rw [hwhole]
    refine List.pairwise_append.2 ⟨h.ascending, ?_, ?_⟩
    · exact List.pairwise_map.2 (List.pairwise_of_forall fun _ _ => Nat.le_refl _)
    · -- `close`: all that waits now lies between `depth` and `depth + 1`
      intro p hp q hq
      rw [(hnew q hq).2]
      exact hfound p hp
  · intro p hp q hq
    have := (hbehind p hp).1
    have := (hbehind q hq).2
    omega
  · intro p hp
    rw [hwhole] at hp
    rcases List.mem_append.1 hp with hp | hp
    · exact h.reached p hp
    · obtain ⟨hmem, hd⟩ := hnew p hp
      obtain ⟨r, hr, hdomain, hpath⟩ := h.reached _ (List.mem_append_right done hhead)
      rw [hd]
      exact ⟨r, hr, hdomain, hpath.one_more ((hmore p.1).1 hmem).1⟩
  · intro r hr hdomain
    rw [hwhole]
    exact List.mem_append_left _ (h.started r hr hdomain)
  · -- `followed`: the first element that waited is done now
    intro p hp y hy
    rw [hwhole]
    rcases List.mem_append.1 hp with hp | hp
    · obtain ⟨d, hd, hmem⟩ := h.followed p hp y hy
      exact ⟨d, hd, List.mem_append_left _ hmem⟩
    · -- these links are followed right now; what they lead to is new or was found in time
      obtain rfl := List.mem_singleton.1 hp
      by_cases hseen : y ∈ seen
      · obtain ⟨d, hd⟩ := (h.seen_iff y).1 hseen
        exact ⟨d, hfound _ hd, List.mem_append_left _ hd⟩
      · have hfresh : y ∈ more := (hmore y).2 ⟨hy, hseen⟩
        exact ⟨depth + 1, Nat.le_refl _, List.mem_append_right _ (List.mem_map_of_mem hfresh)⟩

/-- `explore` ends with all that it lists done, from any point where `SearchingInOrder` holds. -/
theorem exists_explore_eq [LawfulBEq α] (h : SearchingInOrder domain next roots done waiting seen) :
    ∃ labels seen', explore (withAll ∅ domain) next seen ((done ++ waiting).map Prod.fst).reverse
        (waiting.map Prod.fst) = labels.map Prod.fst ∧
      SearchingInOrder domain next roots labels [] seen' := by
  -- the search takes lists without numbers, which follow from those with numbers
  generalize hfound : ((done ++ waiting).map Prod.fst).reverse = found
  generalize hqueue : waiting.map Prod.fst = queue
  induction seen, found, queue using explore.induct (withAll ∅ domain) next
    generalizing done waiting with
  | case1 seen found =>
    obtain rfl := List.map_eq_nil_iff.1 hqueue
    rw [List.append_nil] at hfound
    refine ⟨done, seen, ?_, h⟩
    unfold explore
    rw [← hfound, List.reverse_reverse]
  | case2 seen found x queue more =>
    rename_i ih
    -- the element that is taken has a number in our list
    obtain ⟨⟨y, depth⟩, rest, rfl, hy, rfl⟩ := List.map_eq_cons_iff.1 hqueue
    subst hy
    unfold explore
    refine ih h.step ?_ ?_
    · rw [← hfound]
      simp [more, Function.comp_def]
    · simp [more, Function.comp_def]

/-- A search that has come to its end has found everything with as few links as lead to it. -/
theorem exists_label (h : SearchingInOrder domain next roots done [] seen) {n : Nat} {x : α}
    (hx : ReachedAfter domain next roots n x) : ∃ d, d ≤ n ∧ (x, d) ∈ done := by
  obtain ⟨r, hr, hdomain, hpath⟩ := hx
  induction hpath with
  | none => exact ⟨0, Nat.le_refl 0, List.append_nil done ▸ h.started _ hr hdomain⟩
  | @one_more n a b c _ hlink ih =>
    -- the element before was found in time, and its links have been followed
    obtain ⟨d, hd, hmem⟩ := ih hr hdomain
    obtain ⟨d', hd', hmem'⟩ := h.followed _ hmem _ hlink
    rw [List.append_nil] at hmem'
    exact ⟨d', Nat.le_trans hd' (Nat.succ_le_succ hd), hmem'⟩

end SearchingInOrder

/-- Of two elements that `closure` lists, the first takes no more links than the second. -/
theorem pairwise_closure [LawfulBEq α] (domain : List α) (next : α → List α) (roots : List α) :
    (closure domain next roots).Pairwise fun x y => ∀ n, ReachedAfter domain next roots n y →
      ∃ m ≤ n, ReachedAfter domain next roots m x := by
  obtain ⟨labels, seen, hlabels, hend⟩ :=
    (SearchingInOrder.start domain next roots).exists_explore_eq
  have hclosure : closure domain next roots = labels.map Prod.fst := by
    rw [← hlabels]
    simp [closure, Function.comp_def]
  have hnodup : (labels.map Prod.fst).Nodup := hclosure ▸ nodup_closure domain next roots
  have hascending := hend.ascending
  rw [List.append_nil] at hascending
  rw [hclosure]
  refine List.pairwise_map.2 (hascending.imp_of_mem fun {p q} hp hq hle n hn => ?_)
  obtain ⟨d, hd, hmem⟩ := hend.exists_label hn
  -- an element is listed with one number of links only
  have hlabel : (q.1, d) = q := List.inj_on_of_nodup_map hnodup hmem hq rfl
  have hdepth : d = q.2 := congrArg Prod.snd hlabel
  refine ⟨p.2, by omega, hend.reached p ?_⟩
  rw [List.append_nil]
  exact hp

end CallAtlas
