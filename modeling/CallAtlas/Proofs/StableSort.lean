/-!
# Stable sorting

Merge sort keeps the order of elements that are tied. This and being in order determine its result
(`mergeSort_eq_of_tied`), so it does not matter whether elements are left out before or after sorting
(`filter_mergeSort`). Where no elements are tied, any other sort leaves the same list (`eq_of_sorts`).

What a program leaves open is a choice: a `Listing` puts a table in some order, a `Sorting` does as it likes
with elements that are tied. Where a program is said to depend on neither, it is given both as arguments.
-/

namespace CallAtlas

variable {α : Type}

/-- A comparison in which everything has its place, possibly together with others. -/
structure TotalPreorder (le : α → α → Bool) : Prop where
  trans : ∀ a b c, le a b → le b c → le a c
  total : ∀ a b, le a b || le b a

/-- Neither of two elements has to come before the other. -/
def tied (le : α → α → Bool) (a b : α) : Bool :=
  le a b && le b a

namespace TotalPreorder

variable {le : α → α → Bool} (hle : TotalPreorder le)
include hle

/-- Elements can be compared by what they are filed under: `TotalPreorder` passes to them. -/
theorem comap {β : Type} (f : β → α) : TotalPreorder fun b c => le (f b) (f c) :=
  ⟨fun _ _ _ => hle.trans _ _ _, fun _ _ => hle.total _ _⟩

/-- A `TotalPreorder` puts nothing before itself. -/
theorem refl (a : α) : le a a := by
  have := hle.total a a
  rwa [Bool.or_self] at this

/-- Every element is `tied` with itself. -/
theorem tied_self (a : α) : tied le a a := by
  rw [tied, hle.refl a]
  rfl

/-- Elements that are `tied` with one are in order among themselves. -/
theorem pairwise_filter_tied (a : α) (l : List α) :
    (l.filter (tied le a)).Pairwise fun b c => le b c := by
  apply List.pairwise_of_forall_mem_list
  intro b hb c hc
  have hba := (List.mem_filter.1 hb).2
  have hac := (List.mem_filter.1 hc).2
  simp only [tied, Bool.and_eq_true] at hba hac
  exact hle.trans b a c hba.2 hac.1

/-- `mergeSort` keeps the order of `tied` elements. -/
theorem filter_tied_mergeSort (l : List α) (a : α) :
    (l.mergeSort le).filter (tied le a) = l.filter (tied le a) := by
  -- those elements are a sorted part of the list, and merge sort keeps sorted parts
  have hsub : (l.filter (tied le a)).Sublist (l.mergeSort le) :=
    List.sublist_mergeSort hle.trans hle.total (hle.pairwise_filter_tied a l) List.filter_sublist
  have hfilter := hsub.filter (tied le a)
  rw [List.filter_filter] at hfilter
  simp only [Bool.and_self] at hfilter
  have hlength : (l.filter (tied le a)).length = ((l.mergeSort le).filter (tied le a)).length :=
    (((List.mergeSort_perm l le).filter (tied le a)).length_eq).symm
  exact (hfilter.eq_of_length hlength).symm

/-- Lists in order that agree on `tied` elements are equal. -/
theorem eq_of_tied {s t : List α} (hs : s.Pairwise fun a b => le a b)
    (ht : t.Pairwise fun a b => le a b)
    (h : ∀ a, s.filter (tied le a) = t.filter (tied le a)) : s = t := by
  -- by induction on one list, whose head must be the head of the other
  induction s generalizing t with
  | nil =>
    cases t with
    | nil => rfl
    | cons b t =>
      have := h b
      simp [hle.tied_self b] at this
  | cons a s ih =>
    cases t with
    | nil =>
      have := h a
      simp [hle.tied_self a] at this
    | cons b t =>
      -- each head is found in the other list, so neither comes before the other
      have hab : le a b := by
        have hmem : b ∈ (a :: s).filter (tied le b) := by
          rw [h b]
          exact List.mem_filter.2 ⟨List.mem_cons_self, hle.tied_self b⟩
        rcases List.mem_cons.1 (List.mem_filter.1 hmem).1 with rfl | hb
        · exact hle.refl b
        · exact List.rel_of_pairwise_cons hs hb
      have hba : le b a := by
        have hmem : a ∈ (b :: t).filter (tied le a) := by
          rw [← h a]
          exact List.mem_filter.2 ⟨List.mem_cons_self, hle.tied_self a⟩
        rcases List.mem_cons.1 (List.mem_filter.1 hmem).1 with rfl | ha
        · exact hle.refl a
        · exact List.rel_of_pairwise_cons ht ha
      have hhead := h a
      rw [List.filter_cons_of_pos (hle.tied_self a), List.filter_cons_of_pos (by
        simp [tied, hab, hba])] at hhead
      obtain rfl := (List.cons.inj hhead).1
      congr 1
      -- without its head the lists still agree on tied elements
      refine ih hs.tail ht.tail fun c => ?_
      have hc := h c
      rw [List.filter_cons, List.filter_cons] at hc
      split at hc
      · exact (List.cons.inj hc).2
      · exact hc

/-- `mergeSort` puts a list in order. -/
theorem pairwise_mergeSort (l : List α) : (l.mergeSort le).Pairwise fun a b => le a b :=
  List.pairwise_mergeSort hle.trans hle.total l

/-- What holds along a list holds along the sorted one wherever elements are `tied`. -/
theorem pairwise_mergeSort_of_pairwise {r : α → α → Prop} {l : List α} (hr : l.Pairwise r) :
    (l.mergeSort le).Pairwise fun a b => le a b ∧ (le b a → r a b) := by
  rw [List.pairwise_iff_forall_sublist]
  intro a b hsub
  have hab : le a b := List.pairwise_iff_forall_sublist.1 (hle.pairwise_mergeSort l) hsub
  refine ⟨hab, fun hba => ?_⟩
  -- the two stand in the same order among those that are tied with the first
  have htied := hsub.filter (tied le a)
  rw [List.filter_cons_of_pos (hle.tied_self a),
    List.filter_cons_of_pos (by rw [tied, hab, hba]; rfl), List.filter_nil,
    hle.filter_tied_mergeSort] at htied
  exact List.pairwise_iff_forall_sublist.1 hr (htied.trans List.filter_sublist)

/-- Lists that agree on `tied` elements are sorted to the same list. -/
theorem mergeSort_eq_of_tied {l l' : List α}
    (h : ∀ a, l.filter (tied le a) = l'.filter (tied le a)) : l.mergeSort le = l'.mergeSort le := by
  refine hle.eq_of_tied (hle.pairwise_mergeSort l) (hle.pairwise_mergeSort l') fun a => ?_
  rw [hle.filter_tied_mergeSort, hle.filter_tied_mergeSort, h a]

/-- Where no two elements are `tied`, their order does not matter. -/
theorem filter_tied_eq_of_perm {l l' : List α} (hl : l.Pairwise fun a b => tied le a b = false)
    (h : l.Perm l') (a : α) : l.filter (tied le a) = l'.filter (tied le a) := by
  have hperm := h.filter (tied le a)
  have hpair := hl.filter (tied le a)
  have hmem : ∀ b ∈ l.filter (tied le a), tied le a b := fun b hb => (List.mem_filter.1 hb).2
  -- of the elements tied with `a` there is one at most, so that order does not matter
  match hfilter : l.filter (tied le a) with
  | [] =>
    rw [hfilter] at hperm
    exact hperm.nil_eq
  | [b] =>
    rw [hfilter] at hperm
    exact List.singleton_perm.1 hperm
  | b :: c :: rest =>
    -- two elements tied with `a` are tied with each other, of which there are none
    rw [hfilter] at hpair hmem
    have hab := hmem b (by simp)
    have hac := hmem c (by simp)
    simp only [tied, Bool.and_eq_true] at hab hac
    have hbc : tied le b c := by
      rw [tied, hle.trans b a c hab.2 hac.1, hle.trans c a b hac.2 hab.1]
      rfl
    have := List.rel_of_pairwise_cons hpair (List.mem_cons_self (a := c))
    exact absurd (this.symm.trans hbc) Bool.false_ne_true

/-- Elements can be left out before or after `mergeSort`. -/
theorem filter_mergeSort (p : α → Bool) (l : List α) :
    (l.mergeSort le).filter p = (l.filter p).mergeSort le := by
  refine hle.eq_of_tied ((hle.pairwise_mergeSort l).filter p) (hle.pairwise_mergeSort _) fun a => ?_
  have hcomm : ∀ xs : List α, (xs.filter p).filter (tied le a) = (xs.filter (tied le a)).filter p := by
    intro xs
    rw [List.filter_filter, List.filter_filter]
    exact congrFun (congrArg List.filter (funext fun x => Bool.and_comm _ _)) xs
  rw [hcomm (l.mergeSort le), hle.filter_tied_mergeSort l, ← hcomm, hle.filter_tied_mergeSort]

end TotalPreorder

/-! ### Sorting that need not be stable -/

/-- `ys` are the elements of `xs` in an order that a comparison allows. Elements that are tied may stand in any
    order. -/
structure Sorts (le : α → α → Bool) (xs ys : List α) : Prop where
  perm : ys.Perm xs
  ordered : ys.Pairwise fun a b => le a b

/-- A change of the elements that keeps their order keeps lists sorted. -/
theorem Sorts.map {β : Type} {le : α → α → Bool} {le' : β → β → Bool} {xs ys : List α} (h : Sorts le xs ys)
    (f : α → β) (hf : ∀ a ∈ xs, ∀ b ∈ xs, le' (f a) (f b) = le a b) :
    Sorts le' (xs.map f) (ys.map f) := by
  constructor
  · exact h.perm.map f
  · rw [List.pairwise_map]
    refine h.ordered.imp_of_mem fun ha hb hab => ?_
    rw [hf _ (h.perm.mem_iff.1 ha) _ (h.perm.mem_iff.1 hb)]
    exact hab

theorem tied_comm (le : α → α → Bool) (a b : α) : tied le a b = tied le b a :=
  Bool.and_comm _ _

/-- Sorting ties nothing: `Sorts` leaves elements apart that were not `tied`. -/
theorem Sorts.pairwise_untied {le : α → α → Bool} {xs ys : List α} (h : Sorts le xs ys)
    (hapart : xs.Pairwise fun a b => tied le a b = false) : ys.Pairwise fun a b => tied le a b = false :=
  (h.perm.pairwise_iff fun {a b} hab => (tied_comm le b a).trans hab).2 hapart

namespace TotalPreorder

variable {le : α → α → Bool} (hle : TotalPreorder le)
include hle

/-- `mergeSort` is one way to sort. -/
theorem sorts_mergeSort (xs : List α) : Sorts le xs (xs.mergeSort le) :=
  ⟨List.mergeSort_perm xs le, hle.pairwise_mergeSort xs⟩

/-- Where no two elements are `tied`, every way to sort leaves the same list, in whatever order the elements
    came. -/
theorem eq_of_sorts {xs xs' ys ys' : List α} (hapart : xs.Pairwise fun a b => tied le a b = false)
    (hperm : xs'.Perm xs) (h : Sorts le xs ys) (h' : Sorts le xs' ys') : ys = ys' := by
  refine hle.eq_of_tied h.ordered h'.ordered fun a => ?_
  exact hle.filter_tied_eq_of_perm (h.pairwise_untied hapart) (h.perm.trans (hperm.symm.trans h'.perm.symm)) a

end TotalPreorder

/-! ### What a program leaves open -/

/-- An order in which a table lists its keys, whatever they are. -/
structure Listing (α : Type) where
  list : List α → List α
  perm : ∀ l, (list l).Perm l

/-- A sort, which need not be stable. -/
structure Sorting {α : Type} (le : α → α → Bool) where
  sort : List α → List α
  sorts : ∀ l, Sorts le l (sort l)

/-- A sort that turns tied elements round. -/
def backwardSort {α : Type} {le : α → α → Bool} (hle : TotalPreorder le) : Sorting le where
  sort l := l.reverse.mergeSort le
  sorts l := ⟨(List.mergeSort_perm _ _).trans (List.reverse_perm l), hle.pairwise_mergeSort _⟩

/-- Lists in order with the same elements are equal if nothing is repeated in them. -/
theorem eq_of_mem_iff {α : Type} {le : α → α → Bool} (hanti : ∀ a b, le a b = true → le b a = true → a = b)
    {xs ys : List α} (hxs : xs.Pairwise fun a b => le a b) (hys : ys.Pairwise fun a b => le a b)
    (hx : xs.Nodup) (hy : ys.Nodup) (hmem : ∀ a, a ∈ xs ↔ a ∈ ys) : xs = ys :=
  List.Perm.eq_of_pairwise (fun a b _ _ => hanti a b) hxs hys ((List.perm_ext_iff_of_nodup hx hy).2 hmem)

end CallAtlas
