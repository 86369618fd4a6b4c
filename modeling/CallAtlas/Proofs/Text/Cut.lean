import Mathlib.Data.List.TakeWhile
import CallAtlas.Text.Split

/-!
# Cutting texts at a character

A text that was put together around a character comes apart in one way only, as long as one side of
the cut is free of that character.
-/

namespace CallAtlas.Text

variable {α : Type}

/-- The parts around the first `c` of a text are determined by the text. -/
theorem cut_first {c : α} {as bs ss ts : List α} (ha : c ∉ as) (hb : c ∉ bs)
    (h : as ++ c :: ss = bs ++ c :: ts) : as = bs ∧ ss = ts := by
  induction as generalizing bs with
  | nil =>
    cases bs with
    | nil => exact ⟨rfl, (List.cons.inj h).2⟩
    | cons b bs =>
      -- otherwise one of the parts in front would hold `c`
      have hc : c = b := (List.cons.inj h).1
      exact absurd (hc ▸ List.mem_cons_self) hb
  | cons a as ih =>
    cases bs with
    | nil =>
      have hc : a = c := (List.cons.inj h).1
      exact absurd (hc ▸ List.mem_cons_self) ha
    | cons b bs =>
      obtain ⟨rfl, htail⟩ := List.cons.inj h
      obtain ⟨rfl, hs⟩ := ih (fun hm => ha (List.mem_cons_of_mem a hm))
        (fun hm => hb (List.mem_cons_of_mem a hm)) htail
      exact ⟨rfl, hs⟩

/-- The parts around the last `c` of a text are determined by the text. -/
theorem cut_last {c : α} {as bs ss ts : List α} (hs : c ∉ ss) (ht : c ∉ ts)
    (h : as ++ c :: ss = bs ++ c :: ts) : as = bs ∧ ss = ts := by
  -- turned round, the last `c` is the first
  have hrev : ss.reverse ++ c :: as.reverse = ts.reverse ++ c :: bs.reverse := by
    simpa using congrArg List.reverse h
  obtain ⟨hss, has⟩ := cut_first (fun hm => hs (List.mem_reverse.1 hm))
    (fun hm => ht (List.mem_reverse.1 hm)) hrev
  exact ⟨List.reverse_inj.1 has, List.reverse_inj.1 hss⟩

section
variable [BEq α] [LawfulBEq α] {c : α} {as : List α}

theorem forall_ne_of_notMem (h : c ∉ as) : ∀ a ∈ as, (a != c) = true := by
  intro a ha
  simpa using fun heq : a = c => h (heq ▸ ha)

/-- `beforeFirst` gives back what was put in front of the first `c`. -/
theorem beforeFirst_append_cons (h : c ∉ as) (bs : List α) : beforeFirst c (as ++ c :: bs) = as := by
  rw [beforeFirst, List.takeWhile_append_of_pos (forall_ne_of_notMem h)]
  simp

/-- `fromFirst` gives back the first `c` and what was put behind it. -/
theorem fromFirst_append_cons (h : c ∉ as) (bs : List α) : fromFirst c (as ++ c :: bs) = c :: bs := by
  rw [fromFirst, List.dropWhile_append_of_pos (forall_ne_of_notMem h)]
  simp

/-- `beforeFirst` has no `c`. -/
theorem notMem_beforeFirst (as : List α) : c ∉ beforeFirst c as := by
  intro hmem
  have hne := List.all_eq_true.1 (List.all_takeWhile (p := (· != c)) (l := as)) c hmem
  simp at hne

omit [LawfulBEq α] in
/-- `afterLast` holds nothing but characters of the text. -/
theorem mem_of_mem_afterLast {a : α} (h : a ∈ afterLast c as) : a ∈ as :=
  List.mem_reverse.1 ((List.takeWhile_sublist _).subset (List.mem_reverse.1 h))

/-- `beforeLast` gives back what was put in front of the last `c`. -/
theorem beforeLast_append_cons (as : List α) {bs : List α} (h : c ∉ bs) :
    beforeLast c (as ++ c :: bs) = as := by
  have hbs : ∀ b ∈ bs.reverse, (b != c) = true :=
    forall_ne_of_notMem fun hmem => h (List.mem_reverse.1 hmem)
  have hreverse : (as ++ c :: bs).reverse = bs.reverse ++ c :: as.reverse := by simp
  rw [beforeLast, throughLast, hreverse, List.dropWhile_append_of_pos hbs]
  simp

omit [LawfulBEq α] in
/-- `beforeFirst` takes as many characters as stand in front of the first `c`. -/
theorem beforeFirst_eq_take (c : α) (cs : List α) : beforeFirst c cs = cs.take (cs.findIdx (· == c)) := by
  rw [beforeFirst, List.takeWhile_eq_take_findIdx_not]
  simp [bne]

/-- `beforeFirst` is the whole text where there is no `c`. -/
theorem beforeFirst_of_notMem (h : c ∉ as) : beforeFirst c as = as :=
  List.takeWhile_eq_self_iff.2 (forall_ne_of_notMem h)

/-- `beforeFirst` does not look behind the first `c`. -/
theorem beforeFirst_append (h : c ∈ as) (bs : List α) :
    beforeFirst c (as ++ bs) = beforeFirst c as := by
  induction as with
  | nil => exact absurd h List.not_mem_nil
  | cons a as ih =>
    unfold beforeFirst at ih ⊢
    by_cases ha : a = c
    · simp [ha]
    · have hmem : c ∈ as := (List.mem_cons.1 h).resolve_left fun heq => ha heq.symm
      simp [ha, ih hmem]

/-- `beforeLast` cuts a text at its last character if this is `c`, and otherwise further in front. -/
theorem beforeLast_concat (c : α) (as : List α) (x : α) :
    beforeLast c (as ++ [x]) = if x == c then as else beforeLast c as := by
  split
  · next heq =>
    rw [eq_of_beq heq]
    exact beforeLast_append_cons as List.not_mem_nil
  · next hne =>
    have hx : (x != c) = true := bne_iff_ne.2 fun heq => hne (beq_iff_eq.2 heq)
    simp [beforeLast, throughLast, hx]

/-- What stands in `beforeLast` is followed by the last `c`. -/
theorem exists_eq_beforeLast_append (h : c ∈ as) :
    ∃ rest, as = beforeLast c as ++ c :: rest ∧ c ∉ rest := by
  -- seen from the back, the last `c` is the first
  obtain ⟨rest, front, hreverse, hrest⟩ := List.eq_append_cons_of_mem (List.mem_reverse.2 h)
  have hlast : c ∉ rest.reverse := fun hmem => hrest (List.mem_reverse.1 hmem)
  have heq : as = front.reverse ++ c :: rest.reverse := by
    simpa using congrArg List.reverse hreverse
  have hcut : beforeLast c as = front.reverse := heq ▸ beforeLast_append_cons _ hlast
  exact ⟨rest.reverse, by rw [hcut, heq], hlast⟩

/-- `beforeLast` is empty where there is no `c`. -/
theorem beforeLast_of_notMem (h : c ∉ as) : beforeLast c as = [] := by
  have hnone : as.reverse.dropWhile (· != c) = [] :=
    List.dropWhile_eq_nil_iff.2 (forall_ne_of_notMem fun hmem => h (List.mem_reverse.1 hmem))
  rw [beforeLast, throughLast, hnone]
  rfl

/-- `swapChar` leaves a text alone that does not have the character. -/
theorem swapChar_of_notMem {c : α} (d : α) {cs : List α} (h : c ∉ cs) : swapChar c d cs = cs := by
  refine (List.map_congr_left fun x hx => ?_).trans (List.map_id cs)
  have hne : ¬ (x == c) = true := fun heq => h (eq_of_beq heq ▸ hx)
  rw [if_neg hne, id]

/-- A text with `c` in it is cut by `beforeFirst` and `fromFirst` at the first one. -/
theorem eq_append_of_fromFirst {x : α} {bs : List α} (h : fromFirst c as = x :: bs) :
    as = beforeFirst c as ++ c :: bs := by
  obtain rfl : x = c := by
    have hhead := List.head?_dropWhile_not (· != c) as
    unfold fromFirst at h
    simpa [h] using hhead
  rw [← h]
  exact List.takeWhile_append_dropWhile.symm

omit [BEq α] [LawfulBEq α] in
theorem intercalate_ne_nil {sep x : List α} (hx : x ≠ []) (xs : List (List α)) :
    sep.intercalate (x :: xs) ≠ [] := by
  cases xs with
  | nil => rwa [List.intercalate_singleton]
  | cons y xs => simp [List.intercalate_cons_cons, hx]

/-- Texts that `intercalate` has joined around `c` come apart again, as long as none is empty or holds `c`. -/
theorem intercalate_inj {xs ys : List (List α)} (hxs : ∀ x ∈ xs, c ∉ x ∧ x ≠ [])
    (hys : ∀ y ∈ ys, c ∉ y ∧ y ≠ []) (h : [c].intercalate xs = [c].intercalate ys) : xs = ys := by
  -- a text that is not empty shows that there was something to join
  cases xs with
  | nil =>
    cases ys with
    | nil => rfl
    | cons y ys => exact absurd h.symm (intercalate_ne_nil (hys y List.mem_cons_self).2 ys)
  | cons x xs =>
    cases ys with
    | nil => exact absurd h (intercalate_ne_nil (hxs x List.mem_cons_self).2 xs)
    | cons y ys =>
      rw [← List.splitOn_intercalate c (fun x hx => (hxs x hx).1) (List.cons_ne_nil x xs), h,
        List.splitOn_intercalate c (fun y hy => (hys y hy).1) (List.cons_ne_nil y ys)]

end

end CallAtlas.Text
