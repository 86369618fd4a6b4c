import Std.Data.HashSet

/-!
# Lists without repeats

Two ways to keep one of equal elements: of neighbours in a list that is in order, and of all elements
of a list in any order.
-/

namespace CallAtlas

/-- Drops every element that equals the one kept before it. -/
def dropRepeats {α : Type} [BEq α] : List α → List α
  | [] => []
  | a :: as => a :: go a as
where
  /-- The rest of the list, given the element kept last. -/
  go (last : α) : List α → List α
    | [] => []
    | b :: bs => if last == b then go last bs else b :: go b bs

section
variable {α : Type} [BEq α] [LawfulBEq α]

theorem mem_dropRepeats_go {a last : α} {as : List α} :
    a ∈ last :: dropRepeats.go last as ↔ a ∈ last :: as := by
  induction as generalizing last with
  | nil => rfl
  | cons b bs ih =>
    rw [dropRepeats.go]
    by_cases h : last = b
    · subst h
      rw [beq_self_eq_true, if_pos rfl, ih]
      simp
    · rw [if_neg (by simpa using h), List.mem_cons, ih, ← List.mem_cons]

theorem mem_dropRepeats {a : α} {as : List α} : a ∈ dropRepeats as ↔ a ∈ as := by
  cases as with
  | nil => rfl
  | cons b bs => exact mem_dropRepeats_go

theorem dropRepeats_cons_self (a : α) (as : List α) :
    dropRepeats (a :: a :: as) = dropRepeats (a :: as) := by
  simp [dropRepeats, dropRepeats.go]

theorem dropRepeats_cons_of_ne {a b : α} (h : a ≠ b) (as : List α) :
    dropRepeats (a :: b :: as) = a :: dropRepeats (b :: as) := by
  simp [dropRepeats, dropRepeats.go, h]

theorem pairwise_dropRepeats_go {R : α → α → Prop} (hanti : ∀ a b, R a b → R b a → a = b) {last : α}
    {as : List α} (h : (last :: as).Pairwise R) :
    (last :: dropRepeats.go last as).Pairwise fun a b => R a b ∧ a ≠ b := by
  induction as generalizing last with
  | nil => exact List.pairwise_singleton _ last
  | cons b bs ih =>
    obtain ⟨hlast, hrest⟩ := List.pairwise_cons.1 h
    rw [dropRepeats.go]
    by_cases hb : last = b
    · subst hb
      rw [beq_self_eq_true, if_pos rfl]
      exact ih hrest
    · rw [if_neg (by simpa using hb)]
      refine List.pairwise_cons.2 ⟨fun c hc => ?_, ih hrest⟩
      have hmem : c ∈ b :: bs := mem_dropRepeats_go.1 hc
      refine ⟨hlast c hmem, ?_⟩
      -- were `last` repeated further back, `b` in between would have to equal it
      rintro rfl
      rcases List.mem_cons.1 hmem with rfl | hmem
      · exact hb rfl
      · exact hb (hanti last b (hlast b List.mem_cons_self) ((List.pairwise_cons.1 hrest).1 last hmem))

/-- A list in order is left without repeats. -/
theorem pairwise_dropRepeats {R : α → α → Prop} (hanti : ∀ a b, R a b → R b a → a = b) {as : List α}
    (h : as.Pairwise R) : (dropRepeats as).Pairwise fun a b => R a b ∧ a ≠ b := by
  cases as with
  | nil => exact List.Pairwise.nil
  | cons b bs => exact pairwise_dropRepeats_go hanti h

end

/-- The elements of a list that are not among those seen, the first of equal ones only. -/
def distinctAfter {α : Type} [BEq α] [Hashable α] (seen : Std.HashSet α) : List α → List α
  | [] => []
  | b :: bs =>
    if seen.contains b then distinctAfter seen bs else b :: distinctAfter (seen.insert b) bs

/-- Keeps the first of equal elements, in their order. -/
def distinct {α : Type} [BEq α] [Hashable α] (as : List α) : List α :=
  distinctAfter ∅ as

section
variable {α : Type} [BEq α] [Hashable α] [LawfulBEq α]

theorem mem_distinctAfter {a : α} {seen : Std.HashSet α} {as : List α} :
    a ∈ distinctAfter seen as ↔ a ∈ as ∧ a ∉ seen := by
  induction as generalizing seen with
  | nil => simp [distinctAfter]
  | cons b bs ih =>
    rw [distinctAfter]
    by_cases hb : b ∈ seen
    · rw [if_pos (Std.HashSet.mem_iff_contains.1 hb), ih, List.mem_cons]
      constructor
      · exact fun h => ⟨.inr h.1, h.2⟩
      · rintro ⟨rfl | ha, h⟩
        · exact absurd hb h
        · exact ⟨ha, h⟩
    · rw [if_neg (fun h => hb (Std.HashSet.mem_iff_contains.2 h)), List.mem_cons, ih, List.mem_cons,
        Std.HashSet.mem_insert, beq_iff_eq]
      by_cases hab : a = b
      · simp [hab, hb]
      · simp [hab, Ne.symm hab]

theorem mem_distinct {a : α} {as : List α} : a ∈ distinct as ↔ a ∈ as := by
  rw [distinct, mem_distinctAfter]
  simp

theorem nodup_distinctAfter (seen : Std.HashSet α) (as : List α) : (distinctAfter seen as).Nodup := by
  induction as generalizing seen with
  | nil => exact List.nodup_nil
  | cons b bs ih =>
    rw [distinctAfter]
    split
    · exact ih seen
    · exact List.nodup_cons.2 ⟨fun hb => (mem_distinctAfter.1 hb).2 Std.HashSet.mem_insert_self, ih _⟩

theorem nodup_distinct (as : List α) : (distinct as).Nodup :=
  nodup_distinctAfter ∅ as

end

end CallAtlas
