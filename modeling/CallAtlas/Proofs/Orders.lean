import CallAtlas.Diagnostic
import CallAtlas.Text.Sorted
import CallAtlas.Proofs.StableSort

/-!
# Orders of texts, paths and diagnostics

The comparisons by which texts, class files and diagnostics are listed put everything in its place.
Texts and paths are tied only if they are equal.
-/

namespace CallAtlas

namespace Text

/-- Texts are compared by a `TotalPreorder`. -/
theorem totalPreorder_le : TotalPreorder fun a b : String => decide (a ≤ b) := by
  constructor
  · intro a b c hab hbc
    exact decide_eq_true (String.le_trans (of_decide_eq_true hab) (of_decide_eq_true hbc))
  · intro a b
    simp only [Bool.or_eq_true, decide_eq_true_eq]
    exact String.le_total a b

theorem mem_sort {a : String} {as : List String} : a ∈ sort as ↔ a ∈ as :=
  List.mem_mergeSort

/-- `sortDistinct` has the elements of the list. -/
theorem mem_sortDistinct {a : String} {as : List String} : a ∈ sortDistinct as ↔ a ∈ as := by
  rw [sortDistinct, mem_dropRepeats, mem_sort]

/-- `sort` puts texts without repeats in strictly ascending order. -/
theorem pairwise_sort {as : List String} (hnodup : as.Nodup) : (sort as).Pairwise (· < ·) := by
  have hle := totalPreorder_le.pairwise_mergeSort as
  have hne : (sort as).Nodup := (List.mergeSort_perm as _).nodup_iff.2 hnodup
  exact hle.imp₂ (fun a b hab hab' => Std.lt_of_le_of_ne (of_decide_eq_true hab) hab') hne

/-- `sort` does not depend on how the texts came. -/
theorem sort_eq_of_perm {as bs : List String} (h : as.Perm bs) : sort as = sort bs := by
  refine List.Perm.eq_of_pairwise (fun a b _ _ hab hba => ?_) (totalPreorder_le.pairwise_mergeSort as)
    (totalPreorder_le.pairwise_mergeSort bs) ?_
  · exact String.le_antisymm (of_decide_eq_true hab) (of_decide_eq_true hba)
  · exact (List.mergeSort_perm as _).trans (h.trans (List.mergeSort_perm bs _).symm)

/-- `sortDistinct` lists the distinct texts in strictly ascending order. -/
theorem pairwise_sortDistinct (as : List String) : (sortDistinct as).Pairwise (· < ·) := by
  have hsorted := totalPreorder_le.pairwise_mergeSort as
  -- equal neighbours are all that sorting can leave twice
  have hanti : ∀ a b : String, decide (a ≤ b) = true → decide (b ≤ a) = true → a = b := by
    intro a b hab hba
    exact String.le_antisymm (of_decide_eq_true hab) (of_decide_eq_true hba)
  refine (pairwise_dropRepeats hanti hsorted).imp ?_
  rintro a b ⟨hab, hne⟩
  exact Std.lt_of_le_of_ne (of_decide_eq_true hab) hne

/-- `sortDistinct` lists no text twice. -/
theorem nodup_sortDistinct (as : List String) : (sortDistinct as).Nodup := by
  refine (pairwise_sortDistinct as).imp ?_
  rintro a b hlt rfl
  exact String.lt_irrefl a hlt

end Text

namespace Text.RawText

/-- `RawText.le` compares bytes one by one. -/
theorem le_iff {a b : RawText} : a.le b = true ↔ a.bytes ≤ b.bytes := by
  simp only [le, Bool.not_eq_true', decide_eq_false_iff_not]
  exact Iff.rfl

/-- Raw texts are compared by a `TotalPreorder`. -/
theorem totalPreorder_le : TotalPreorder le := by
  constructor
  · intro a b c hab hbc
    exact le_iff.2 (List.le_trans (le_iff.1 hab) (le_iff.1 hbc))
  · intro a b
    rw [Bool.or_eq_true, le_iff, le_iff]
    exact List.le_total a.bytes b.bytes

/-- Raw texts that are not ordered by `le` are equal. -/
theorem le_antisymm {a b : RawText} (hab : a.le b) (hba : b.le a) : a = b := by
  obtain ⟨as⟩ := a
  obtain ⟨bs⟩ := b
  exact congrArg mk (List.le_antisymm (le_iff.1 hab) (le_iff.1 hba))

/-- Raw texts that differ are not `tied`. -/
theorem tied_eq_false {a b : RawText} (h : a ≠ b) : tied le a b = false := by
  rw [← Bool.not_eq_true, tied, Bool.and_eq_true]
  exact fun hle => h (le_antisymm hle.1 hle.2)

/-- Of two raw texts that differ, the one that is not behind the other is before it. -/
theorem lt_of_le_of_ne {a b : RawText} (hab : a.le b) (hne : a ≠ b) : a < b := by
  by_cases hlt : a < b
  · exact hlt
  · exact absurd (le_antisymm hab (by rw [le, decide_eq_false hlt]; rfl)) hne

theorem not_lt_of_lt {a b : RawText} (hab : a < b) : ¬ b < a := by
  intro hba
  exact List.lt_irrefl _ (List.lt_trans hab hba)

theorem lt_irrefl (a : RawText) : ¬ a < a :=
  List.lt_irrefl a.bytes

end Text.RawText

namespace Diagnostic

/-- Diagnostics are compared by a `TotalPreorder`: by path, and at one path by place. -/
theorem totalPreorder_le : TotalPreorder le := by
  constructor
  · intro a b c hab hbc
    simp only [le] at hab hbc ⊢
    -- four cases, since either pair may lie at one path
    by_cases h₁ : a.path = b.path
    · by_cases h₂ : b.path = c.path
      · rw [if_pos h₁, decide_eq_true_eq] at hab
        rw [if_pos h₂, decide_eq_true_eq] at hbc
        rw [if_pos (h₁.trans h₂), decide_eq_true_eq]
        omega
      · rw [if_neg h₂] at hbc
        rw [if_neg (h₁ ▸ h₂), h₁]
        exact hbc
    · rw [if_neg h₁] at hab
      by_cases h₂ : b.path = c.path
      · rw [if_neg (h₂ ▸ h₁), ← h₂]
        exact hab
      · rw [if_neg h₂] at hbc
        have hac := Text.RawText.totalPreorder_le.trans _ _ _ hab hbc
        -- equal ends would tie the path in the middle to both of them
        have hne : a.path ≠ c.path := fun heq => h₁ (Text.RawText.le_antisymm hab (heq ▸ hbc))
        rw [if_neg hne]
        exact hac
  · intro a b
    simp only [le, Bool.or_eq_true]
    by_cases h : a.path = b.path
    · simp only [if_pos h, if_pos h.symm, decide_eq_true_eq]
      omega
    · rw [if_neg h, if_neg (Ne.symm h)]
      have := Text.RawText.totalPreorder_le.total a.path b.path
      rwa [Bool.or_eq_true] at this

/-- Diagnostics of different paths are not `tied`. -/
theorem tied_eq_false {a b : Diagnostic} (h : a.path ≠ b.path) : tied le a b = false := by
  have htied := Text.RawText.tied_eq_false h
  simp only [tied, le, if_neg h, if_neg (Ne.symm h)] at htied ⊢
  exact htied

end Diagnostic
end CallAtlas
