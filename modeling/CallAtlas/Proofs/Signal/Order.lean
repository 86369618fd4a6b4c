import CallAtlas.Proofs.Facts.Order
import CallAtlas.Signal.Graph

/-!
# The order of a signal graph

In what order the methods of a signal graph are listed (`Func.Before`), and its links. Neither order leaves
anything open: methods that share a place have one name, and links that do are equal.
-/

namespace CallAtlas.Signal

namespace Func

/-- The method is listed before the other one. Methods that signal come first, and of these the entry points.
    Then the more severe ones, then those of more categories, then the smaller names. -/
def Before (a b : Func) : Prop :=
  a.role = .signal ∧ b.role = .context ∨ a.role = b.role ∧
    (a.role = .signal ∧ a.isEntryPoint = true ∧ b.isEntryPoint = false ∨
      (a.role = .signal → a.isEntryPoint = b.isEntryPoint) ∧
        (severityRank a.severity < severityRank b.severity ∨
          severityRank a.severity = severityRank b.severity ∧
            (b.categories.length < a.categories.length ∨
              b.categories.length = a.categories.length ∧ a.name < b.name)))

instance : Std.TransCmp cmp :=
  inferInstanceAs (Std.TransCmp
    (compareLex (compareOn fun f : Func => if f.role = .signal then 0 else 1)
      (compareLex (compareOn fun f : Func => if f.role = .signal ∧ f.isEntryPoint then 0 else 1)
        (compareLex (compareOn fun f : Func => severityRank f.severity)
          (compareLex (fun a b => compareOn (fun f : Func => f.categories.length) b a)
            (compareOn Func.name))))))

/-- `Func.le` is a total preorder. -/
theorem totalPreorder_le : TotalPreorder le :=
  totalPreorder_cmp cmp

end Func

namespace Link

instance : Std.TransCmp cmp :=
  inferInstanceAs (Std.TransCmp
    (compareLex (compareOn source) (compareLex (compareOn target) (compareOn sensitive))))

/-- `Link.le` is a total preorder. -/
theorem totalPreorder_le : TotalPreorder le :=
  totalPreorder_cmp cmp

/-- Links that `cmp` does not tell apart are equal. -/
theorem eq_of_cmp_eq {a b : Link} (h : cmp a b = .eq) : a = b := by
  simp only [cmp, Ordering.then_eq_eq, Std.compare_eq_iff_eq] at h
  obtain ⟨_, _, _⟩ := a
  obtain ⟨_, _, _⟩ := b
  simp_all

/-- `Link.le` is antisymmetric. -/
theorem le_antisymm {a b : Link} (hab : le a b = true) (hba : le b a = true) : a = b :=
  eq_of_cmp_eq (Std.OrientedCmp.isLE_antisymm hab hba)

end Link
end CallAtlas.Signal
