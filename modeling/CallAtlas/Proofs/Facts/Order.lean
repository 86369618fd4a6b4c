import CallAtlas.Facts.Store
import CallAtlas.Proofs.StableSort

/-!
# The order of locations and tuples

Locations and tuples are compared part by part, so every two of them have their places
(`totalPreorder_cmp`). They share a place exactly if they differ in source lines only
(`Location.cmp_eq_iff`, `Tuple.cmp_eq_iff`).
-/

namespace CallAtlas

/-- A comparison that is transitive and answers the same both ways round is a `TotalPreorder`. -/
theorem totalPreorder_cmp {α : Type} (cmp : α → α → Ordering) [Std.TransCmp cmp] :
    TotalPreorder fun a b => (cmp a b).isLE := by
  constructor
  · intro a b c hab hbc
    exact Std.TransCmp.isLE_trans hab hbc
  · intro a b
    have hswap : cmp b a = (cmp a b).swap := Std.OrientedCmp.eq_swap
    rw [hswap]
    cases cmp a b <;> rfl

/-- Things are `tied` in an order exactly if its comparison takes them for equal. -/
theorem tied_cmp_iff {α : Type} (cmp : α → α → Ordering) [Std.OrientedCmp cmp] (a b : α) :
    tied (fun a b => (cmp a b).isLE) a b = true ↔ cmp a b = .eq := by
  have hswap : cmp b a = (cmp a b).swap := Std.OrientedCmp.eq_swap
  simp only [tied, hswap]
  cases cmp a b <;> decide

/-- Things of which no two are `tied` are sorted in strictly ascending order. -/
theorem Sorts.pairwise_lt {α : Type} {cmp : α → α → Ordering} [Std.OrientedCmp cmp] {xs ys : List α}
    (h : Sorts (fun a b => (cmp a b).isLE) xs ys)
    (hapart : xs.Pairwise fun a b => tied (fun a b => (cmp a b).isLE) a b = false) :
    ys.Pairwise fun a b => cmp a b = .lt := by
  refine h.ordered.imp₂ (fun a b hle huntied => ?_) (h.pairwise_untied hapart)
  rcases Ordering.isLE_iff_eq_lt_or_eq_eq.1 hle with hlt | heq
  · exact hlt
  · rw [(tied_cmp_iff cmp a b).2 heq] at huntied
    exact absurd huntied Bool.noConfusion

/-- Things can be compared by a part of them. -/
theorem transCmp_comap {α β : Type} (cmp : α → α → Ordering) [Std.TransCmp cmp] (part : β → α) :
    Std.TransCmp fun a b => cmp (part a) (part b) where
  eq_swap := Std.OrientedCmp.eq_swap
  isLE_trans := Std.TransCmp.isLE_trans

namespace Location

/-- What a location names: all of it but the source line. -/
def identity (l : Location) : String × String × Int :=
  (l.scheme, l.path, l.offset)

instance : Std.TransCmp cmp :=
  inferInstanceAs (Std.TransCmp
    (compareLex (compareOn scheme) (compareLex (compareOn path) (compareOn offset))))

/-- `Location.cmp` takes locations for equal exactly if they have one `identity`. -/
theorem cmp_eq_iff {a b : Location} : cmp a b = .eq ↔ a.identity = b.identity := by
  simp only [cmp, Ordering.then_eq_eq, Std.compare_eq_iff_eq, identity, Prod.mk.injEq]

/-- The `text` of a location tells nothing beyond its `identity`. -/
theorem text_eq_of_identity_eq {a b : Location} (h : a.identity = b.identity) : a.text = b.text := by
  simp only [identity, Prod.mk.injEq] at h
  simp only [text, h]

end Location

namespace Tuple

/-- Tuples that name the same locations, at whatever source lines. -/
def Agree (t u : Tuple) : Prop :=
  t.map Location.identity = u.map Location.identity

instance (t u : Tuple) : Decidable (Agree t u) :=
  inferInstanceAs (Decidable (t.map Location.identity = u.map Location.identity))

/-- `Tuple.cmp` is the lexicographic comparison by `Location.cmp`. -/
private theorem cmp_eq_compareLex (t u : Tuple) : cmp t u = List.compareLex Location.cmp t u := by
  induction t generalizing u with
  | nil => cases u <;> rfl
  | cons a t ih =>
    cases u with
    | nil => rfl
    | cons b u =>
      rw [cmp, List.compareLex, ih]
      cases Location.cmp a b <;> rfl

instance : Std.TransCmp cmp := by
  have hcmp : cmp = List.compareLex Location.cmp := funext fun t => funext (cmp_eq_compareLex t)
  rw [hcmp]
  infer_instance

/-- `Tuple.cmp` takes tuples for equal exactly if they `Agree`. -/
theorem cmp_eq_iff {t u : Tuple} : cmp t u = .eq ↔ Agree t u := by
  induction t generalizing u with
  | nil => cases u <;> simp [cmp, Agree]
  | cons a t ih =>
    cases u with
    | nil => simp [cmp, Agree]
    | cons b u =>
      rw [cmp, Ordering.then_eq_eq, Location.cmp_eq_iff, ih]
      simp [Agree]

theorem totalPreorder_le : TotalPreorder le :=
  totalPreorder_cmp cmp

/-- A tuple that stands before another one, and does not `Agree` with it, comes first. -/
theorem cmp_eq_lt {t u : Tuple} (hle : le t u = true) (hne : ¬ Agree t u) : cmp t u = .lt := by
  rcases Ordering.isLE_iff_eq_lt_or_eq_eq.1 hle with hlt | heq
  · exact hlt
  · exact absurd (cmp_eq_iff.1 heq) hne

/-- Tuples that `Agree` have one `key`. -/
theorem Agree.key_eq {t u : Tuple} (h : Agree t u) : t.key = u.key := by
  have htext : t.map Location.text = u.map Location.text := by
    unfold Agree at h
    induction t generalizing u with
    | nil => rw [List.map_eq_nil_iff.1 h.symm]
    | cons a t ih =>
      obtain ⟨b, u, rfl, hab, htu⟩ := List.map_eq_cons_iff.1 h.symm
      rw [List.map_cons, List.map_cons, Location.text_eq_of_identity_eq hab.symm, ih htu.symm]
  -- a key is made of texts, which do not tell source lines
  have hkey : ∀ t : Tuple, t.key = String.join ((t.map Location.text).map (· ++ "\x00")) := by
    intro t
    rw [key, List.map_map]
    rfl
  rw [hkey t, hkey u, htext]

end Tuple
end CallAtlas
