import Std.Data.HashSet

/-!
# Reachable elements

Breadth-first search: the elements of a finite domain that can be reached from given ones along
links, in the order in which they are found. A search may go as far as it gets, or stop after a number of
links.
-/

namespace CallAtlas

variable {α : Type} [BEq α] [Hashable α]

/-- The elements of a list that are in the domain and not among those seen, each once. -/
def fresh (domain seen : Std.HashSet α) : List α → List α
  | [] => []
  | x :: xs =>
    if domain.contains x && !seen.contains x then x :: fresh domain (seen.insert x) xs
    else fresh domain seen xs

/-- A set with the elements of a list. -/
def withAll (s : Std.HashSet α) (xs : List α) : Std.HashSet α :=
  xs.foldl (fun s x => s.insert x) s

/-- How many places of a list hold elements that are not seen. -/
def unseen (seen : Std.HashSet α) : List α → Nat
  | [] => 0
  | y :: ys => (if seen.contains y then 0 else 1) + unseen seen ys

section

variable [LawfulBEq α]

/-- What is not seen does not grow. -/
theorem unseen_insert_le (seen : Std.HashSet α) (ys : List α) (x : α) :
    unseen (seen.insert x) ys ≤ unseen seen ys := by
  induction ys with
  | nil => simp [unseen]
  | cons y ys ih =>
    simp only [unseen, Std.HashSet.contains_insert]
    by_cases hs : seen.contains y
    · simp [hs]
      exact ih
    · by_cases hx : x == y <;> simp [hs, hx] <;> omega

/-- A fresh element is one less that is not seen. -/
theorem unseen_insert_lt {seen : Std.HashSet α} {ys : List α} {x : α} (hx : x ∈ ys)
    (hs : seen.contains x = false) : unseen (seen.insert x) ys < unseen seen ys := by
  induction ys with
  | nil => simp at hx
  | cons y ys ih =>
    simp only [unseen, Std.HashSet.contains_insert]
    by_cases hy : x = y
    · subst hy
      have := unseen_insert_le seen ys x
      simp [hs]
      omega
    · have hx' : x ∈ ys := by
        rcases List.mem_cons.1 hx with h | h
        · exact absurd h hy
        · exact h
      have := ih hx'
      rw [beq_eq_false_iff_ne.2 hy, Bool.false_or]
      omega

/-- Fresh elements are so many less that are not seen. -/
theorem unseen_fresh_le (domain seen : Std.HashSet α) (xs : List α) :
    unseen (withAll seen (fresh domain seen xs)) domain.toList + (fresh domain seen xs).length
      ≤ unseen seen domain.toList := by
  induction xs generalizing seen with
  | nil => simp [fresh, withAll]
  | cons x xs ih =>
    unfold fresh
    split
    · rename_i h
      simp only [Bool.and_eq_true, Bool.not_eq_true'] at h
      have h1 := ih (seen.insert x)
      have h2 : unseen (seen.insert x) domain.toList < unseen seen domain.toList :=
        unseen_insert_lt (Std.HashSet.mem_toList.2 (Std.HashSet.mem_iff_contains.2 h.1)) h.2
      simp only [withAll, List.foldl_cons, List.length_cons] at h1 ⊢
      omega
    · exact ih seen

end

/-- Goes on with a search: `found` are the elements found so far, the last one first, `seen` the same as a set,
    and `queue` those of them whose links have not been followed. -/
def explore [LawfulBEq α] (domain : Std.HashSet α) (next : α → List α)
    (seen : Std.HashSet α) (found queue : List α) : List α :=
  match queue with
  | [] => found.reverse
  | x :: q =>
    let more := fresh domain seen (next x)
    explore domain next (withAll seen more) (more.reverse ++ found) (q ++ more)
termination_by unseen seen domain.toList + queue.length
decreasing_by
  have := unseen_fresh_le domain seen (next x)
  simp only [List.length_append, List.length_cons]
  omega

/-- The elements of the domain that can be reached from the roots, these included. -/
def closure [LawfulBEq α] (domain : List α) (next : α → List α) (roots : List α) : List α :=
  let domain := withAll ∅ domain
  let found := fresh domain ∅ roots
  explore domain next (withAll ∅ found) found.reverse found

/-- Goes on with a search that follows at most `hops` links in a row. The elements in the queue come with the
    number of links that led to them. -/
def exploreNear [LawfulBEq α] (domain : Std.HashSet α) (next : α → List α) (hops : Nat)
    (seen : Std.HashSet α) (found : List α) (queue : List (α × Nat)) : List α :=
  match queue with
  | [] => found.reverse
  | (x, depth) :: q =>
    if hops ≤ depth then exploreNear domain next hops seen found q
    else
      let more := fresh domain seen (next x)
      exploreNear domain next hops (withAll seen more) (more.reverse ++ found)
        (q ++ more.map fun y => (y, depth + 1))
termination_by unseen seen domain.toList + queue.length
decreasing_by
  · simp only [List.length_cons]
    omega
  · have := unseen_fresh_le domain seen (next x)
    simp only [List.length_append, List.length_cons, List.length_map]
    omega

/-- The roots and the elements of the domain that at most `hops` links in a row lead to from one of them.
-/
def neighbourhood [LawfulBEq α] (domain : List α) (next : α → List α) (hops : Nat)
    (roots : List α) : List α :=
  exploreNear (withAll ∅ domain) next hops (withAll ∅ roots) roots.reverse (roots.map fun r => (r, 0))

end CallAtlas
