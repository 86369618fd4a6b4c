import CallAtlas.Failure
import CallAtlas.Facts.Location
import CallAtlas.Text.Sorted
import Std.Data.HashSet

/-!
# Fact store

Relations between locations. A relation keeps its tuples in the order they came until the store is
frozen, and in ascending order from then on. A tuple is added once: what counts is the text of its
locations, so the source line makes no difference.
-/

namespace CallAtlas

/-- Locations that stand in a relation. -/
abbrev Tuple : Type := List Location

namespace Tuple

/-- The text that tells tuples of a relation apart. -/
def key (t : Tuple) : String :=
  String.join (t.map fun l => l.text ++ "\x00")

/-- Tuples in the order of their locations, a shorter one before its continuations. -/
def cmp : Tuple → Tuple → Ordering
  | [], [] => .eq
  | [], _ :: _ => .lt
  | _ :: _, [] => .gt
  | a :: as, b :: bs => (Location.cmp a b).then (cmp as bs)

/-- `a` does not stand behind `b`. -/
def le (a b : Tuple) : Bool :=
  (cmp a b).isLE

end Tuple

namespace Facts

/-- A named set of tuples of one length. -/
structure Relation where
  name : String
  arity : Int
  /-- The tuples in their present order. -/
  rows : Array Tuple
  /-- The keys of the tuples. -/
  keys : Std.HashSet String
  mem_keys : ∀ k, k ∈ keys ↔ ∃ t ∈ rows, t.key = k

namespace Relation

/-- A relation without tuples. -/
def empty (name : String) (arity : Int) : Relation :=
  { name, arity, rows := #[], keys := ∅, mem_keys := by simp }

/-- The tuples in their present order. -/
def tuples (r : Relation) : List Tuple :=
  r.rows.toList

/-- The relation with one more tuple at the end, unless it is there. -/
def insert (r : Relation) (t : Tuple) : Relation :=
  if r.keys.contains t.key then r
  else { r with
    rows := r.rows.push t
    keys := r.keys.insert t.key
    mem_keys := by
      intro k
      simp only [Std.HashSet.mem_insert, beq_iff_eq, r.mem_keys, Array.mem_push]
      constructor
      · rintro (h | ⟨u, hu, h⟩)
        · exact ⟨t, .inr rfl, h⟩
        · exact ⟨u, .inl hu, h⟩
      · rintro ⟨u, hu | rfl, h⟩
        · exact .inr ⟨u, hu, h⟩
        · exact .inl h }

/-- The relation with its tuples in ascending order. -/
def sorted (r : Relation) : Relation :=
  { r with
    rows := (r.rows.toList.mergeSort Tuple.le).toArray
    mem_keys := by simp [r.mem_keys] }

end Relation

/-- Why a store refuses a change. -/
inductive Problem where
  | frozen
  /-- The relation has tuples of another length. -/
  | arity (name : String) (has got : Int)
  deriving DecidableEq, Repr

/-- The wording of a problem. -/
def Problem.message : Problem → String
  | .frozen => "facts: model is frozen"
  | .arity name has got => s!"facts: tuple arity mismatch: {name} has {has}, got {got}"

/-- A problem as it is reported. -/
def Problem.failure (p : Problem) : Failure :=
  { kind := match p with | .frozen => .frozenStore | .arity _ _ _ => .arityMismatch
    message := p.message }

/-- Relations by name. -/
structure Store where
  relations : List Relation
  isFrozen : Bool

/-- The relations that describe a program. -/
def relDeclarations : String := "declarations"
def relContainment : String := "containment"
def relExtends : String := "extends"
def relImplements : String := "implements"
def relOverrides : String := "methodOverrides"
def relInvocation : String := "methodInvocation"

namespace Store

/-- A store without relations. -/
def empty : Store := ⟨[], false⟩

/-- The relation with a name. -/
def get? (s : Store) (name : String) : Option Relation :=
  s.relations.find? fun r => r.name == name

/-- The tuples of a relation, none if there is no such relation. -/
def relation? (s : Store) (name : String) : Option (List Tuple) :=
  (s.get? name).map Relation.tuples

/-- The tuples of a relation. -/
def tuples (s : Store) (name : String) : List Tuple :=
  (s.relation? name).getD []

/-- The number of tuples of a relation. -/
def size (s : Store) (name : String) : Nat :=
  (s.get? name).elim 0 fun r => r.rows.size

/-- The names of the relations, ascending. -/
def names (s : Store) : List String :=
  Text.sort (s.relations.map Relation.name)

/-- Adds a relation without tuples, unless it is there. -/
def declare (s : Store) (name : String) (arity : Int) : Except Problem Store :=
  if s.isFrozen then .error .frozen
  else match s.get? name with
    | some r => if r.arity = arity then .ok s else .error (.arity name r.arity arity)
    | none => .ok { s with relations := s.relations ++ [.empty name arity] }

/-- Adds a tuple to a relation, which is declared if need be. -/
def add (s : Store) (name : String) (t : Tuple) : Except Problem Store := do
  let s ← s.declare name t.length
  return { s with relations := s.relations.map fun r => if r.name == name then r.insert t else r }

/-- The store with its relations in ascending order and closed to changes. -/
def freeze (s : Store) : Store :=
  if s.isFrozen then s else ⟨s.relations.map Relation.sorted, true⟩

/-- The declared methods in ascending order. -/
def declarations (s : Store) : List Location :=
  dropRepeats (((s.tuples relDeclarations).filterMap fun t =>
    t.head?.filter Location.isDeclaration).mergeSort Location.le)

end Store
end Facts
end CallAtlas
