import CallAtlas.Exclude.Regex

/-!
# Matching machines

An expression is turned into numbered steps, each of which says where to go on. A text is read once
from left to right, with all steps at hand that can be reached so far, so that the effort grows with
the number of steps and the length of the text and not with the number of ways to match.
-/

namespace CallAtlas.Exclude

/-- A step of a machine. -/
inductive Step where
  /-- Takes a character of a class. -/
  | take (k : CharClass) (next : Nat)
  /-- Goes on where an assertion holds. -/
  | check (a : Assertion) (next : Nat)
  /-- Goes on in two ways. -/
  | fork (first second : Nat)
  /-- The text matches. -/
  | accept
  deriving DecidableEq, Repr

/-- A machine: its steps and the one to start with. -/
structure Machine where
  steps : Array Step
  start : Nat
  deriving DecidableEq, Repr

namespace Machine

/-! ### Building -/

/-- Adds a step; the answer is its number. -/
def add (steps : Array Step) (s : Step) : Nat × Array Step :=
  (steps.size, steps.push s)

/-- Applies a function `n` times. -/
def repeatTimes {α : Type} (f : α → α) : Nat → α → α
  | 0, a => a
  | n + 1, a => repeatTimes f n (f a)

/-- Adds the steps of an expression that go on with step `next`; the answer is the first of them. -/
def compile : Regex → (next : Nat) → Array Step → Nat × Array Step
  | .empty, next, steps => (next, steps)
  | .char k, next, steps => add steps (.take k next)
  | .assert a, next, steps => add steps (.check a next)
  | .seq a b, next, steps =>
    let (second, steps) := compile b next steps
    compile a second steps
  | .alt a b, next, steps =>
    let (first, steps) := compile a next steps
    let (second, steps) := compile b next steps
    add steps (.fork first second)
  | .times r least most, next, steps =>
    let optional :=
      match most with
      | none =>
        -- The fork is there first, since the steps of `r` come back to it.
        let (loop, steps) := add steps (.fork next next)
        let (first, steps) := compile r loop steps
        (loop, steps.setIfInBounds loop (.fork first next))
      | some most =>
        repeatTimes (fun (after, steps) =>
          let (first, steps) := compile r after steps
          add steps (.fork first next)) (most - least) (next, steps)
    repeatTimes (fun (after, steps) => compile r after steps) least optional

/-- The machine of an expression. -/
def ofRegex (r : Regex) : Machine :=
  let (start, steps) := compile r 0 #[.accept]
  ⟨steps, start⟩

/-! ### Running -/

/-- What can be reached without taking a character: the steps that take one, and whether the text matches. -/
structure Reach where
  /-- The steps that were looked at. -/
  seen : Array Bool
  takers : List Nat
  accepted : Bool

/-- Looks at steps and at those that follow them, as many as there are rounds at most. -/
def follow (m : Machine) (before after : Option Char) :
    (rounds : Nat) → List Nat → Reach → Reach
  | 0, _, r => r
  | _ + 1, [], r => r
  | rounds + 1, i :: work, r =>
    if r.seen.getD i true then follow m before after rounds work r
    else
      let r := { r with seen := r.seen.setIfInBounds i true }
      match m.steps[i]? with
      | some (.take _ _) => follow m before after rounds work { r with takers := i :: r.takers }
      | some (.check a next) =>
        follow m before after rounds (if a.holds before after then next :: work else work) r
      | some (.fork first second) => follow m before after rounds (first :: second :: work) r
      | some .accept => follow m before after rounds work { r with accepted := true }
      | none => follow m before after rounds work r

/-- What can be reached from some steps. Every step that is looked at for the first time adds two at most, so
    there are enough rounds. -/
def reach (m : Machine) (before after : Option Char) (work : List Nat) : Reach :=
  m.follow before after (work.length + 2 * m.steps.size) work
    ⟨Array.replicate m.steps.size false, [], false⟩

/-- Where a step goes on that takes a character. -/
def advance (m : Machine) (c : Char) (i : Nat) : Option Nat :=
  match m.steps[i]? with
  | some (.take k next) => if k.contains c then some next else none
  | _ => none

/-- Reads a text from a place on, where the steps at hand are known. A match can start anywhere. -/
def runFrom (m : Machine) (before : Option Char) (work : List Nat) : List Char → Bool
  | [] => (m.reach before none (m.start :: work)).accepted
  | c :: cs =>
    let r := m.reach before (some c) (m.start :: work)
    r.accepted || runFrom m (some c) (r.takers.filterMap (m.advance c)) cs

/-- The expression matches some part of a text. -/
def occursIn (m : Machine) (text : List Char) : Bool :=
  m.runFrom none [] text

end Machine

end CallAtlas.Exclude
