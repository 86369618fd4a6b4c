import CallAtlas.Exclude.CodeSet

/-!
# Regular expressions

Expressions over characters with anchors and word boundaries.
-/

namespace CallAtlas.Exclude

/-- What is asked of a place between two characters. -/
inductive Assertion where
  | textStart
  | textEnd
  /-- A boundary between a word and what is none. -/
  | wordBoundary
  /-- No such boundary. -/
  | noWordBoundary
  deriving DecidableEq, Repr

/-- A character of a word stands at one side of a place. -/
def isWordAt (c : Option Char) : Bool :=
  c.any fun c => CodeSet.wordChars.contains c.toNat

/-- An assertion holds between two characters, if there are any. -/
def Assertion.holds (a : Assertion) (before after : Option Char) : Bool :=
  match a with
  | .textStart => before.isNone
  | .textEnd => after.isNone
  | .wordBoundary => isWordAt before != isWordAt after
  | .noWordBoundary => isWordAt before == isWordAt after

/-- A class of characters: those in some of the sets, or those in none. -/
structure CharClass where
  negated : Bool
  sets : List CodeSet
  deriving DecidableEq, Repr

def CharClass.contains (k : CharClass) (c : Char) : Bool :=
  k.sets.any (·.contains c.toNat) != k.negated

/-- A regular expression. -/
inductive Regex where
  | empty
  | char (k : CharClass)
  | assert (a : Assertion)
  | seq (a b : Regex)
  | alt (a b : Regex)
  /-- At least `least` and at most `most` times, without a bound if there is none. -/
  | times (r : Regex) (least : Nat) (most : Option Nat)
  deriving DecidableEq, Repr

namespace Regex

/-- The expression for a character of a set. -/
def ofSet (s : CodeSet) : Regex :=
  .char ⟨false, [s]⟩

/-- The expression for one code point. -/
def literal (n : Nat) : Regex :=
  ofSet (.single n)

/-- Expressions one behind the other. -/
def sequence : List Regex → Regex
  | [] => .empty
  | [r] => r
  | r :: rs => .seq r (sequence rs)

/-- Expressions of which one is to match. -/
def choice : List Regex → Regex
  | [] => .empty
  | [r] => r
  | r :: rs => .alt r (choice rs)

end Regex

end CallAtlas.Exclude
