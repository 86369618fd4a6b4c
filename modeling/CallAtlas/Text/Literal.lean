import CallAtlas.Text.Number
import CallAtlas.Text.LowerCase

/-!
# Integer literals

An integer with an optional sign and a base of its own: `0x`, `0o` and `0b` lead to sixteen, eight
and two, another leading zero to eight, all else is decimal. An underscore may stand between digits
and after the mark of the base. The value has to fit into a word of 64 bits with sign.
-/

namespace CallAtlas.Text.Literal

/-- Why a text is no literal. -/
inductive Problem where
  /-- It is not of the form of a literal. -/
  | malformed
  /-- Its value is too large or too small. -/
  | outOfRange
  deriving DecidableEq, Repr

def Problem.message : Problem → String
  | .malformed => "invalid syntax"
  | .outOfRange => "value out of range"

/-- The number of values of a word of 64 bits. -/
def wordCount : Nat := 18446744073709551616

/-- The value of a digit or letter. -/
def digit? (c : Char) : Option Nat :=
  if c.isDigit then some (c.toNat - '0'.toNat)
  else if 'a' ≤ c ∧ c ≤ 'z' then some (c.toNat - 'a'.toNat + 10)
  else if 'A' ≤ c ∧ c ≤ 'Z' then some (c.toNat - 'A'.toNat + 10)
  else none

/-- Whether every underscore stands after a digit and before one. The flag tells whether a digit or the mark of
    a base came just before. -/
def underscoresFit : (afterDigit : Bool) → List Char → Bool
  | b, [] => b
  | b, c :: cs => if c = '_' then b && underscoresFit false cs else underscoresFit true cs

/-- Reads digits, underscores left out, after those with a value of `n`. The first digit that makes the value
    too large decides, whatever follows. -/
def magnitude (base limit : Nat) (n : Nat) : List Char → Except Problem Nat
  | [] => .ok n
  | c :: cs =>
    if c = '_' then magnitude base limit n cs else
    match digit? c with
    | none => .error .malformed
    | some d =>
      if base ≤ d then .error .malformed
      else if limit ≤ n * base + d then .error .outOfRange
      else magnitude base limit (n * base + d) cs

/-- The base of a literal without sign, whether a mark says so, and its digits. -/
def baseOf : List Char → Nat × Bool × List Char
  | '0' :: m :: c :: cs =>
    match lowerChar m with
    | 'b' => (2, true, c :: cs)
    | 'o' => (8, true, c :: cs)
    | 'x' => (16, true, c :: cs)
    | _ => (8, false, m :: c :: cs)
  | '0' :: cs => (8, false, cs)
  | cs => (10, false, cs)

/-- Reads a literal without sign. Values beyond 64 bits are refused. -/
def unsigned (cs : List Char) : Except Problem Nat := do
  if cs = [] then throw .malformed
  let (base, marked, digits) := baseOf cs
  let n ← magnitude base wordCount 0 digits
  if underscoresFit marked (if marked then digits else cs) then return n else throw .malformed

/-- Reads a literal. -/
def parse (cs : List Char) : Except Problem Int := do
  let (negative, rest) := match cs with
    | '-' :: r => (true, r)
    | '+' :: r => (false, r)
    | r => (false, r)
  let n ← unsigned rest
  if n < wordCount / 2 ∨ (negative ∧ n = wordCount / 2) then
    return if negative then -(n : Int) else n
  else throw .outOfRange

end CallAtlas.Text.Literal
