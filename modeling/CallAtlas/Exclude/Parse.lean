import CallAtlas.Exclude.Regex
import CallAtlas.Text.Number
import CallAtlas.Text.Split

/-!
# Reading regular expressions

The written form of regular expressions: groups, alternatives, repetitions, character classes and
escapes. It is read from left to right, with the groups that are still open at hand. A text that is
not an expression is refused, and so is an expression that is nested too deeply, repeats too often or
is too large when its repetitions are written out.
-/

namespace CallAtlas.Exclude.Regex

/-! ### Escapes -/

def isOctal (c : Char) : Bool := '0' ≤ c && c ≤ '7'

/-- The value of octal digits. -/
def octalValue (cs : List Char) : Nat :=
  cs.foldl (fun n c => n * 8 + (c.toNat - '0'.toNat)) 0

/-- The value of hexadecimal digits, at most that of the largest code point. -/
def hexValue? (cs : List Char) : Option Nat := do
  if cs.isEmpty then none
  let n ← cs.foldlM (fun n c => (Text.hexDigit? c).map (n * 16 + ·)) 0
  if n ≤ CodeSet.lastCode then some n else none

/-- A code point given by its number, behind `\x`. -/
def hexEscape : List Char → Option (Nat × List Char)
  | '\x7b' :: cs => do
    let '\x7d' :: rest := Text.fromFirst '\x7d' cs | none
    return (← hexValue? (Text.beforeFirst '\x7d' cs), rest)
  | a :: b :: rest => do return (← hexValue? [a, b], rest)
  | _ => none

/-- The code point that an escape stands for, behind the backslash. -/
def escapedCode : List Char → Option (Nat × List Char)
  | [] => none
  | c :: cs =>
    if c = '0' ∨ (isOctal c ∧ cs.head?.any isOctal) then
      let digits := (cs.take 2).takeWhile isOctal
      some (octalValue (c :: digits), cs.drop digits.length)
    else match c with
      | 'x' => hexEscape cs
      | 'a' => some (7, cs)
      | 'f' => some (12, cs)
      | 'n' => some (10, cs)
      | 'r' => some (13, cs)
      | 't' => some (9, cs)
      | 'v' => some (11, cs)
      | c => if c.toNat < 128 ∧ ¬ c.isAlphanum then some (c.toNat, cs) else none

/-- The name of a property of characters, behind `\p`: one character, or a name between braces. -/
def propertyName : List Char → Option (List Char × List Char)
  | [] => none
  | '\x7b' :: cs => do
    let _ :: rest := Text.fromFirst '\x7d' cs | none
    return (Text.beforeFirst '\x7d' cs, rest)
  | c :: cs => some ([c], cs)

/-- The characters with a property, behind `\p`, or those without it. -/
def propertySet (absent : Bool) (cs : List Char) : Option (CodeSet × List Char) := do
  let (name, rest) ← propertyName cs
  let (absent, name) := match name with
    | '^' :: name => (!absent, name)
    | name => (absent, name)
  let s ← CodeSet.property? (String.ofList name)
  return (if absent then s.complement else s, rest)

/-- What an escape stands for, behind the backslash. -/
inductive Escape where
  | code (n : Nat)
  | set (s : CodeSet)
  deriving DecidableEq, Repr

/-- Reads an escape behind the backslash. -/
def readEscape : List Char → Option (Escape × List Char)
  | 'd' :: cs => some (.set .digits, cs)
  | 'D' :: cs => some (.set (.complement .digits), cs)
  | 's' :: cs => some (.set .blanks, cs)
  | 'S' :: cs => some (.set (.complement .blanks), cs)
  | 'w' :: cs => some (.set .wordChars, cs)
  | 'W' :: cs => some (.set (.complement .wordChars), cs)
  | 'p' :: cs => (propertySet false cs).map fun (s, rest) => (.set s, rest)
  | 'P' :: cs => (propertySet true cs).map fun (s, rest) => (.set s, rest)
  | cs => (escapedCode cs).map fun (n, rest) => (.code n, rest)

/-! ### Classes -/

/-- A code point of a class. -/
def classCode : List Char → Option (Nat × List Char)
  | [] => none
  | '\\' :: cs => escapedCode cs
  | c :: cs => some (c.toNat, cs)

/-- A code point or a range of them. -/
def classRange (cs : List Char) : Option (CodeSet × List Char) := do
  let (low, rest) ← classCode cs
  match rest with
  | '-' :: next :: after =>
    if next = ']' then return (.single low, rest)
    else do
      let (high, rest) ← classCode (next :: after)
      if high < low then none else return (.range low high, rest)
  | _ => return (.single low, rest)

/-- What stands before the first `:]`, and what stands behind. -/
def untilColonBracket : List Char → Option (List Char × List Char)
  | [] => none
  | ':' :: ']' :: rest => some ([], rest)
  | c :: cs => (untilColonBracket cs).map fun (name, rest) => (c :: name, rest)

/-- A named set behind `[:`, or nothing if the name has no end. A name that is unknown is refused. -/
def namedSet (cs : List Char) : Option (Option (CodeSet × List Char)) :=
  (untilColonBracket cs).map fun (name, rest) =>
    match name with
    | '^' :: name => (CodeSet.named? (String.ofList name)).map fun s => (s.complement, rest)
    | name => (CodeSet.named? (String.ofList name)).map fun s => (s, rest)

/-- One item of a class. -/
def classItem : List Char → Option (CodeSet × List Char)
  | '[' :: ':' :: cs => (namedSet cs).getD (classRange ('[' :: ':' :: cs))
  | '\\' :: cs => do
    match ← readEscape cs with
    | (.set s, rest) => return (s, rest)
    | (.code _, _) => classRange ('\\' :: cs)
  | cs => classRange cs

/-- The items of a class up to its closing bracket, which does not close it in the first place. -/
def classItems : (steps : Nat) → (first : Bool) → List Char → Option (List CodeSet × List Char)
  | 0, _, _ => none
  | _ + 1, false, ']' :: cs => some ([], cs)
  | n + 1, _, cs => do
    let (item, rest) ← classItem cs
    let (items, rest) ← classItems n false rest
    return (item :: items, rest)

/-- A class behind its opening bracket. -/
def charClass (cs : List Char) : Option (CharClass × List Char) := do
  let (negated, cs) := match cs with
    | '^' :: cs => (true, cs)
    | cs => (false, cs)
  let (sets, rest) ← classItems (cs.length + 1) true cs
  return (⟨negated, sets⟩, rest)

/-! ### Parts and what they amount to -/

/-- A part of an expression, with what the limits look at. -/
structure Part where
  regex : Regex
  /-- It takes one character, and joins others of its kind. -/
  isChar : Bool := false
  /-- It is one given character, and joins others of its kind. -/
  isLiteral : Bool := false
  /-- How deeply it is nested. -/
  height : Nat := 1
  /-- Its size when repetitions are written out. -/
  size : Nat := 1
  /-- How often something in it is there when repetitions are written out. -/
  copies : Nat := 1
  deriving DecidableEq, Repr

namespace Part

/-- The largest of some numbers. -/
def largest (ns : List Nat) : Nat :=
  ns.foldl max 0

/-- Some numbers together. -/
def total (ns : List Nat) : Nat :=
  ns.foldl (· + ·) 0

/-- The number of parts when neighbours that join count as one. -/
def runCount (joins : Part → Bool) : List Part → Nat
  | [] => 0
  | [_] => 1
  | p :: q :: rest => runCount joins (q :: rest) + if joins p && joins q then 0 else 1

/-- Parts one behind the other. -/
def sequence (ps : List Part) : Part :=
  match ps with
  | [] => { regex := .empty }
  | [p] => p
  | _ => {
    regex := Regex.sequence (ps.map regex)
    isLiteral := ps.all isLiteral
    height := largest (ps.map height) + if runCount isLiteral ps = 1 then 0 else 1
    size := total (ps.map size)
    copies := largest (ps.map copies) }

/-- Parts of which one is to match. -/
def choice (ps : List Part) : Part :=
  match ps with
  | [p] => p
  | _ => {
    regex := Regex.choice (ps.map regex)
    isChar := ps.all isChar
    height := largest (ps.map height) + if runCount isChar ps = 1 then 0 else 1
    size := total (ps.map size) + (ps.length - 1)
    copies := largest (ps.map copies) }

/-- A part between parentheses. -/
def group (p : Part) : Part :=
  { regex := p.regex, height := p.height + 1, size := p.size + 2, copies := p.copies }

end Part

/-- How often something is repeated. -/
structure Bounds where
  least : Nat
  most : Option Nat
  /-- The bounds are given as numbers. -/
  counted : Bool
  deriving DecidableEq, Repr

/-- The number that counts of bounds that are given as numbers, one for all others. -/
def Bounds.factor (b : Bounds) : Nat :=
  if b.counted then max 1 (b.most.getD b.least) else 1

/-- The size of a repetition that is written out. -/
def Bounds.sizeOf (b : Bounds) (size : Nat) : Nat :=
  max 1 (match b.most with
    | some most => most * size + (most - b.least)
    | none => if b.least = 0 then 2 + size else 1 + b.least * size)

/-- A part that is repeated. What is there no time does not count. -/
def Part.repeated (p : Part) (b : Bounds) : Part :=
  { regex := .times p.regex b.least b.most
    height := p.height + 1
    size := b.sizeOf p.size
    copies := if b.most = some 0 then 1 else b.factor * p.copies }

/-! ### Limits -/

/-- The most often that a repetition can be asked for, alone or inside others. -/
def mostTimes : Nat := 1000

/-- The deepest nesting. -/
def mostHeight : Nat := 1000

/-- The largest size when repetitions are written out. -/
def mostSize : Nat := 3355443

/-- Bounds that can be met and are not too large. -/
def Bounds.isFine (b : Bounds) : Bool :=
  b.least ≤ mostTimes && b.most.all fun most => b.least ≤ most && most ≤ mostTimes

/-! ### Repetitions -/

/-- A number without a needless zero. -/
def countOf (cs : List Char) : Option (Nat × List Char) :=
  let digits := cs.takeWhile Char.isDigit
  if digits.head? = some '0' ∧ 1 < digits.length then none
  else (Text.decimalNat? digits).map fun n => (n, cs.drop digits.length)

/-- The bounds of a repetition between braces, behind the opening one. -/
def countedBounds (cs : List Char) : Option (Bounds × List Char) := do
  let (least, rest) ← countOf cs
  match rest with
  | '\x7d' :: rest => return (⟨least, some least, true⟩, rest)
  | ',' :: '\x7d' :: rest => return (⟨least, none, true⟩, rest)
  | ',' :: rest => do
    let (most, rest) ← countOf rest
    let '\x7d' :: rest := rest | none
    return (⟨least, some most, true⟩, rest)
  | _ => none

/-- The bounds of a repetition and what follows, if there is a repetition here. -/
def bounds? : List Char → Option (Bounds × List Char)
  | '*' :: cs => some (⟨0, none, false⟩, cs)
  | '+' :: cs => some (⟨1, none, false⟩, cs)
  | '?' :: cs => some (⟨0, some 1, false⟩, cs)
  | '\x7b' :: cs => countedBounds cs
  | _ => none

/-! ### Expressions -/

/-- The inside of a group as far as it was read. -/
structure Frame where
  /-- The alternatives before, the last one first. -/
  earlier : List Part := []
  /-- The parts of the alternative at hand, the last one first. -/
  parts : List Part := []
  deriving DecidableEq, Repr

namespace Frame

def push (f : Frame) (p : Part) : Frame :=
  { f with parts := p :: f.parts }

/-- Starts another alternative. -/
def next (f : Frame) : Frame :=
  { earlier := .sequence f.parts.reverse :: f.earlier }

/-- All that stands in the group. -/
def close (f : Frame) : Part :=
  .choice f.next.earlier.reverse

end Frame

/-- An expression as far as it was read. -/
structure Progress where
  /-- The groups that are open around the one at hand, the innermost first. -/
  outer : List Frame := []
  frame : Frame := {}
  /-- A repetition came just before. -/
  afterRepetition : Bool := false
  /-- The number of parts so far. -/
  nodes : Nat := 3
  /-- The numbers of all repetitions so far, multiplied. -/
  factors : Nat := 1
  deriving DecidableEq, Repr

namespace Progress

/-- Adds a part that counts. -/
def push (s : Progress) (p : Part) : Progress :=
  { s with frame := s.frame.push p, nodes := s.nodes + 1, afterRepetition := false }

/-- Adds a code point. -/
def literal (s : Progress) (n : Nat) : Progress :=
  { s with
    frame := s.frame.push { regex := .literal n, isChar := true, isLiteral := true }
    afterRepetition := false }

/-- Adds a class. -/
def charClass (s : Progress) (k : CharClass) : Progress :=
  s.push { regex := .char k, isChar := true }

/-- Adds an assertion. -/
def assert (s : Progress) (a : Assertion) : Progress :=
  s.push { regex := .assert a }

/-- Repeats the last part. A repetition cannot be repeated, nor can nothing. -/
def repeated (s : Progress) (b : Bounds) : Option Progress :=
  match s.frame.parts with
  | [] => none
  | p :: ps =>
    let p := p.repeated b
    if s.afterRepetition || !b.isFine || mostTimes < p.copies then none
    else some { s with
      frame := { s.frame with parts := p :: ps }
      nodes := s.nodes + 1
      factors := min mostSize (s.factors * b.factor)
      afterRepetition := true }

/-- Opens a group. -/
def openGroup (s : Progress) : Progress :=
  { s with
    outer := s.frame :: s.outer, frame := {}, nodes := s.nodes + 1, afterRepetition := false }

/-- Closes a group, if one is open. -/
def closeGroup (s : Progress) : Option Progress :=
  match s.outer with
  | [] => none
  | f :: outer =>
    some { s with
      outer, frame := f.push s.frame.close.group, nodes := s.nodes + 1, afterRepetition := false }

/-- Starts another alternative. -/
def alternative (s : Progress) : Progress :=
  { s with frame := s.frame.next, nodes := s.nodes + 1, afterRepetition := false }

/-- The whole expression. Its size counts only if there are so many parts and repetitions that it can be too
    large. -/
def finish (s : Progress) : Option Regex :=
  let p := s.frame.close
  if !s.outer.isEmpty || mostHeight < p.height then none
  else if mostSize / s.factors ≤ s.nodes && mostSize < p.size then none
  else some p.regex

end Progress

/-- The text before the first `\E`, and what stands behind it. -/
def untilEnd : List Char → List Char × List Char
  | [] => ([], [])
  | '\\' :: 'E' :: rest => ([], rest)
  | c :: cs => ((c :: (untilEnd cs).1), (untilEnd cs).2)

/-- Reads an escape outside a class, behind the backslash. -/
def readBackslash (s : Progress) : List Char → Option (Progress × List Char)
  | 'A' :: cs => some (s.assert .textStart, cs)
  | 'z' :: cs => some (s.assert .textEnd, cs)
  | 'b' :: cs => some (s.assert .wordBoundary, cs)
  | 'B' :: cs => some (s.assert .noWordBoundary, cs)
  | 'Q' :: cs =>
    let (text, rest) := untilEnd cs
    some (text.foldl (fun s c => s.literal c.toNat) { s with afterRepetition := false }, rest)
  | cs =>
    (readEscape cs).map fun
      | (.set k, rest) => (s.charClass ⟨false, [k]⟩, rest)
      | (.code n, rest) => (s.literal n, rest)

/-- Reads one item of an expression. -/
def readItem (s : Progress) (c : Char) (cs : List Char) : Option (Progress × List Char) :=
  match bounds? (c :: cs) with
  | some (b, rest) => do
    return (← s.repeated b, if rest.head? = some '?' then rest.drop 1 else rest)
  | none =>
    match c with
    | '(' => if cs.head? = some '?' then none else some (s.openGroup, cs)
    | ')' => s.closeGroup.map (·, cs)
    | '|' => some (s.alternative, cs)
    | '[' => (charClass cs).map fun (k, rest) => (s.charClass k, rest)
    | '.' => some (s.charClass ⟨false, [.inLine]⟩, cs)
    | '^' => some (s.assert .textStart, cs)
    | '$' => some (s.assert .textEnd, cs)
    | '\\' => readBackslash s cs
    | c => some (s.literal c.toNat, cs)

/-- Reads items, as many as there are steps at most. -/
def readItems : (steps : Nat) → Progress → List Char → Option Progress
  | _, s, [] => some s
  | 0, _, _ :: _ => none
  | steps + 1, s, c :: cs => do
    let (s, rest) ← readItem s c cs
    readItems steps s rest

/-- Reads an expression. -/
def parse? (cs : List Char) : Option Regex := do
  (← readItems cs.length {} cs).finish

end CallAtlas.Exclude.Regex
