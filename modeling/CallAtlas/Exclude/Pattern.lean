import CallAtlas.Exclude.Machine
import CallAtlas.Exclude.Parse
import CallAtlas.Text.Raw
import CallAtlas.Text.Replace
import CallAtlas.Text.Split

/-!
# Exclude patterns

Patterns in the manner of ignore files, one a line. A line is turned into a regular expression, so
what is special there is special here: `$` stands for the end of the path and brackets for a class of
characters. A path is excluded by the last pattern that matches it, unless that pattern is negated.
-/

namespace CallAtlas.Exclude

/-- A pattern. -/
structure Pattern where
  machine : Machine
  /-- The pattern takes paths out of those excluded before. -/
  negated : Bool
  deriving DecidableEq, Repr

namespace Pattern

/-- `*.` follows in the same line. -/
def starDotFollows : List Char → Bool
  | [] => false
  | '*' :: '.' :: _ => true
  | c :: cs => c != '\n' && starDotFollows cs

/-- A file pattern inside a directory: a name, a slash and `*.` somewhere behind it. -/
def namesFilesInside : List Char → Bool
  | [] => false
  | c :: cs =>
    (match cs with
      | '/' :: rest => c != '/' && c != '+' && starDotFollows rest
      | _ => false) || namesFilesInside cs

/-- What stands for a star that is not to be turned into one part of a path. -/
def keptStar : String := "#$~"

/-- The expression for the parts of a path that a pattern names: points stand for themselves, a double star for
    any number of parts and a star for a part of a name. -/
def expressionText (pattern : List Char) : List Char :=
  let points := Text.replace "." "\\." pattern
  let rooted := if "/**/".toList.isPrefixOf points then points.drop 1 else points
  let between := Text.replace "/**/" "(/|/.+/)" rooted
  let leading := Text.replace "**/" ("(|." ++ keptStar ++ "/)") between
  let trailing := Text.replace "/**" ("(|/." ++ keptStar ++ ")") leading
  let escaped := Text.replace "\\*" ("\\" ++ keptStar) trailing
  let parts := Text.replace "*" "([^/]*)" escaped
  let marks := Text.replace "?" "\\?" parts
  Text.replace keptStar "*" marks

/-- The expression for paths at or below what a pattern names, at the root if the pattern starts with a slash
    and anywhere if not. -/
def anchored (expression : List Char) : List Char :=
  let below :=
    expression ++ (if expression.getLast? = some '/' then "(|.*)$".toList else "(|/.*)$".toList)
  match below with
  | '/' :: rest => "^(|/)".toList ++ rest
  | _ => "^(|.*/)".toList ++ below

/-- The text of a pattern without a leading `#` or `!`. -/
def unmarked : List Char → List Char
  | '#' :: cs => cs
  | '!' :: cs => cs
  | cs => cs

/-- The machine of a pattern that is not negated any more. -/
def compile? (pattern : List Char) : Option Machine :=
  let pattern := unmarked pattern
  let pattern :=
    if namesFilesInside pattern ∧ pattern.head? ≠ some '/' then '/' :: pattern else pattern
  (Regex.parse? (anchored (expressionText pattern))).map .ofRegex

/-- The text without any `c` at its end. -/
def dropTrailing (c : Char) (cs : List Char) : List Char :=
  (cs.reverse.dropWhile (· == c)).reverse

/-- The pattern of a line. Comments, blank lines and lines that make no expression have none. -/
def ofLine? (line : List Char) : Option Pattern :=
  let line := dropTrailing '\r' line
  if line.head? = some '#' then none
  else
    match dropTrailing ' ' (line.dropWhile (· == ' ')) with
    | [] => none
    | '!' :: rest => (compile? rest).map (⟨·, true⟩)
    | pattern => (compile? pattern).map (⟨·, false⟩)

end Pattern

/-- Patterns in the order in which they are tried. -/
abbrev Patterns := List Pattern

/-- The patterns of some lines. A line with stray bytes makes none. -/
def Patterns.ofLines (lines : List Text.RawText) : Patterns :=
  lines.filterMap fun l => l.text?.bind fun s => Pattern.ofLine? s.toList

/-- The lines of a file of patterns. -/
def Patterns.linesOf (text : Text.RawText) : List Text.RawText :=
  (Text.splitOn '\n'.toUInt8 text.bytes).map .mk

/-- A path is excluded. -/
def Patterns.exclude (ps : Patterns) (path : Text.RawText) : Bool :=
  ps.foldl (fun excluded p => if p.machine.occursIn path.chars then !p.negated else excluded) false

end CallAtlas.Exclude
