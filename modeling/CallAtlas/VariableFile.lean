import CallAtlas.Text.Quoted
import CallAtlas.Text.Replace
import CallAtlas.Text.Split

/-!
# Files of variables

A file of variables has a line `NAME=value` for each. Blank lines and those that start with `#` do not
count. A value between quotes may go over several lines and keeps its bytes; another one ends with its
line, or before a `#` with a blank before it, and has replacement characters for stray bytes. A later
line can use a variable of an earlier one.
-/

namespace CallAtlas.VariableFile

open Text (Glyph RawText)

/-- Variables and their values, the latest first. -/
abbrev Variables := List (RawText × RawText)

/-- Why a file is refused. -/
inductive Problem where
  | noName
  | badName (c : Char) (near : RawText)
  | unterminated (value : RawText)
  deriving DecidableEq, Repr

def Problem.message : Problem → RawText
  | .noName => "zero length string"
  | .badName c near =>
    "unexpected character " ++ Text.quoted c.toString ++ " in variable name near "
      ++ Text.quoted near
  | .unterminated value => "unterminated quoted value " ++ value

/-- White space inside a line. -/
def isBlank (c : Char) : Bool :=
  [0x09, 0x0b, 0x0c, 0x0d, 0x20, 0x85, 0xa0].contains c.toNat

/-- A glyph that is white space inside a line. -/
def isBlankGlyph : Glyph → Bool
  | .char c => isBlank c
  | .stray _ => false

/-- Letters and digits among the first 256 characters, and the marks that a name may hold. -/
def isNameChar (c : Char) : Bool :=
  let n := c.toNat
  c.isAlphanum || c == '_' || c == '.' ||
    [0xaa, 0xb2, 0xb3, 0xb5, 0xb9, 0xba, 0xbc, 0xbd, 0xbe].contains n ||
    (0xc0 ≤ n && n ≤ 0xff && n != 0xd7 && n != 0xf7)

/-- What of a glyph cannot stand in a name. Each of its bytes counts on its own. -/
def nameFault? (g : Glyph) : Option Char :=
  (g.bytes.map fun b => Char.ofNat b.toNat).find? fun b => !isBlank b && !isNameChar b

/-! ### Values -/

/-- A character that may or may not come next. -/
def mark (c : Char) : List Glyph → List Glyph × List Glyph
  | g :: gs => if g = .char c then ([g], gs) else ([], g :: gs)
  | [] => ([], [])

/-- A glyph that can stand in the name of a variable that is referred to. -/
def isReferenceGlyph : Glyph → Bool
  | .char c => c.isUpper || c.isDigit || c == '_'
  | .stray _ => false

/-- The name after a dollar, all that belongs to the reference, and what follows. -/
def reference (gs : List Glyph) : (List Glyph × List Glyph) × List Glyph :=
  let (opening, gs) := mark '(' gs
  let (brace, gs) := mark '\x7b' gs
  let name := gs.takeWhile isReferenceGlyph
  let (closing, rest) := mark '\x7d' (gs.drop name.length)
  ((name, opening ++ brace ++ name ++ closing), rest)

/-- A value with variables in place of their names: `$NAME` and `$` with the name in braces. A backslash before
    the dollar keeps it. A name that no variable has stands for nothing. As many glyphs as there are steps are
    read. -/
def expand (vs : Variables) : (steps : Nat) → List Glyph → RawText
  | 0, gs => .ofGlyphs gs
  | _ + 1, [] => ""
  | n + 1, .char '\\' :: .char '$' :: gs =>
    let (matched, rest) := reference gs
    "$" ++ RawText.ofGlyphs matched.2 ++ expand vs n rest
  | n + 1, .char '$' :: gs =>
    let (matched, rest) := reference gs
    let value := if matched.1 = [] then "$" ++ RawText.ofGlyphs matched.2
      else (vs.lookup (.ofGlyphs matched.1)).getD ""
    value ++ expand vs n rest
  | n + 1, g :: gs => RawText.ofGlyphs [g] ++ expand vs n gs

/-- A value with its variables. -/
def expandAll (vs : Variables) (gs : List Glyph) : RawText :=
  expand vs gs.length gs

/-- Writes the letters for line ends out. Other escapes stay. -/
def expandLineEnds : List Glyph → List Glyph
  | .char '\\' :: g :: gs =>
    if g = .char 'n' then .char '\n' :: expandLineEnds gs
    else if g = .char 'r' then .char '\r' :: expandLineEnds gs
    else .char '\\' :: g :: expandLineEnds gs
  | g :: gs => g :: expandLineEnds gs
  | [] => []

/-- Drops the backslash of escapes, but not before a dollar. -/
def dropBackslashes : List Glyph → List Glyph
  | .char '\\' :: g :: gs =>
    if g = .char '$' then .char '\\' :: dropBackslashes (g :: gs) else g :: dropBackslashes gs
  | g :: gs => g :: dropBackslashes gs
  | [] => []

/-- A text without what satisfies a test at its ends. -/
def trimWhere (p : Glyph → Bool) (gs : List Glyph) : List Glyph :=
  ((gs.dropWhile p).reverse.dropWhile p).reverse

/-- What comes before the comment of a line. The line and the answer are in reverse. -/
def beforeComment? : List Glyph → Option (List Glyph)
  | h :: g :: gs =>
    if h = .char '#' ∧ isBlankGlyph g then some (g :: gs) else beforeComment? (g :: gs)
  | _ => none

/-- A line without its comment: the last `#` with a blank before it starts one. -/
def dropComment (line : List Glyph) : List Glyph :=
  (beforeComment? line.reverse).elim line List.reverse

/-- The text up to a quote that has no backslash before it, and what follows the quote. The flag tells whether a
    backslash came just before. -/
def closing? (quote : Glyph) : (escaped : Bool) → List Glyph → Option (List Glyph × List Glyph)
  | _, [] => none
  | escaped, g :: gs =>
    if g = quote ∧ ¬ escaped then some ([], gs)
    else (closing? quote (g == .char '\\') gs).map fun (text, rest) => (g :: text, rest)

/-- A glyph with a replacement character for a stray byte. -/
def repaired : Glyph → Glyph
  | .char c => .char c
  | .stray _ => .char RawText.replacement

/-- Reads a value at the start of a text: the value, and what follows it. -/
def readValue (vs : Variables) : List Glyph → Except Problem (RawText × List Glyph)
  | [] => .ok ("", [])
  | g :: gs =>
    if g = .char '"' ∨ g = .char '\'' then
      match closing? g false gs with
      | some (text, rest) =>
        let text := trimWhere (· == g) text
        .ok (if g = .char '"' then expandAll vs (dropBackslashes (expandLineEnds text))
          else .ofGlyphs text, rest)
      | none => .error (.unterminated (.ofGlyphs ((g :: gs).takeWhile (· ≠ .char '\n'))))
    else
      let line := (g :: gs).takeWhile fun g => g ≠ .char '\n' ∧ g ≠ .char '\r'
      .ok (expandAll vs (trimWhere isBlankGlyph (dropComment (line.map repaired))),
        (g :: gs).drop line.length)

/-! ### Lines -/

/-- What follows the word `export`, where it stands before a name. -/
def dropExport (gs : List Glyph) : List Glyph :=
  match Text.dropPrefix? ("export".toList.map .char) gs with
  | some (g :: rest) => if isBlankGlyph g then rest.dropWhile isBlankGlyph else gs
  | _ => gs

/-- Reads the name at the start of a text: the name, and what follows the mark after it. A text without such a
    mark is a value without name. -/
def readName (gs : List Glyph) : Except Problem (RawText × List Glyph) :=
  let gs := dropExport gs
  if gs = [] then .error .noName else
  let name := gs.takeWhile fun g => g ≠ .char '=' ∧ g ≠ .char ':'
  match name.findSome? nameFault? with
  | some c => .error (.badName c (.ofGlyphs gs))
  | none =>
    match gs.drop name.length with
    | [] => .ok ("", gs.dropWhile isBlankGlyph)
    | _ :: rest => .ok ((RawText.ofGlyphs name).trim, rest.dropWhile isBlankGlyph)

/-- Reads variables, as many as there are steps at most. -/
def variablesFrom : (steps : Nat) → Variables → List Glyph → Except Problem Variables
  | 0, vs, _ => .ok vs
  | n + 1, vs, gs =>
    match gs.dropWhile RawText.isSpaceGlyph with
    | [] => .ok vs
    | .char '#' :: rest => variablesFrom n vs (rest.dropWhile (· ≠ .char '\n'))
    | gs => do
      let (name, rest) ← readName gs
      let (value, rest) ← readValue vs rest
      variablesFrom n ((name, value) :: vs) rest

/-- The variables of a file. -/
def parse (content : List UInt8) : Except Problem Variables :=
  let gs := Text.glyphsOfBytes (Text.replaceAfter [0x0d, 0x0a] [0x0a] 0 content)
  variablesFrom (gs.length + 1) [] gs

/-- A variable can have a value: a zero byte would end it. -/
def canHold (value : RawText) : Bool :=
  !value.bytes.contains 0

/-- The value that a name has after all. If the last one given cannot be held, it has none. -/
def value? (vs : Variables) (name : String) : Option RawText :=
  (vs.lookup (.ofString name)).filter canHold

end CallAtlas.VariableFile
