import CallAtlas.Text.Replace
import CallAtlas.Text.Utf8

/-!
# Fields of a record

A record is a line of fields with commas between them. A field between double quotes may hold commas
and line ends, and a quote that is written twice; in another field no quote may stand. Blank lines
before the record do not count, and nothing after it does.
-/

namespace CallAtlas.Text.Fields

/-- A place in a text: the number of the line, and that of the byte in it, both from one. -/
structure Place where
  line : Nat
  column : Nat
  deriving DecidableEq, Repr

/-- Why a text holds no record. -/
inductive Problem where
  /-- There are blank lines at most. -/
  | nothing
  /-- A quote in a field that has none around it, in a record that starts at a line. -/
  | bareQuote (start : Nat) (place : Place)
  /-- A field between quotes goes on after them, or they are not closed. -/
  | quoteMismatch (start : Nat) (place : Place)
  deriving DecidableEq, Repr

/-- The place of a problem in words. -/
def placeText (start : Nat) (p : Place) : String :=
  (if start = p.line then "" else s!"record on line {start}; ")
    ++ s!"parse error on line {p.line}, column {p.column}: "

def Problem.message : Problem → String
  | .nothing => "EOF"
  | .bareQuote start p => placeText start p ++ "bare \" in non-quoted field"
  | .quoteMismatch start p => placeText start p ++ "extraneous or missing \" in quoted-field"

/-- Line ends as they count: a carriage return before one or at the very end is no part of a line. -/
def normalize (cs : List Char) : List Char :=
  let cs := replace "\r\n" "\n" cs
  if cs.getLast? = some '\r' then cs.dropLast else cs

/-- The number of blank lines at the start and what follows them. -/
def skipBlankLines : List Char → Nat × List Char
  | '\n' :: cs => ((skipBlankLines cs).1 + 1, (skipBlankLines cs).2)
  | cs => (0, cs)

/-- Reads a field after its opening quote: its text, the place of the closing quote, and what follows that. -/
def quotedField (start : Nat) (p : Place) : List Char → Except Problem (List Char × Place × List Char)
  | [] => .error (.quoteMismatch start p)
  | '"' :: '"' :: cs => do
    let (text, stop, rest) ← quotedField start { p with column := p.column + 2 } cs
    return ('"' :: text, stop, rest)
  | '"' :: cs => .ok ([], p, cs)
  | ['\n'] => .error (.quoteMismatch start { p with column := p.column + 1 })
  | '\n' :: cs => do
    let (text, stop, rest) ← quotedField start ⟨p.line + 1, 1⟩ cs
    return ('\n' :: text, stop, rest)
  | c :: cs => do
    let (text, stop, rest) ← quotedField start { p with column := p.column + c.utf8Size } cs
    return (c :: text, stop, rest)

/-- Whether a character ends a field that has no quotes around it. -/
def endsField (c : Char) : Bool :=
  c == ',' || c == '\n'

/-- Reads the fields from a place on, as many as there are steps at most. -/
def fieldsFrom (start : Nat) : (steps : Nat) → Place → List Char → Except Problem (List (List Char))
  | 0, _, _ => .ok []
  | n + 1, p, '"' :: cs => do
    let (text, stop, rest) ← quotedField start { p with column := p.column + 1 } cs
    match rest with
    | ',' :: rest =>
      return text :: (← fieldsFrom start n { stop with column := stop.column + 2 } rest)
    | [] => return [text]
    | '\n' :: _ => return [text]
    | _ => throw (.quoteMismatch start stop)
  | n + 1, p, cs => do
    let text := cs.takeWhile (!endsField ·)
    if text.contains '"' then
      throw (.bareQuote start { p with column := p.column + byteSize (text.takeWhile (· ≠ '"')) })
    match cs.drop text.length with
    | ',' :: rest =>
      return text :: (← fieldsFrom start n { p with column := p.column + byteSize text + 1 } rest)
    | _ => return [text]

/-- The fields of the record in a text. -/
def parse (s : String) : Except Problem (List String) := do
  let (blank, cs) := skipBlankLines (normalize s.toList)
  if cs = [] then throw .nothing
  let start := blank + 1
  return (← fieldsFrom start (cs.length + 1) ⟨start, 1⟩ cs).map String.ofList

end CallAtlas.Text.Fields
