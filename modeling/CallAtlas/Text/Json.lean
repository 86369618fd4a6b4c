import CallAtlas.Text.Number
import CallAtlas.Text.Raw

/-!
# JSON text

Documents in JSON, written on one line or indented. Members stand in the order they are given.
-/

namespace CallAtlas.Text

/-- A JSON document. -/
inductive Json where
  | null
  | bool (value : Bool)
  | int (value : Int)
  | string (text : RawText)
  | array (items : List Json)
  | object (members : List (String × Json))

namespace Json

/-- How the characters of a text are escaped beyond what has to be. -/
structure Style where
  /-- Angle brackets and the ampersand are, so that the text can stand in a page. -/
  escapeMarkup : Bool
  /-- Backspace and form feed have letters of their own. -/
  letters : Bool
  /-- The replacement character for a stray byte is given by its number. -/
  escapeStrays : Bool

/-- The style of files and reports. -/
def forFiles : Style := ⟨true, true, true⟩

/-- The style of log lines. -/
def forLogs : Style := ⟨false, false, false⟩

/-- The written form of a character inside a text. -/
def escapedChar (style : Style) (c : Char) : String :=
  let n := c.toNat
  if c == '"' then "\\\"" else
  if c == '\\' then "\\\\" else
  if n == 10 then "\\n" else
  if n == 13 then "\\r" else
  if n == 9 then "\\t" else
  if style.letters && n == 8 then "\\b" else
  if style.letters && n == 12 then "\\f" else
  if n < 0x20 || n == 0x2028 || n == 0x2029 then "\\u" ++ hexFill 4 n else
  if style.escapeMarkup && (c == '<' || c == '>' || c == '&') then "\\u" ++ hexFill 4 n
  else c.toString

/-- The written form of a character or a stray byte. For the latter stands a replacement character. -/
def escapedGlyph (style : Style) : Glyph → String
  | .char c => escapedChar style c
  | .stray _ =>
    if style.escapeStrays then "\\u" ++ hexFill 4 RawText.replacement.toNat
    else RawText.replacement.toString

/-- The written form of a text. -/
def quote (style : Style) (t : RawText) : String :=
  "\"" ++ String.join (t.glyphs.map (escapedGlyph style)) ++ "\""

/-- A document on one line. -/
def compact (style : Style) : Json → String
  | .null => "null"
  | .bool v => if v then "true" else "false"
  | .int v => toString v
  | .string s => quote style s
  | .array items => "[" ++ ",".intercalate (itemTexts items) ++ "]"
  | .object members => "\x7b" ++ ",".intercalate (memberTexts members) ++ "\x7d"
where
  /-- The items of an array. -/
  itemTexts : List Json → List String
    | [] => []
    | j :: js => compact style j :: itemTexts js
  /-- The members of an object. -/
  memberTexts : List (String × Json) → List String
    | [] => []
    | (k, j) :: ms => (quote style k ++ ":" ++ compact style j) :: memberTexts ms

/-- Lines between brackets, one step further in; nothing stands between the brackets of an empty list. -/
def block (indent opening closing : String) (lines : List String) : String :=
  if lines.isEmpty then opening ++ closing
  else opening ++ "\n" ++ ",\n".intercalate (lines.map fun l => indent ++ "  " ++ l)
    ++ "\n" ++ indent ++ closing

/-- A document whose lines behind the first are indented. -/
def indented (style : Style) (indent : String) : Json → String
  | .array items => block indent "[" "]" (itemTexts (indent ++ "  ") items)
  | .object members => block indent "\x7b" "\x7d" (memberTexts (indent ++ "  ") members)
  | j => compact style j
where
  /-- The items of an array. -/
  itemTexts (indent : String) : List Json → List String
    | [] => []
    | j :: js => indented style indent j :: itemTexts indent js
  /-- The members of an object. -/
  memberTexts (indent : String) : List (String × Json) → List String
    | [] => []
    | (k, j) :: ms => (quote style k ++ ": " ++ indented style indent j) :: memberTexts indent ms

/-- A document for a file: indented, with a line end. -/
def document (j : Json) : String :=
  indented forFiles "" j ++ "\n"

/-- A document on a line of its own. -/
def line (j : Json) : String :=
  compact forFiles j ++ "\n"

/-- An array of texts. -/
def strings (ss : List String) : Json :=
  .array (ss.map fun s => .string (.ofString s))

/-- A member unless the condition fails. -/
def memberIf (condition : Bool) (name : String) (j : Json) : List (String × Json) :=
  if condition then [(name, j)] else []

end Json
end CallAtlas.Text
