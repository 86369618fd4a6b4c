import CallAtlas.Text.Number
import CallAtlas.Text.Raw

/-!
# Quoted text

A text between double quotes, as it stands in messages and as a label in a drawing. Quotes and
backslashes are escaped, the common controls have their letter, other unprintable characters are
written by number, and a byte that is no character is written in hexadecimal.
-/

namespace CallAtlas.Text

/-- The written form of one character inside quotes. -/
def quotedChar (c : Char) : String :=
  if c == '"' then "\\\"" else
  if c == '\\' then "\\\\" else
  if isPrintable c then c.toString else
  let n := c.toNat
  if n == 7 then "\\a" else
  if n == 8 then "\\b" else
  if n == 12 then "\\f" else
  if n == 10 then "\\n" else
  if n == 13 then "\\r" else
  if n == 9 then "\\t" else
  if n == 11 then "\\v" else
  if n < 0x20 || n == 0x7f then "\\x" ++ hexFill 2 n else
  if n < 0x10000 then "\\u" ++ hexFill 4 n else
  "\\U" ++ hexFill 8 n

/-- The written form inside quotes of a character or a stray byte. -/
def quotedGlyph : Glyph → String
  | .char c => quotedChar c
  | .stray b => "\\x" ++ hexFill 2 b.toNat

/-- A text between double quotes. -/
def quoted (t : RawText) : String :=
  "\"" ++ String.join (t.glyphs.map quotedGlyph) ++ "\""

end CallAtlas.Text
