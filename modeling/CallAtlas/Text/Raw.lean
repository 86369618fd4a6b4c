import CallAtlas.Text.Printable
import CallAtlas.Text.Utf8

/-!
# Raw texts

Names in archives, variables in files and paths are bytes. Mostly these are the UTF-8 form of a text,
but nothing makes sure of that, and a limit on the number of bytes can cut through a character. Raw
texts are joined, compared and ordered by their bytes; what is shown of one has a replacement
character for every byte that is part of no character.
-/

namespace CallAtlas.Text

/-- Bytes that are meant as a text. -/
structure RawText where
  bytes : List UInt8
  deriving DecidableEq, Repr

namespace RawText

/-- The bytes of a text. -/
def ofString (s : String) : RawText :=
  ⟨toBytes s⟩

instance : Coe String RawText := ⟨ofString⟩

instance : Append RawText := ⟨fun a b => ⟨a.bytes ++ b.bytes⟩⟩

instance : LT RawText := ⟨fun a b => a.bytes < b.bytes⟩

instance (a b : RawText) : Decidable (a < b) :=
  inferInstanceAs (Decidable (a.bytes < b.bytes))

/-- `a` need not come behind `b`. -/
def le (a b : RawText) : Bool :=
  !decide (b < a)

/-- The text of some glyphs. -/
def ofGlyphs (gs : List Glyph) : RawText :=
  ⟨gs.flatMap Glyph.bytes⟩

/-- The characters and stray bytes of a text. -/
def glyphs (t : RawText) : List Glyph :=
  glyphsOfBytes t.bytes

def isEmpty (t : RawText) : Bool :=
  t.bytes.isEmpty

/-- The number of bytes. -/
def size (t : RawText) : Nat :=
  t.bytes.length

/-- The character that stands for a byte that is none. -/
def replacement : Char := Char.ofNat 0xfffd

/-- The characters that a reader sees. -/
def chars (t : RawText) : List Char :=
  t.glyphs.map fun g => match g with | .char c => c | .stray _ => replacement

/-- The text that a reader sees. -/
def shown (t : RawText) : String :=
  String.ofList t.chars

/-- The text, if it has no stray byte. -/
def text? (t : RawText) : Option String :=
  (t.glyphs.mapM fun g =>
    match g with | Glyph.char c => some c | Glyph.stray _ => none).map String.ofList

/-- Texts one behind the other. -/
def join (ts : List RawText) : RawText :=
  ⟨ts.flatMap bytes⟩

/-- Texts with another one between them. -/
def joinWith (between : RawText) (ts : List RawText) : RawText :=
  ⟨List.intercalate between.bytes (ts.map bytes)⟩

def startsWith (t start : RawText) : Bool :=
  start.bytes.isPrefixOf t.bytes

def endsWith (t stop : RawText) : Bool :=
  stop.bytes.isSuffixOf t.bytes

/-- White space; a stray byte is none. -/
def isSpaceGlyph : Glyph → Bool
  | .char c => isSpace c
  | .stray _ => false

/-- The text without white space at either end. -/
def trim (t : RawText) : RawText :=
  ofGlyphs ((t.glyphs.dropWhile isSpaceGlyph).reverse.dropWhile isSpaceGlyph).reverse

/-- The first `n` bytes of a text. -/
def take (n : Nat) (t : RawText) : RawText :=
  ⟨t.bytes.take n⟩

/-- A text of at most `limit` bytes; a longer one ends in three dots. -/
def shorten (limit : Nat) (t : RawText) : RawText :=
  if t.size ≤ limit then t else t.take (limit - 3) ++ "..."

end RawText

end CallAtlas.Text
