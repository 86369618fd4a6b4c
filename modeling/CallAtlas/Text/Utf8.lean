/-!
# UTF-8

Characters as bytes, and bytes as the characters they encode. A byte that is not part of a character
stands for itself, so no byte string is refused.
-/

namespace CallAtlas.Text

/-- A character, or a byte that is not part of one. -/
inductive Glyph where
  | char (c : Char)
  | stray (b : UInt8)
  deriving DecidableEq, Repr

/-- The six low bits of a byte that continues a character. -/
def continuation? (b : UInt8) : Option Nat :=
  if 0x80 ≤ b ∧ b < 0xc0 then some (b.toNat - 0x80) else none

/-- The character with a code point, if it needs as many bytes as were used for it. -/
def charOfSize? (n size : Nat) : Option (Char × Nat) :=
  if n < 0xd800 ∨ (0xdfff < n ∧ n < 0x110000) then
    if (Char.ofNat n).utf8Size = size then some (Char.ofNat n, size) else none
  else none

/-- The first character of a byte string and the number of its bytes. -/
def firstChar? : List UInt8 → Option (Char × Nat)
  | [] => none
  | b :: r =>
    if b < 0x80 then some (Char.ofNat b.toNat, 1)
    else if b < 0xc0 then none
    else if b < 0xe0 then do
      let [c₁] := r.take 1 | none
      charOfSize? ((b.toNat - 0xc0) * 64 + (← continuation? c₁)) 2
    else if b < 0xf0 then do
      let [c₁, c₂] := r.take 2 | none
      charOfSize? (((b.toNat - 0xe0) * 64 + (← continuation? c₁)) * 64 + (← continuation? c₂)) 3
    else if b < 0xf8 then do
      let [c₁, c₂, c₃] := r.take 3 | none
      charOfSize? ((((b.toNat - 0xf0) * 64 + (← continuation? c₁)) * 64 + (← continuation? c₂)) * 64
        + (← continuation? c₃)) 4
    else none

/-- The glyphs of at most `n` characters or stray bytes. -/
def glyphsUpTo : Nat → List UInt8 → List Glyph
  | 0, _ => []
  | _ + 1, [] => []
  | n + 1, b :: r =>
    match firstChar? (b :: r) with
    | some (c, size) => .char c :: glyphsUpTo n ((b :: r).drop size)
    | none => .stray b :: glyphsUpTo n r

/-- The glyphs of a byte string. -/
def glyphsOfBytes (bytes : List UInt8) : List Glyph :=
  glyphsUpTo bytes.length bytes

/-- The bytes of a character, or the one that is none. -/
def Glyph.bytes : Glyph → List UInt8
  | .char c => String.utf8EncodeChar c
  | .stray b => [b]

/-- The UTF-8 bytes of a text. -/
def toBytes (s : String) : List UInt8 :=
  s.toList.flatMap String.utf8EncodeChar

/-- The size of a text in UTF-8 bytes. -/
def byteSize (cs : List Char) : Nat :=
  cs.foldr (fun c n => c.utf8Size + n) 0

end CallAtlas.Text
