/-!
# Modified UTF-8

The text encoding of class files: characters beyond the basic plane are written as two surrogates of
three bytes each, and the character zero as two bytes, so that no byte is ever zero.
-/

namespace CallAtlas.Text.ModifiedUtf8

/-- A byte that continues a character. -/
def isContinuation (b : UInt8) : Bool :=
  b &&& 0xc0 == 0x80

/-- The low six bits of a continuation byte. -/
def payload (b : UInt8) : Nat :=
  b.toNat % 64

/-- The UTF-16 units that a byte string encodes, behind those found before. -/
def unitsFrom (before : List Nat) : List UInt8 → Option (List Nat)
  | [] => some before.reverse
  | a :: r =>
    if a = 0 then none
    else if a < 0x80 then unitsFrom (a.toNat :: before) r
    else if a &&& 0xe0 = 0xc0 then
      match r with
      | b :: r =>
        if isContinuation b then unitsFrom ((a.toNat % 32 * 64 + payload b) :: before) r else none
      | [] => none
    else if a &&& 0xf0 = 0xe0 then
      match r with
      | b :: c :: r =>
        if isContinuation b && isContinuation c then
          unitsFrom ((a.toNat % 16 * 4096 + payload b * 64 + payload c) :: before) r
        else none
      | _ => none
    else none

/-- The UTF-16 units that a byte string encodes. -/
def units? (bytes : List UInt8) : Option (List Nat) :=
  unitsFrom [] bytes

/-- The first unit of a surrogate pair. -/
def isHigh (u : Nat) : Bool := 0xd800 ≤ u && u < 0xdc00

/-- The second unit of a surrogate pair. -/
def isLow (u : Nat) : Bool := 0xdc00 ≤ u && u < 0xe000

/-- The character of one unit; a surrogate on its own has none. -/
def single (u : Nat) : Char :=
  if isHigh u || isLow u then Char.ofNat 0xfffd else Char.ofNat u

/-- The characters of UTF-16 units, behind those found before. -/
def joinFrom (before : List Char) : List Nat → List Char
  | [] => before.reverse
  | [u] => (single u :: before).reverse
  | u :: v :: r =>
    if isHigh u && isLow v then
      joinFrom (Char.ofNat (0x10000 + (u - 0xd800) * 1024 + (v - 0xdc00)) :: before) r
    else joinFrom (single u :: before) (v :: r)
termination_by us => us.length

/-- The characters of UTF-16 units: surrogate pairs are joined, surrogates without a partner become replacement
    characters. -/
def join (us : List Nat) : List Char :=
  joinFrom [] us

/-- A byte that is a character of its own. -/
def isPlain (b : UInt8) : Bool :=
  b != 0 && b < 0x80

/-- The text that a byte string encodes. Plain bytes alone are read one for one. -/
def decode? (bytes : List UInt8) : Option (List Char) :=
  if bytes.all isPlain then some (bytes.map fun b => Char.ofNat b.toNat)
  else (units? bytes).map join

end CallAtlas.Text.ModifiedUtf8
