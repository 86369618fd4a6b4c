import CallAtlas.Failure

/-!
# Byte cursor

A cursor is a byte string cut at the reading position. Reads take big-endian words of the bytes
that follow, and a read that does not succeed yields no cursor, so the old one stays in force.

The view is `Cursor.data`: no operation changes it, and `Cursor.pos` is the number of its bytes that
lie before the cut.
-/

namespace CallAtlas

/-- A byte string with a reading position. -/
structure Cursor where
  /-- The bytes before the position, the last one first. -/
  passed : List UInt8
  /-- The bytes from the position on. -/
  rest : List UInt8
  /-- The position, counted from the start of the byte string. -/
  pos : Nat
  pos_eq : pos = passed.length

namespace Cursor

/-- Why a cursor cannot do what it is asked. -/
inductive Fault where
  /-- Fewer bytes follow than are asked for. -/
  | endOfData
  /-- The position lies outside the byte string. -/
  | outOfRange
  deriving DecidableEq, Repr

/-- The wording of a fault. -/
def Fault.message : Fault → String
  | .endOfData => "stream: unexpected end of data"
  | .outOfRange => "stream: position out of range"

/-- A fault as it is reported. -/
def Fault.failure (f : Fault) : Failure :=
  { kind := match f with | .endOfData => .endOfData | .outOfRange => .positionRange
    message := f.message }

/-- A cursor at the start of a byte string. -/
def ofBytes (data : List UInt8) : Cursor :=
  ⟨[], data, 0, rfl⟩

/-- The whole byte string. -/
def data (c : Cursor) : List UInt8 :=
  c.passed.reverse ++ c.rest

/-- How many bytes follow the position. -/
def remaining (c : Cursor) : Nat :=
  c.rest.length

/-- Moves the position `n` bytes on, if so many follow. -/
def forward? : Nat → Cursor → Option Cursor
  | 0, c => some c
  | _ + 1, ⟨_, [], _, _⟩ => none
  | n + 1, ⟨p, b :: r, k, h⟩ => forward? n ⟨b :: p, r, k + 1, by simp [h]⟩

/-- Moves the position `n` bytes back, or to the start if fewer lie before it. -/
def backward : Nat → Cursor → Cursor
  | 0, c => c
  | _ + 1, ⟨[], r, k, h⟩ => ⟨[], r, k, h⟩
  | n + 1, ⟨b :: p, r, k, h⟩ => backward n ⟨p, b :: r, k - 1, by simp at h; omega⟩

/-- Moves the position on by a number of bytes that is not negative. -/
def skip (n : Int) (c : Cursor) : Except Fault Cursor :=
  match n with
  | .ofNat n => (c.forward? n).elim (.error .endOfData) .ok
  | .negSucc _ => .error .endOfData

/-- Sets the position anywhere from the start to the end of the byte string. -/
def seek (p : Int) (c : Cursor) : Except Fault Cursor :=
  match p with
  | .negSucc _ => .error .outOfRange
  | .ofNat p =>
    if p < c.pos then .ok (c.backward (c.pos - p))
    else (c.forward? (p - c.pos)).elim (.error .outOfRange) .ok

/-- Moves the position on to a multiple of `a`. A size that is not positive asks for nothing. -/
def align (a : Int) (c : Cursor) : Except Fault Cursor :=
  if a ≤ 0 then .ok c
  else
    let excess := c.pos % a.toNat
    if excess = 0 then .ok c else c.skip (a.toNat - excess : Nat)

/-- The next `n` bytes. -/
def bytes (n : Int) (c : Cursor) : Except Fault (List UInt8 × Cursor) :=
  (c.skip n).map fun c' => (c.rest.take n.toNat, c')

/-- The value of bytes that stand with the most significant first. -/
def bigEndian (bytes : List UInt8) : Nat :=
  bytes.foldl (fun v b => v * 256 + b.toNat) 0

/-- The number that a word of `bits` bits stands for in two's complement. -/
def signed (bits v : Nat) : Int :=
  if v < Nat.pow 2 (bits - 1) then v else (v : Int) - (Nat.pow 2 bits : Nat)

/-- The next `k` bytes as an unsigned word. -/
def word (k : Nat) (c : Cursor) : Except Fault (Nat × Cursor) :=
  (c.bytes k).map fun (bs, c') => (bigEndian bs, c')

/-- The next byte. -/
def u8 (c : Cursor) : Except Fault (Nat × Cursor) := c.word 1

/-- The next two bytes as an unsigned word. -/
def u16 (c : Cursor) : Except Fault (Nat × Cursor) := c.word 2

/-- The next four bytes as an unsigned word. -/
def u32 (c : Cursor) : Except Fault (Nat × Cursor) := c.word 4

/-- The next eight bytes as an unsigned word. -/
def u64 (c : Cursor) : Except Fault (Nat × Cursor) := c.word 8

/-- The next two bytes as a signed word. -/
def i16 (c : Cursor) : Except Fault (Int × Cursor) :=
  c.u16.map fun (v, c') => (signed 16 v, c')

/-- The next four bytes as a signed word. -/
def i32 (c : Cursor) : Except Fault (Int × Cursor) :=
  c.u32.map fun (v, c') => (signed 32 v, c')

end Cursor
end CallAtlas
