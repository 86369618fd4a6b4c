import CallAtlas.Bytes.Cursor

/-!
# Readers

A reader takes a value off a cursor or fails with a cause and the position it failed at. Steps fail
before they move, so that position is where the first byte that could not be had was asked for.
-/

namespace CallAtlas

/-- A cause of failure and the position of the reader at the time. -/
structure Reader.Failure (ε : Type) where
  position : Nat
  cause : ε

/-- A computation that reads from a cursor and fails with a cause of type `ε`. -/
abbrev Reader (ε α : Type) : Type :=
  StateT Cursor (Except (Reader.Failure ε)) α

/-- Causes of failure that can say that the bytes ran out. -/
class EndOfData (ε : Type) where
  endOfData : ε

namespace Reader

variable {ε α : Type}

/-- Fails at the present position. -/
def fail (cause : ε) : Reader ε α :=
  fun c => .error ⟨c.pos, cause⟩

/-- A result that does not depend on the bytes. -/
def ofExcept (r : Except ε α) : Reader ε α :=
  match r with
  | .ok a => pure a
  | .error e => fail e

/-- A step of the cursor; its only fault is that the bytes ran out. -/
def step [EndOfData ε] (op : Cursor → Except Cursor.Fault (α × Cursor)) : Reader ε α :=
  fun c => match op c with
    | .ok r => .ok r
    | .error _ => .error ⟨c.pos, EndOfData.endOfData⟩

/-- A step that only moves the cursor. -/
def move [EndOfData ε] (op : Cursor → Except Cursor.Fault Cursor) : Reader ε Unit :=
  step fun c => (op c).map fun c' => ((), c')

/-- The present position. -/
def position : Reader ε Nat :=
  fun c => .ok (c.pos, c)

/-- How many bytes follow. -/
def remaining : Reader ε Nat :=
  fun c => .ok (c.remaining, c)

/-- The next byte. -/
def u8 [EndOfData ε] : Reader ε Nat := step Cursor.u8

/-- The next two bytes as an unsigned word. -/
def u16 [EndOfData ε] : Reader ε Nat := step Cursor.u16

/-- The next four bytes as an unsigned word. -/
def u32 [EndOfData ε] : Reader ε Nat := step Cursor.u32

/-- The next eight bytes as an unsigned word. -/
def u64 [EndOfData ε] : Reader ε Nat := step Cursor.u64

/-- The next two bytes as a signed word. -/
def i16 [EndOfData ε] : Reader ε Int := step Cursor.i16

/-- The next four bytes as a signed word. -/
def i32 [EndOfData ε] : Reader ε Int := step Cursor.i32

/-- The next `n` bytes. -/
def bytes [EndOfData ε] (n : Nat) : Reader ε (List UInt8) := step (Cursor.bytes n)

/-- Passes over `n` bytes. -/
def skip [EndOfData ε] (n : Nat) : Reader ε Unit := move (Cursor.skip n)

/-- Passes over the bytes up to the next multiple of `a`. -/
def align [EndOfData ε] (a : Nat) : Reader ε Unit := move (Cursor.align a)

/-- Changes the cause of a failure. -/
def mapCause (f : ε → ε) (r : Reader ε α) : Reader ε α :=
  fun c => (r c).mapError fun e => { e with cause := f e.cause }

/-- Reads a byte string that was taken off the cursor before. It counts as one step there: a failure inside is a
    failure at the present position. -/
def inside (body : List UInt8) (r : Reader ε α) : Reader ε α :=
  fun c => match r (.ofBytes body) with
    | .ok (a, _) => .ok (a, c)
    | .error e => .error ⟨c.pos, e.cause⟩

/-- Runs a numbered reader for `i`, `i + 1`, … `n` times in all and lists the values behind those read
    before. -/
def repeatFrom (r : Nat → Reader ε α) (i : Nat) (before : List α) : Nat → Reader ε (List α)
  | 0 => fun c => .ok (before.reverse, c)
  | n + 1 => fun c => match r i c with
    | .ok (a, c') => repeatFrom r (i + 1) (a :: before) n c'
    | .error e => .error e

/-- Runs a reader `n` times; it is told how often it ran before. -/
def times (n : Nat) (r : Nat → Reader ε α) : Reader ε (List α) :=
  repeatFrom r 0 [] n

end Reader
end CallAtlas
