import CallAtlas.Bytecode.Instruction
import CallAtlas.Proofs.Bytes.Steps

/-!
# The encoding of instructions

How the instructions of a method are written in bytes, said without the table of operations and
without a reader. `Written` is an operation with its operands as they are written. `decode` accepts
exactly the bytes of such a list whose jumps lead to instructions (`decode_eq_ok_iff`), and yields what
was written.
-/

namespace CallAtlas.Bytecode

open Reader

/-! ### What is written -/

/-- Loads and stores of local variables, and `ret`. -/
def isLocal (code : Nat) : Prop :=
  (0x15 ≤ code ∧ code ≤ 0x19) ∨ (0x36 ≤ code ∧ code ≤ 0x3a) ∨ code = 0xa9

instance (code : Nat) : Decidable (isLocal code) :=
  inferInstanceAs (Decidable (_ ∨ _))

/-- What follows each of the 202 codes. -/
def formOf (code : Nat) : Option Form :=
  if code = 0xaa then some .tableSwitch
  else if code = 0xab then some .lookupSwitch
  else if code = 0xc4 then some .wide
  -- conditional jumps, `goto` and `jsr`
  else if (0x99 ≤ code ∧ code ≤ 0xa8) ∨ code = 0xc6 ∨ code = 0xc7 then some .branch16
  else if code = 0xc8 ∨ code = 0xc9 then some .branch32
  else if code = 0x12 then some .constant8
  -- `ldc_w`, `ldc2_w`, fields, calls, `new`, `anewarray`, `checkcast`, `instanceof`
  else if code = 0x13 ∨ code = 0x14 ∨ (0xb2 ≤ code ∧ code ≤ 0xb8) ∨ code = 0xbb ∨ code = 0xbd ∨
    code = 0xc0 ∨ code = 0xc1 then some (.constant16 0)
  -- `invokeinterface`, `invokedynamic`, `multianewarray`
  else if code = 0xb9 ∨ code = 0xba then some (.constant16 2)
  else if code = 0xc5 then some (.constant16 1)
  -- `sipush`, `iinc`; `bipush`, `newarray` and local variables
  else if code = 0x11 ∨ code = 0x84 then some (.fixed 2)
  else if code = 0x10 ∨ code = 0xbc ∨ isLocal code then some (.fixed 1)
  else if code < 202 then some (.fixed 0)
  else none

/-- How many bytes follow a widened operation. -/
def widenedSize? (code : Nat) : Option Nat :=
  if isLocal code then some 2 else if code = 0x84 then some 4 else none

/-- Operands as they are written. A switch has three bytes to fill up with, of which it takes as many as bring
    it to a multiple of four. -/
inductive Operand where
  | plain (bytes : List UInt8)
  | constant8 (index : UInt8)
  | constant16 (index : UInt16) (more : List UInt8)
  | branch16 (distance : Int16)
  | branch32 (distance : Int32)
  | tableSwitch (padding : Vector UInt8 3) (default low high : Int32) (jumps : List Int32)
      (low_le : low.toInt ≤ high.toInt) (count : (jumps.length : Int) = high.toInt - low.toInt + 1)
      (few : jumps.length < 65537)
  | lookupSwitch (padding : Vector UInt8 3) (default : Int32) (pairs : List (Int32 × Int32))
      (few : pairs.length < 2147483648)
  | wide (code : Nat) (bytes : List UInt8) (fits : widenedSize? code = some bytes.length)

namespace Operand

def form : Operand → Form
  | .plain bs => .fixed bs.length
  | .constant8 _ => .constant8
  | .constant16 _ more => .constant16 more.length
  | .branch16 _ => .branch16
  | .branch32 _ => .branch32
  | .tableSwitch .. => .tableSwitch
  | .lookupSwitch .. => .lookupSwitch
  | .wide .. => .wide

/-- The bytes of a case: its key and its distance. -/
def pairBytes (p : Int32 × Int32) : List UInt8 :=
  int32Bytes p.1 ++ int32Bytes p.2

/-- The bytes of operands that start at a position. -/
def bytes (pos : Nat) : Operand → List UInt8
  | .plain bs => bs
  | .constant8 i => [i]
  | .constant16 i more => bigEndianBytes 2 i.toNat ++ more
  | .branch16 d => int16Bytes d
  | .branch32 d => int32Bytes d
  | .tableSwitch padding default low high jumps .. =>
    padding.toList.take ((4 - pos % 4) % 4) ++ (int32Bytes default ++ (int32Bytes low ++
      (int32Bytes high ++ jumps.flatMap int32Bytes)))
  | .lookupSwitch padding default pairs _ =>
    padding.toList.take ((4 - pos % 4) % 4) ++ (int32Bytes default ++
      (bigEndianBytes 4 pairs.length ++ pairs.flatMap pairBytes))
  | .wide code bs _ => UInt8.ofNat code :: bs

/-- The constant that operands refer to, zero for none. -/
def index : Operand → Nat
  | .constant8 i => i.toNat
  | .constant16 i _ => i.toNat
  | _ => 0

/-- How far operands jump, for a switch with the default first. -/
def distances : Operand → List Int
  | .branch16 d => [d.toInt]
  | .branch32 d => [d.toInt]
  | .tableSwitch _ default _ _ jumps .. => default.toInt :: jumps.map Int32.toInt
  | .lookupSwitch _ default pairs _ => default.toInt :: pairs.map fun p => p.2.toInt
  | _ => []

/-- The keys of the cases of a switch. -/
def keys : Operand → List Int
  | .tableSwitch _ _ low _ jumps .. => (List.range jumps.length).map fun i => low.toInt + (i : Nat)
  | .lookupSwitch _ _ pairs _ => pairs.map fun p => p.1.toInt
  | _ => []

/-- The operation that is widened. -/
def widened? : Operand → Option Nat
  | .wide code _ _ => some code
  | _ => none

/-- What operands say about an instruction at a position. -/
def meaning (start : Nat) (x : Operand) : Operands :=
  { mnemonic := x.widened?.map Bytecode.mnemonic, index := x.index,
    targets := x.distances.map (start + ·), keys := x.keys, wide := x.widened?.isSome }

end Operand

/-- An operation with its operands as they are written. -/
structure Written where
  code : Nat
  operand : Operand
  fits : formOf code = some operand.form

namespace Written

/-- The bytes of an instruction at a position. -/
def bytes (pos : Nat) (x : Written) : List UInt8 :=
  UInt8.ofNat x.code :: x.operand.bytes (pos + 1)

/-- The instruction that is written at a position. -/
def instruction (pos : Nat) (x : Written) : Instruction :=
  { offset := pos, opcode := x.code, size := (x.bytes pos).length,
    mnemonic := mnemonic (x.operand.widened?.getD x.code), index := x.operand.index,
    targets := x.operand.distances.map (pos + ·), keys := x.operand.keys,
    wide := x.operand.widened?.isSome }

end Written

/-- The bytes of instructions that stand one behind the other from a position on. -/
def encodeFrom (pos : Nat) : List Written → List UInt8
  | [] => []
  | x :: xs => x.bytes pos ++ encodeFrom (pos + (x.bytes pos).length) xs

/-- The instructions that are written one behind the other from a position on. -/
def listingFrom (pos : Nat) : List Written → List Instruction
  | [] => []
  | x :: xs => x.instruction pos :: listingFrom (pos + (x.bytes pos).length) xs

def encode (xs : List Written) : List UInt8 :=
  encodeFrom 0 xs

def listing (xs : List Written) : List Instruction :=
  listingFrom 0 xs

/-- Every jump leads to an instruction of the list. -/
def Closed (is : List Instruction) : Prop :=
  ∀ i ∈ is, ∀ t ∈ i.targets, ∃ j ∈ is, j.offset = t

/-! ### The table of operations -/

/-- The table of `operations` gives each code the form that `formOf` says, and has no other codes. -/
private theorem form_operation? (code : Nat) : (operation? code).map Operation.form = formOf code := by
  -- the table has 202 rows, so it is compared whole and not row by row
  have htable : operations.toList.map (fun op => some op.form) = (List.range 202).map formOf := by
    decide +kernel
  have hrow := congrArg (fun forms => forms[code]?) htable
  simp only [List.getElem?_map, Array.getElem?_toList] at hrow
  unfold operation?
  by_cases hcode : code < 202
  · rw [List.getElem?_range hcode, Option.map_some] at hrow
    cases hop : operations[code]? with
    | none => rw [hop] at hrow; cases hrow
    | some op =>
      rw [hop] at hrow
      exact Option.some.inj hrow
  · -- beyond the table no range of `formOf` holds
    have hnone : formOf code = none := by
      unfold formOf isLocal
      repeat rw [if_neg (by omega)]
    have hpast : operations[code]? = none := Array.getElem?_eq_none (Nat.le_of_not_lt hcode)
    rw [hnone, hpast]
    rfl

/-- A row of the table is the name and the form of its code. -/
theorem operation?_eq (code : Nat) :
    operation? code = (formOf code).map fun form => ⟨mnemonic code, form⟩ := by
  rw [← form_operation?, mnemonic]
  cases operation? code with
  | none => rfl
  | some op => rfl

/-- Only the codes below 202 have a form. -/
theorem lt_of_formOf {code : Nat} {form : Form} (h : formOf code = some form) : code < 202 := by
  by_contra hcode
  have hnone : operation? code = none := Array.getElem?_eq_none (Nat.le_of_not_lt hcode)
  rw [operation?_eq, h] at hnone
  cases hnone

/-- `wideOperands?` knows the operations and sizes of `widenedSize?`. -/
private theorem wideOperands?_eq (code : Nat) : wideOperands? code = widenedSize? code := by
  unfold wideOperands? widenedSize? isLocal
  split <;> split <;> grind

/-! ### Operands -/

section
variable {start : Nat} {c c' : Cursor} {o : Operands}

/-- Up to three bytes are the first ones of some three. -/
private theorem exists_padding {bs : List UInt8} {n : Nat} (hlength : bs.length = n) (hn : n ≤ 3) :
    ∃ padding : Vector UInt8 3, padding.toList.take n = bs := by
  have hthree : (bs ++ List.replicate (3 - n) 0).toArray.size = 3 := by
    simp only [List.size_toArray, List.length_append, List.length_replicate]
    omega
  refine ⟨⟨_, hthree⟩, ?_⟩
  show (bs ++ List.replicate (3 - n) 0).take n = bs
  rw [← hlength, List.take_left]

/-- Three bytes are enough to fill up to a multiple of four. -/
theorem length_take_padding (padding : Vector UInt8 3) (pos : Nat) :
    (padding.toList.take ((4 - pos % 4) % 4)).length = (4 - pos % 4) % 4 := by
  rw [List.length_take, Vector.length_toList]
  omega

/-- `readTableSwitch` succeeds exactly on the bytes of a `tableSwitch`, and yields its `meaning`. -/
private theorem readTableSwitch_eq_ok :
    readTableSwitch start c = .ok (o, c') ↔ ∃ x : Operand, x.form = .tableSwitch ∧
      o = x.meaning start ∧ c.Past (x.bytes c.pos) c' := by
  have hjumps : ∀ (_ : Nat) c v c', (i32 : Reader Problem Int) c = .ok (v, c') ↔
      ∃ d : Int32, v = d.toInt ∧ c.Past (int32Bytes d) c' := fun _ _ _ _ => i32_eq_ok
  unfold readTableSwitch
  constructor
  · intro h
    -- one step of the reader after the other, each with the bytes it has passed
    obtain ⟨_, c₁, h₁, k₁⟩ := bind_eq_ok.1 h
    obtain ⟨fill, hfill, hpast₁⟩ := (align_eq_ok (by omega)).1 h₁
    obtain ⟨_, c₂, h₂, k₂⟩ := bind_eq_ok.1 k₁
    obtain ⟨default, rfl, hpast₂⟩ := i32_eq_ok.1 h₂
    obtain ⟨_, c₃, h₃, k₃⟩ := bind_eq_ok.1 k₂
    obtain ⟨low, rfl, hpast₃⟩ := i32_eq_ok.1 h₃
    obtain ⟨_, c₄, h₄, k₄⟩ := bind_eq_ok.1 k₃
    obtain ⟨high, rfl, hpast₄⟩ := i32_eq_ok.1 h₄
    split at k₄
    · -- bounds that are refused end in a failure
      obtain ⟨_, _, hfail, _⟩ := bind_eq_ok.1 k₄
      cases hfail
    · rename_i hrange
      obtain ⟨_, c₅, h₅, k₅⟩ := bind_eq_ok.1 k₄
      obtain ⟨jumps, hlength, rfl, hpast₅⟩ := (times_eq_ok hjumps).1 h₅
      obtain ⟨rfl, rfl⟩ := pure_eq_ok.1 k₅
      -- the bounds that are accepted are the ones that the operand carries proofs of
      obtain ⟨padding, rfl⟩ := exists_padding hfill (by omega)
      refine ⟨.tableSwitch padding default low high jumps (by omega) (by omega) (by omega), rfl, ?_,
        hpast₁.trans (hpast₂.trans (hpast₃.trans (hpast₄.trans hpast₅)))⟩
      simp only [Operand.meaning, Operand.widened?, Operand.index, Operand.distances, Operand.keys,
        Option.map_none, Option.isSome_none, hlength]
  · rintro ⟨x, hform, rfl, hpast⟩
    cases x with
    | tableSwitch padding default low high jumps low_le count few =>
      -- the bytes are cut where the reader's steps end
      obtain ⟨c₁, hpast₁, hpast⟩ := Cursor.past_append.1 hpast
      obtain ⟨c₂, hpast₂, hpast⟩ := Cursor.past_append.1 hpast
      obtain ⟨c₃, hpast₃, hpast⟩ := Cursor.past_append.1 hpast
      obtain ⟨c₄, hpast₄, hpast₅⟩ := Cursor.past_append.1 hpast
      have hlength : jumps.length = (high.toInt - low.toInt + 1).toNat := by omega
      refine bind_eq_ok.2 ⟨(), c₁, ?_, ?_⟩
      · exact (align_eq_ok (by omega)).2 ⟨_, length_take_padding padding c.pos, hpast₁⟩
      refine bind_eq_ok.2 ⟨_, c₂, i32_eq_ok.2 ⟨default, rfl, hpast₂⟩, ?_⟩
      refine bind_eq_ok.2 ⟨_, c₃, i32_eq_ok.2 ⟨low, rfl, hpast₃⟩, ?_⟩
      refine bind_eq_ok.2 ⟨_, c₄, i32_eq_ok.2 ⟨high, rfl, hpast₄⟩, ?_⟩
      rw [if_neg (by omega)]
      refine bind_eq_ok.2 ⟨_, c', (times_eq_ok hjumps).2 ⟨jumps, hlength, rfl, hpast₅⟩, ?_⟩
      refine pure_eq_ok.2 ⟨?_, rfl⟩
      simp only [Operand.meaning, Operand.widened?, Operand.index, Operand.distances, Operand.keys,
        Option.map_none, Option.isSome_none, hlength]
    | _ => cases hform

private theorem length_pairBytes (p : Int32 × Int32) : (Operand.pairBytes p).length = 8 := by
  simp [Operand.pairBytes]

/-- The cases of a `lookupSwitch` take eight bytes each. -/
theorem length_flatMap_pairBytes (pairs : List (Int32 × Int32)) :
    (pairs.flatMap Operand.pairBytes).length = pairs.length * 8 := by
  induction pairs with
  | nil => rfl
  | cons p pairs ih =>
    rw [List.flatMap_cons, List.length_append, length_pairBytes, ih, List.length_cons]
    omega

/-- A signed number that is not negative has the bytes of `bigEndianBytes`. -/
private theorem int32Bytes_of_nonneg {d : Int32} (h : 0 ≤ d.toInt) :
    int32Bytes d = bigEndianBytes 4 d.toInt.toNat := by
  have hsigned := Cursor.signed_int32 d
  have hlt := d.toUInt32.toNat_lt
  simp only [Cursor.signed, Nat.pow_eq] at hsigned
  rw [int32Bytes]
  congr 1
  split at hsigned <;> omega

/-- Each number below `2 ^ 31` is a signed number with the same bytes. -/
theorem exists_int32 {n : Nat} (hn : n < 2147483648) :
    ∃ d : Int32, d.toInt = n ∧ int32Bytes d = bigEndianBytes 4 n := by
  have hd : (Int32.ofInt n).toInt = n := Int32.toInt_ofInt_of_le (by omega) (by omega)
  refine ⟨Int32.ofInt n, hd, ?_⟩
  rw [int32Bytes_of_nonneg (by omega), hd, Int.toNat_natCast]

/-- `readLookupSwitch` succeeds exactly on the bytes of a `lookupSwitch`, and yields its `meaning`. -/
private theorem readLookupSwitch_eq_ok :
    readLookupSwitch start c = .ok (o, c') ↔ ∃ x : Operand, x.form = .lookupSwitch ∧
      o = x.meaning start ∧ c.Past (x.bytes c.pos) c' := by
  -- one case, in the form that `times_eq_ok` asks for
  have hpairs : ∀ (_ : Nat) c v c',
      (do return (← i32, ← i32) : Reader Problem (Int × Int)) c = .ok (v, c') ↔
        ∃ p : Int32 × Int32, v = (p.1.toInt, p.2.toInt) ∧ c.Past (Operand.pairBytes p) c' := by
    intro _ c v c'
    constructor
    · intro h
      obtain ⟨_, c₁, h₁, k₁⟩ := bind_eq_ok.1 h
      obtain ⟨key, rfl, hpast₁⟩ := i32_eq_ok.1 h₁
      obtain ⟨_, c₂, h₂, k₂⟩ := bind_eq_ok.1 k₁
      obtain ⟨distance, rfl, hpast₂⟩ := i32_eq_ok.1 h₂
      obtain ⟨rfl, rfl⟩ := pure_eq_ok.1 k₂
      exact ⟨(key, distance), rfl, hpast₁.trans hpast₂⟩
    · rintro ⟨p, rfl, hpast⟩
      obtain ⟨c₁, hpast₁, hpast₂⟩ := Cursor.past_append.1 hpast
      refine bind_eq_ok.2 ⟨_, c₁, i32_eq_ok.2 ⟨p.1, rfl, hpast₁⟩, ?_⟩
      exact bind_eq_ok.2 ⟨_, c', i32_eq_ok.2 ⟨p.2, rfl, hpast₂⟩, pure_eq_ok.2 ⟨rfl, rfl⟩⟩
  unfold readLookupSwitch
  constructor
  · intro h
    obtain ⟨_, c₁, h₁, k₁⟩ := bind_eq_ok.1 h
    obtain ⟨fill, hfill, hpast₁⟩ := (align_eq_ok (by omega)).1 h₁
    obtain ⟨_, c₂, h₂, k₂⟩ := bind_eq_ok.1 k₁
    obtain ⟨default, rfl, hpast₂⟩ := i32_eq_ok.1 h₂
    obtain ⟨_, c₃, h₃, k₃⟩ := bind_eq_ok.1 k₂
    obtain ⟨count, rfl, hpast₃⟩ := i32_eq_ok.1 h₃
    obtain ⟨left, c₄, h₄, k₄⟩ := bind_eq_ok.1 k₃
    obtain ⟨-, rfl⟩ := remaining_eq_ok.1 h₄
    -- a number of cases below zero, or too large for the bytes that are left, is refused
    split at k₄
    · obtain ⟨_, _, hfail, _⟩ := bind_eq_ok.1 k₄
      cases hfail
    · rename_i hcount
      obtain ⟨_, c₅, h₅, k₅⟩ := bind_eq_ok.1 k₄
      obtain ⟨pairs, hlength, rfl, hpast₅⟩ := (times_eq_ok hpairs).1 h₅
      obtain ⟨rfl, rfl⟩ := pure_eq_ok.1 k₅
      obtain ⟨padding, rfl⟩ := exists_padding hfill (by omega)
      -- the number of cases is read as a signed one, but is none below zero
      have hlt := count.toInt_lt
      rw [int32Bytes_of_nonneg (by omega), ← hlength] at hpast₃
      refine ⟨.lookupSwitch padding default pairs (by omega), rfl, ?_,
        hpast₁.trans (hpast₂.trans (hpast₃.trans hpast₅))⟩
      simp only [Operand.meaning, Operand.widened?, Operand.index, Operand.distances, Operand.keys,
        Option.map_none, Option.isSome_none, List.map_map, Function.comp_def]
  · rintro ⟨x, hform, rfl, hpast⟩
    cases x with
    | lookupSwitch padding default pairs few =>
      obtain ⟨c₁, hpast₁, hpast⟩ := Cursor.past_append.1 hpast
      obtain ⟨c₂, hpast₂, hpast⟩ := Cursor.past_append.1 hpast
      obtain ⟨c₃, hpast₃, hpast₅⟩ := Cursor.past_append.1 hpast
      obtain ⟨count, hcount, hbytes⟩ := exists_int32 few
      rw [← hbytes] at hpast₃
      -- all pairs are there, so enough bytes are left
      have hleft : pairs.length * 8 ≤ c₃.rest.length := by
        rw [hpast₅.rest_eq, List.length_append, length_flatMap_pairBytes]
        omega
      refine bind_eq_ok.2 ⟨(), c₁, ?_, ?_⟩
      · exact (align_eq_ok (by omega)).2 ⟨_, length_take_padding padding c.pos, hpast₁⟩
      refine bind_eq_ok.2 ⟨_, c₂, i32_eq_ok.2 ⟨default, rfl, hpast₂⟩, ?_⟩
      refine bind_eq_ok.2 ⟨_, c₃, i32_eq_ok.2 ⟨count, rfl, hpast₃⟩, ?_⟩
      refine bind_eq_ok.2 ⟨_, c₃, remaining_eq_ok.2 ⟨rfl, rfl⟩, ?_⟩
      rw [if_neg (by omega)]
      refine bind_eq_ok.2 ⟨_, c', (times_eq_ok hpairs).2 ⟨pairs, by omega, rfl, hpast₅⟩, ?_⟩
      refine pure_eq_ok.2 ⟨?_, rfl⟩
      simp only [Operand.meaning, Operand.widened?, Operand.index, Operand.distances, Operand.keys,
        Option.map_none, Option.isSome_none, List.map_map, Function.comp_def]
    | _ => cases hform

/-- Only codes of the table can be widened. -/
theorem lt_of_widenedSize? {code n : Nat} (h : widenedSize? code = some n) : code < 202 := by
  unfold widenedSize? at h
  by_cases hlocal : isLocal code
  · unfold isLocal at hlocal
    omega
  · rw [if_neg hlocal] at h
    split at h
    · omega
    · cases h

/-- `readWide` succeeds exactly on the bytes of a `wide` operand, and yields its `meaning`. -/
private theorem readWide_eq_ok :
    readWide c = .ok (o, c') ↔ ∃ x : Operand, x.form = .wide ∧
      o = x.meaning start ∧ c.Past (x.bytes c.pos) c' := by
  unfold readWide
  constructor
  · intro h
    obtain ⟨_, c₁, h₁, k₁⟩ := bind_eq_ok.1 h
    obtain ⟨b, rfl, hpast₁⟩ := u8_eq_ok.1 h₁
    rw [wideOperands?_eq] at k₁
    -- only some instructions can be widened
    cases hsize : widenedSize? b.toNat with
    | none => rw [hsize] at k₁; cases k₁
    | some n =>
      rw [hsize] at k₁
      obtain ⟨_, c₂, h₂, k₂⟩ := bind_eq_ok.1 k₁
      obtain ⟨bs, rfl, hpast₂⟩ := skip_eq_ok.1 h₂
      obtain ⟨rfl, rfl⟩ := pure_eq_ok.1 k₂
      refine ⟨.wide b.toNat bs hsize, rfl, rfl, ?_⟩
      show c.Past (UInt8.ofNat b.toNat :: bs) c'
      rw [UInt8.ofNat_toNat]
      exact hpast₁.trans hpast₂
  · rintro ⟨x, hform, rfl, hpast⟩
    cases x with
    | wide code bs fits =>
      obtain ⟨c₁, hpast₁, hpast₂⟩ := Cursor.past_cons.1 hpast
      -- the code fits a byte, so that writing and reading it gives it back
      have hcode : (UInt8.ofNat code).toNat = code :=
        Nat.mod_eq_of_lt (Nat.lt_trans (lt_of_widenedSize? fits) (by decide))
      refine bind_eq_ok.2 ⟨code, c₁, u8_eq_ok.2 ⟨_, hcode.symm, hpast₁⟩, ?_⟩
      rw [wideOperands?_eq, fits]
      exact bind_eq_ok.2 ⟨(), c', skip_eq_ok.2 ⟨bs, rfl, hpast₂⟩, pure_eq_ok.2 ⟨rfl, rfl⟩⟩
    | _ => cases hform

/-- `readOperands` succeeds exactly on the bytes of an `Operand` of the form, and yields its `meaning`. -/
theorem readOperands_eq_ok {form : Form} :
    readOperands start form c = .ok (o, c') ↔ ∃ x : Operand, x.form = form ∧
      o = x.meaning start ∧ c.Past (x.bytes c.pos) c' := by
  constructor
  · intro h
    -- one case for each form, where the reader takes its own steps
    cases form with
    | fixed n =>
      obtain ⟨_, c₁, h₁, k₁⟩ := bind_eq_ok.1 h
      obtain ⟨bs, rfl, hpast⟩ := skip_eq_ok.1 h₁
      obtain ⟨rfl, rfl⟩ := pure_eq_ok.1 k₁
      exact ⟨.plain bs, rfl, rfl, hpast⟩
    | constant8 =>
      obtain ⟨_, c₁, h₁, k₁⟩ := bind_eq_ok.1 h
      obtain ⟨i, rfl, hpast⟩ := u8_eq_ok.1 h₁
      obtain ⟨rfl, rfl⟩ := pure_eq_ok.1 k₁
      exact ⟨.constant8 i, rfl, rfl, hpast⟩
    | constant16 more =>
      obtain ⟨_, c₁, h₁, k₁⟩ := bind_eq_ok.1 h
      obtain ⟨i, rfl, hpast₁⟩ := u16_eq_ok.1 h₁
      obtain ⟨_, c₂, h₂, k₂⟩ := bind_eq_ok.1 k₁
      obtain ⟨bs, rfl, hpast₂⟩ := skip_eq_ok.1 h₂
      obtain ⟨rfl, rfl⟩ := pure_eq_ok.1 k₂
      exact ⟨.constant16 i bs, rfl, rfl, hpast₁.trans hpast₂⟩
    | branch16 =>
      obtain ⟨_, c₁, h₁, k₁⟩ := bind_eq_ok.1 h
      obtain ⟨d, rfl, hpast⟩ := i16_eq_ok.1 h₁
      obtain ⟨rfl, rfl⟩ := pure_eq_ok.1 k₁
      exact ⟨.branch16 d, rfl, rfl, hpast⟩
    | branch32 =>
      obtain ⟨_, c₁, h₁, k₁⟩ := bind_eq_ok.1 h
      obtain ⟨d, rfl, hpast⟩ := i32_eq_ok.1 h₁
      obtain ⟨rfl, rfl⟩ := pure_eq_ok.1 k₁
      exact ⟨.branch32 d, rfl, rfl, hpast⟩
    | tableSwitch => exact readTableSwitch_eq_ok.1 h
    | lookupSwitch => exact readLookupSwitch_eq_ok.1 h
    | wide => exact readWide_eq_ok.1 h
  · rintro ⟨x, rfl, rfl, hpast⟩
    -- and back, one case for each operand
    cases x with
    | plain bs =>
      exact bind_eq_ok.2 ⟨(), c', skip_eq_ok.2 ⟨bs, rfl, hpast⟩, pure_eq_ok.2 ⟨rfl, rfl⟩⟩
    | constant8 i =>
      exact bind_eq_ok.2 ⟨_, c', u8_eq_ok.2 ⟨i, rfl, hpast⟩, pure_eq_ok.2 ⟨rfl, rfl⟩⟩
    | constant16 i more =>
      obtain ⟨c₁, hpast₁, hpast₂⟩ := Cursor.past_append.1 hpast
      refine bind_eq_ok.2 ⟨_, c₁, u16_eq_ok.2 ⟨i, rfl, hpast₁⟩, ?_⟩
      exact bind_eq_ok.2 ⟨(), c', skip_eq_ok.2 ⟨more, rfl, hpast₂⟩, pure_eq_ok.2 ⟨rfl, rfl⟩⟩
    | branch16 d =>
      exact bind_eq_ok.2 ⟨_, c', i16_eq_ok.2 ⟨d, rfl, hpast⟩, pure_eq_ok.2 ⟨rfl, rfl⟩⟩
    | branch32 d =>
      exact bind_eq_ok.2 ⟨_, c', i32_eq_ok.2 ⟨d, rfl, hpast⟩, pure_eq_ok.2 ⟨rfl, rfl⟩⟩
    | tableSwitch => exact readTableSwitch_eq_ok.2 ⟨_, rfl, rfl, hpast⟩
    | lookupSwitch => exact readLookupSwitch_eq_ok.2 ⟨_, rfl, rfl, hpast⟩
    | wide => exact readWide_eq_ok.2 ⟨_, rfl, rfl, hpast⟩

end

/-! ### Instructions -/

/-- `Instruction.read` succeeds exactly on the bytes of a `Written` instruction at the position of the
    cursor. -/
theorem read_eq_ok {c c' : Cursor} {i : Instruction} :
    Instruction.read c = .ok (i, c') ↔
      ∃ x : Written, i = x.instruction c.pos ∧ c.Past (x.bytes c.pos) c' := by
  unfold Instruction.read
  constructor
  · intro h
    obtain ⟨_, _, hstart, k₁⟩ := bind_eq_ok.1 h
    obtain ⟨rfl, rfl⟩ := position_eq_ok.1 hstart
    obtain ⟨_, c₁, h₁, k₂⟩ := bind_eq_ok.1 k₁
    obtain ⟨b, rfl, hpast₁⟩ := u8_eq_ok.1 h₁
    rw [operation?_eq] at k₂
    -- the code tells the form of the operands, if it is the code of an instruction
    cases hform : formOf b.toNat with
    | none => rw [hform] at k₂; cases k₂
    | some form =>
      rw [hform] at k₂
      obtain ⟨_, c₂, h₂, k₃⟩ := bind_eq_ok.1 k₂
      obtain ⟨x, rfl, rfl, hpast₂⟩ := readOperands_eq_ok.1 h₂
      obtain ⟨_, _, hstop, k₄⟩ := bind_eq_ok.1 k₃
      obtain ⟨rfl, rfl⟩ := position_eq_ok.1 hstop
      obtain ⟨rfl, rfl⟩ := pure_eq_ok.1 k₄
      -- the code and its operands stand one behind the other
      have hpast := hpast₁.trans hpast₂
      rw [hpast₁.pos_eq, List.length_singleton] at hpast
      refine ⟨⟨b.toNat, x, hform⟩, ?_, ?_⟩
      · simp only [Written.instruction, Operand.meaning, Written.bytes, Instruction.mk.injEq, true_and,
          and_true]
        refine ⟨?_, ?_⟩
        · rw [hpast.pos_eq, List.length_append, List.length_singleton, List.length_cons]
          omega
        · exact Option.getD_map mnemonic b.toNat x.widened?
      · rw [Written.bytes, UInt8.ofNat_toNat]
        exact hpast
  · rintro ⟨x, rfl, hpast⟩
    obtain ⟨c₁, hpast₁, hpast₂⟩ := Cursor.past_cons.1 hpast
    have hcode : (UInt8.ofNat x.code).toNat = x.code :=
      Nat.mod_eq_of_lt (Nat.lt_trans (lt_of_formOf x.fits) (by decide))
    -- the operands start one byte behind the instruction
    have hstart : c₁.pos = c.pos + 1 := hpast₁.pos_eq
    rw [← hstart] at hpast₂
    refine bind_eq_ok.2 ⟨c.pos, c, position_eq_ok.2 ⟨rfl, rfl⟩, ?_⟩
    refine bind_eq_ok.2 ⟨x.code, c₁, u8_eq_ok.2 ⟨_, hcode.symm, hpast₁⟩, ?_⟩
    rw [operation?_eq, x.fits]
    refine bind_eq_ok.2 ⟨_, c', readOperands_eq_ok.2 ⟨x.operand, rfl, rfl, hpast₂⟩, ?_⟩
    refine bind_eq_ok.2 ⟨c'.pos, c', position_eq_ok.2 ⟨rfl, rfl⟩, pure_eq_ok.2 ⟨?_, rfl⟩⟩
    simp only [Written.instruction, Operand.meaning, Instruction.mk.injEq, true_and, and_true]
    refine ⟨?_, ?_⟩
    · rw [hpast.pos_eq]
      omega
    · exact (Option.getD_map mnemonic x.code x.operand.widened?).symm

theorem Written.bytes_ne_nil (x : Written) (pos : Nat) : x.bytes pos ≠ [] :=
  List.cons_ne_nil _ _

/-- Only the empty list is encoded without bytes. -/
private theorem encodeFrom_eq_nil {pos : Nat} {xs : List Written} : encodeFrom pos xs = [] ↔ xs = [] := by
  cases xs with
  | nil => simp [encodeFrom]
  | cons x xs => simp [encodeFrom, x.bytes_ne_nil pos]

/-- What `readInstructions` reads to the end is a list that is written from the position of the cursor on. -/
private theorem readInstructions_eq_ok {limit budget : Nat} {before is : List Instruction} {c : Cursor} :
    readInstructions limit before c budget = .ok is ↔ ∃ xs : List Written, xs.length ≤ budget ∧
      is = before.reverse ++ listingFrom c.pos xs ∧ c.rest = encodeFrom c.pos xs := by
  -- on the budget; what has been read and where the cursor stands change with it
  induction budget generalizing before c with
  | zero =>
    simp only [readInstructions]
    constructor
    · intro h
      split at h
      · rename_i hnil
        refine ⟨[], Nat.le_refl 0, ?_, hnil⟩
        rw [← Except.ok.inj h, listingFrom, List.append_nil]
      · cases h
    · rintro ⟨xs, hlength, rfl, hrest⟩
      obtain rfl := List.length_eq_zero_iff.1 (Nat.le_zero.1 hlength)
      rw [if_pos (show c.rest = [] from hrest), listingFrom, List.append_nil]
  | succ budget ih =>
    simp only [readInstructions]
    -- without bytes the list ends, whatever budget is left
    by_cases hnil : c.rest = []
    · rw [if_pos hnil]
      constructor
      · intro h
        refine ⟨[], Nat.zero_le _, ?_, hnil⟩
        rw [← Except.ok.inj h, listingFrom, List.append_nil]
      · rintro ⟨xs, -, rfl, hrest⟩
        obtain rfl := encodeFrom_eq_nil.1 (hrest.symm.trans hnil)
        rw [listingFrom, List.append_nil]
    · rw [if_neg hnil]
      constructor
      · intro h
        split at h
        · -- one instruction is read, and the rest from behind it
          rename_i i c₁ hread
          obtain ⟨x, rfl, hpast⟩ := read_eq_ok.1 hread
          obtain ⟨xs, hlength, rfl, hrest⟩ := ih.1 h
          rw [hpast.pos_eq] at hrest ⊢
          refine ⟨x :: xs, Nat.succ_le_succ hlength, by simp [listingFrom], ?_⟩
          rw [hpast.rest_eq, hrest, encodeFrom]
        · cases h
      · rintro ⟨xs, hlength, rfl, hrest⟩
        cases xs with
        | nil => exact absurd hrest hnil
        | cons x xs =>
          obtain ⟨c₁, hpast, hrest₁⟩ := Cursor.exists_past hrest
          rw [read_eq_ok.2 ⟨x, rfl, hpast⟩]
          refine ih.2 ⟨xs, Nat.le_of_succ_le_succ hlength, ?_, ?_⟩
          · simp [listingFrom, hpast.pos_eq]
          · rw [hrest₁, hpast.pos_eq]

/-- `strayJump?` finds nothing exactly if every jump leads to an offset of the list. -/
private theorem strayJump?_eq_none {is js : List Instruction} :
    strayJump? (setOf (is.map Instruction.offset)) js = none ↔
      ∀ i ∈ js, ∀ t ∈ i.targets, ∃ j ∈ is, j.offset = t := by
  induction js with
  | nil => simp [strayJump?]
  | cons i js ih =>
    simp only [strayJump?, List.forall_mem_cons, ← ih]
    split
    · -- the first instruction has a jump that leads nowhere, or else the others decide
      rename_i t hfind
      have hstray : ¬ ∃ j ∈ is, j.offset = t := by
        simpa [contains_setOf] using List.find?_some hfind
      constructor
      · intro h
        cases h
      · intro h
        exact absurd (h.1 t (List.mem_of_find?_eq_some hfind)) hstray
    · rename_i hnone
      have hall : ∀ t ∈ i.targets, ∃ j ∈ is, j.offset = t := by
        intro t ht
        simpa [contains_setOf] using List.find?_eq_none.1 hnone t ht
      exact ⟨fun h => ⟨hall, h⟩, And.right⟩

/-- `decode` accepts a code exactly if it is the encoding of a list of `Written` instructions, not longer than
    allowed, whose jumps lead to instructions. -/
theorem decode_eq_ok_iff {code : List UInt8} {limit : Nat} {is : List Instruction} :
    decode code limit = .ok is ↔ ∃ xs : List Written, code = encode xs ∧ is = listing xs ∧
      xs.length ≤ limit ∧ Closed is := by
  have hread : readInstructions limit [] (.ofBytes code) limit = .ok is ↔
      ∃ xs : List Written, xs.length ≤ limit ∧ is = listing xs ∧ code = encode xs :=
    readInstructions_eq_ok
  unfold decode
  constructor
  · intro h
    cases hr : readInstructions limit [] (.ofBytes code) limit with
    | error f => rw [hr] at h; cases h
    | ok js =>
      -- what is read is accepted unless a jump is stray
      rw [hr] at h hread
      simp only [bind, Except.bind] at h
      split at h
      · cases h
      · rename_i hjumps
        obtain rfl := Except.ok.inj h
        obtain ⟨xs, hlength, hlisting, hcode⟩ := hread.1 rfl
        exact ⟨xs, hcode, hlisting, hlength, strayJump?_eq_none.1 hjumps⟩
  · rintro ⟨xs, hcode, hlisting, hlength, hclosed⟩
    rw [hread.2 ⟨xs, hlength, hlisting, hcode⟩]
    simp only [bind, Except.bind]
    rw [strayJump?_eq_none.2 hclosed]

/-- There are operands of every `Form`. -/
private theorem exists_operand (form : Form) : ∃ x : Operand, x.form = form := by
  cases form with
  | fixed n => exact ⟨.plain (List.replicate n 0), by rw [Operand.form, List.length_replicate]⟩
  | constant8 => exact ⟨.constant8 0, rfl⟩
  | constant16 n => exact ⟨.constant16 0 (List.replicate n 0), by rw [Operand.form, List.length_replicate]⟩
  | branch16 => exact ⟨.branch16 0, rfl⟩
  | branch32 => exact ⟨.branch32 0, rfl⟩
  | tableSwitch =>
    -- the smallest table has one jump
    exact ⟨.tableSwitch (.replicate 3 0) 0 0 0 [0] (by decide) (by decide) (by decide), rfl⟩
  | lookupSwitch => exact ⟨.lookupSwitch (.replicate 3 0) 0 [] (by decide), rfl⟩
  | wide => exact ⟨.wide 0x15 [0, 0] (by decide), rfl⟩

/-- Exactly the codes below 202 can be `Written`. -/
private theorem exists_written_iff {code : Nat} : (∃ x : Written, x.code = code) ↔ code < 202 := by
  constructor
  · rintro ⟨x, rfl⟩
    exact lt_of_formOf x.fits
  · intro hcode
    have hform : formOf code = some operations[code].form := by
      rw [← form_operation?, operation?, Array.getElem?_eq_getElem hcode, Option.map_some]
    obtain ⟨x, hx⟩ := exists_operand operations[code].form
    exact ⟨⟨code, x, hx ▸ hform⟩, rfl⟩

/-- `decode` reads every list of instructions over the 202 operations back from its encoding, if its jumps lead
    to instructions and it is not longer than allowed. -/
theorem decode_encode :
    (∀ code, (∃ x : Written, x.code = code) ↔ code < 202) ∧
      ∀ (xs : List Written) (cap : Int), xs.length ≤ effectiveLimit cap → Closed (listing xs) →
        decode (encode xs) (effectiveLimit cap) = .ok (listing xs) := by
  refine ⟨fun _ => exists_written_iff, ?_⟩
  intro xs cap hlength hclosed
  exact decode_eq_ok_iff.2 ⟨xs, rfl, rfl, hlength, hclosed⟩

/-- Two switches at different alignments, with the outermost keys there are, a widened `ret` and a jump back. -/
def twoSwitches : List Written :=
  [⟨0x00, .plain [], rfl⟩,
   ⟨0xaa, .tableSwitch #v[0xff, 0xfe, 0xfd] 55 (-2147483648) (-2147483647) [23, 30] (by decide)
     (by decide) (by decide), rfl⟩,
   ⟨0xc4, .wide 0xa9 [0x01, 0x00] rfl, rfl⟩,
   ⟨0xa7, .branch16 (-28), rfl⟩,
   ⟨0xab, .lookupSwitch #v[0xff, 0xfe, 0xfd] (-31) [(-2147483648, -7), (2147483647, 0)] (by decide), rfl⟩,
   ⟨0xb1, .plain [], rfl⟩]

theorem closed_twoSwitches : Closed (listing twoSwitches) := by
  unfold Closed
  decide +kernel

/-- `decode_encode` on `twoSwitches`, with the targets that its six instructions have. -/
theorem decode_encode_twoSwitches :
    twoSwitches.length ≤ effectiveLimit 6 ∧ Closed (listing twoSwitches) ∧
      (listing twoSwitches).map Instruction.targets = [[], [56, 24, 31], [], [0], [0, 24, 31], []] ∧
      decode (encode twoSwitches) (effectiveLimit 6) = .ok (listing twoSwitches) :=
  ⟨by decide, closed_twoSwitches, by decide +kernel,
    decode_encode.2 twoSwitches 6 (by decide) closed_twoSwitches⟩

end CallAtlas.Bytecode
