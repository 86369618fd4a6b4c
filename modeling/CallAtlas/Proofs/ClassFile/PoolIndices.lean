import CallAtlas.Proofs.Bytes.Steps
import CallAtlas.Proofs.ClassFile.Truncation
import CallAtlas.Proofs.Text.Transcoding

/-!
# Constants at their indices

How the constants of a class are written (`ConstantImage`), and where reading puts them. A constant stands at
the number of indices that those before it take, plus one. Behind a long or double constant there is an
index that leads nowhere, and so are index zero and all from the size of the pool on: lookups there fail
with a problem of their own kind each.
-/

namespace CallAtlas.ClassFile

open Reader

/-! ### What is written -/

/-- A constant as it is written: one of seventeen tags, and words of the sizes that belong to it. -/
inductive ConstantImage where
  | utf8 (raw : List UInt8) (valid : Text.ModifiedUtf8.IsSequence raw) (few : raw.length < 65536)
  | integer (word : UInt32)
  | float (word : UInt32)
  | long (word : UInt64)
  | double (word : UInt64)
  | classInfo (name : UInt16)
  | string (text : UInt16)
  | fieldRef (owner nameAndType : UInt16)
  | methodRef (owner nameAndType : UInt16)
  | interfaceMethodRef (owner nameAndType : UInt16)
  | nameAndType (name descriptor : UInt16)
  | methodHandle (kind : UInt8) (reference : UInt16)
  | methodType (descriptor : UInt16)
  | dynamic (bootstrap nameAndType : UInt16)
  | invokeDynamic (bootstrap nameAndType : UInt16)
  | module (name : UInt16)
  | package (name : UInt16)

namespace ConstantImage

/-- Two words of sixteen bits. -/
def pairBytes (a b : UInt16) : List UInt8 :=
  bigEndianBytes 2 a.toNat ++ bigEndianBytes 2 b.toNat

def bytes : ConstantImage → List UInt8
  | .utf8 raw _ _ => 1 :: (bigEndianBytes 2 raw.length ++ raw)
  | .integer w => 3 :: bigEndianBytes 4 w.toNat
  | .float w => 4 :: bigEndianBytes 4 w.toNat
  | .long w => 5 :: bigEndianBytes 8 w.toNat
  | .double w => 6 :: bigEndianBytes 8 w.toNat
  | .classInfo n => 7 :: bigEndianBytes 2 n.toNat
  | .string t => 8 :: bigEndianBytes 2 t.toNat
  | .fieldRef o t => 9 :: pairBytes o t
  | .methodRef o t => 10 :: pairBytes o t
  | .interfaceMethodRef o t => 11 :: pairBytes o t
  | .nameAndType n d => 12 :: pairBytes n d
  | .methodHandle k r => 15 :: k :: bigEndianBytes 2 r.toNat
  | .methodType d => 16 :: bigEndianBytes 2 d.toNat
  | .dynamic b t => 17 :: pairBytes b t
  | .invokeDynamic b t => 18 :: pairBytes b t
  | .module n => 19 :: bigEndianBytes 2 n.toNat
  | .package n => 20 :: bigEndianBytes 2 n.toNat

/-- The constant that is written. -/
def constant : ConstantImage → Constant
  | .utf8 raw _ _ => .utf8 (String.ofList ((Text.ModifiedUtf8.decode? raw).getD []))
  | .integer w => .integer w.toNat
  | .float w => .float w.toNat
  | .long w => .long w.toNat
  | .double w => .double w.toNat
  | .classInfo n => .classInfo n.toNat
  | .string t => .string t.toNat
  | .fieldRef o t => .fieldRef o.toNat t.toNat
  | .methodRef o t => .methodRef o.toNat t.toNat
  | .interfaceMethodRef o t => .interfaceMethodRef o.toNat t.toNat
  | .nameAndType n d => .nameAndType n.toNat d.toNat
  | .methodHandle k r => .methodHandle k.toNat r.toNat
  | .methodType d => .methodType d.toNat
  | .dynamic b t => .dynamic b.toNat t.toNat
  | .invokeDynamic b t => .invokeDynamic b.toNat t.toNat
  | .module n => .module n.toNat
  | .package n => .package n.toNat

/-- How many indices a constant takes. -/
def width : ConstantImage → Nat
  | .long _ => 2
  | .double _ => 2
  | _ => 1

/-- What stands at the indices that a constant takes. -/
def cells (w : ConstantImage) : List Constant :=
  w.constant :: List.replicate (w.width - 1) .unusable

/-- A constant takes one index or two, in its image and as it is read. -/
theorem width_cases (w : ConstantImage) :
    (w.width = 1 ∧ w.constant.width = 1) ∨ (w.width = 2 ∧ w.constant.width = 2) := by
  cases w with
  | long _ => exact .inr ⟨rfl, rfl⟩
  | double _ => exact .inr ⟨rfl, rfl⟩
  | _ => exact .inl ⟨rfl, rfl⟩

/-- A constant fills as many `cells` as it takes indices. -/
private theorem length_cells (w : ConstantImage) : w.cells.length = w.width := by
  have := w.width_cases
  rw [cells, List.length_cons, List.length_replicate]
  omega

/-- The first of the `bytes` of a constant is its tag. -/
private theorem head?_bytes (w : ConstantImage) : w.bytes.head? = some (UInt8.ofNat w.constant.tag) := by
  cases w <;> rfl

/-- What `ModifiedUtf8.encode` writes is a sequence of characters. -/
private theorem isSequence_encode (cs : List Char) :
    Text.ModifiedUtf8.IsSequence (Text.ModifiedUtf8.encode cs) := by
  by_contra h
  have hnone := (Text.ModifiedUtf8.decode?_eq_none_iff _).2 h
  rw [Text.ModifiedUtf8.decode?_encode] at hnone
  cases hnone

/-- A text constant. -/
def ofText (cs : List Char) (few : (Text.ModifiedUtf8.encode cs).length < 65536) : ConstantImage :=
  .utf8 (Text.ModifiedUtf8.encode cs) (isSequence_encode cs) few

/-- `ofText` is the constant of its text, whatever characters it holds. -/
private theorem constant_ofText (cs : List Char) (few : (Text.ModifiedUtf8.encode cs).length < 65536) :
    (ofText cs few).constant = .utf8 (String.ofList cs) := by
  simp only [ofText, constant, Text.ModifiedUtf8.decode?_encode, Option.getD_some]

/-- A constant of each tag. -/
def everyTag : List ConstantImage :=
  [ofText ['A', Char.ofNat 0, '😀'] (by decide), .integer 1, .float 2, .long 3, .double 4, .classInfo 1,
   .string 1, .fieldRef 8 13, .methodRef 8 13, .interfaceMethodRef 8 13, .nameAndType 1 1,
   .methodHandle 6 11, .methodType 1, .dynamic 0 13, .invokeDynamic 0 13, .module 1, .package 1]

/-- Exactly seventeen tags have constants. -/
private theorem exists_tag_iff (t : Nat) : (∃ w : ConstantImage, w.constant.tag = t) ↔
    t ∈ [1, 3, 4, 5, 6, 7, 8, 9, 10, 11, 12, 15, 16, 17, 18, 19, 20] := by
  constructor
  · rintro ⟨w, rfl⟩
    cases w <;> simp [constant, Constant.tag]
  · intro ht
    -- `everyTag` shows a constant for each of them
    have htags : everyTag.map (fun w => w.constant.tag) =
      [1, 3, 4, 5, 6, 7, 8, 9, 10, 11, 12, 15, 16, 17, 18, 19, 20] := rfl
    rw [← htags] at ht
    obtain ⟨w, -, hw⟩ := List.mem_map.1 ht
    exact ⟨w, hw⟩

end ConstantImage

/-! ### Reading constants -/

/-- `u8` reads a byte. -/
theorem reads_byte (b : UInt8) : (u8 : Reader Problem Nat).Reads [b] b.toNat := by
  intro c rest hc
  obtain ⟨c', hpast, -⟩ := Cursor.exists_past hc
  exact ⟨c', u8_eq_ok.2 ⟨b, rfl, hpast⟩, hpast⟩

/-- `u16` reads a word of two bytes. -/
theorem reads_half (w : UInt16) : (u16 : Reader Problem Nat).Reads (bigEndianBytes 2 w.toNat) w.toNat :=
  reads_bigEndianBytes w.toNat_lt

/-- `u32` reads a word of four bytes. -/
private theorem reads_word32 (w : UInt32) :
    (u32 : Reader Problem Nat).Reads (bigEndianBytes 4 w.toNat) w.toNat :=
  reads_bigEndianBytes w.toNat_lt

/-- `u64` reads a word of eight bytes. -/
private theorem reads_word64 (w : UInt64) :
    (u64 : Reader Problem Nat).Reads (bigEndianBytes 8 w.toNat) w.toNat :=
  reads_bigEndianBytes w.toNat_lt

/-- Two words of two bytes are read one behind the other. -/
theorem reads_halves (a b : UInt16) (k : Nat → Nat → Constant) :
    (u16 >>= fun m => u16 >>= fun n => pure (k m n) : Reader Problem Constant).Reads
      (ConstantImage.pairBytes a b) (k a.toNat b.toNat) :=
  (reads_half a).bind ((reads_half b).map _)

/-- The bytes of a text are decoded behind their length, and a valid sequence is never refused. -/
private theorem reads_raw {raw : List UInt8} (valid : Text.ModifiedUtf8.IsSequence raw)
    (few : raw.length < 65536) (i start : Nat) :
    (u16 >>= fun n => Reader.bytes n >>= fun raw =>
      match Text.ModifiedUtf8.decode? raw with
      | some s => pure (Constant.utf8 (String.ofList s))
      | none => Reader.fail (.malformedText i start) : Reader Problem Constant).Reads
      (bigEndianBytes 2 raw.length ++ raw)
      (.utf8 (String.ofList ((Text.ModifiedUtf8.decode? raw).getD []))) := by
  refine (reads_bigEndianBytes few).bind ((reads_bytes raw).last ?_)
  cases hs : Text.ModifiedUtf8.decode? raw with
  | none => exact absurd valid ((Text.ModifiedUtf8.decode?_eq_none_iff raw).1 hs)
  | some s => exact reads_pure _

/-- `Constant.read` reads a constant from its image, whatever index it is to have. -/
theorem ConstantImage.reads_constant (w : ConstantImage) (i : Nat) :
    (Constant.read i).Reads w.bytes w.constant := by
  refine reads_position_bind fun start => ?_
  -- a tag, and behind it what the kind of constant holds
  cases w with
  | utf8 raw valid few => exact (reads_byte 1).bind (reads_raw valid few i start)
  | integer w => exact (reads_byte 3).bind ((reads_word32 w).map _)
  | float w => exact (reads_byte 4).bind ((reads_word32 w).map _)
  | long w => exact (reads_byte 5).bind ((reads_word64 w).map _)
  | double w => exact (reads_byte 6).bind ((reads_word64 w).map _)
  | classInfo n => exact (reads_byte 7).bind ((reads_half n).map _)
  | string t => exact (reads_byte 8).bind ((reads_half t).map _)
  | fieldRef o t => exact (reads_byte 9).bind (reads_halves o t .fieldRef)
  | methodRef o t => exact (reads_byte 10).bind (reads_halves o t .methodRef)
  | interfaceMethodRef o t => exact (reads_byte 11).bind (reads_halves o t .interfaceMethodRef)
  | nameAndType n d => exact (reads_byte 12).bind (reads_halves n d .nameAndType)
  | methodHandle k r => exact (reads_byte 15).bind ((reads_byte k).bind ((reads_half r).map _))
  | methodType d => exact (reads_byte 16).bind ((reads_half d).map _)
  | dynamic b t => exact (reads_byte 17).bind (reads_halves b t .dynamic)
  | invokeDynamic b t => exact (reads_byte 18).bind (reads_halves b t .invokeDynamic)
  | module n => exact (reads_byte 19).bind ((reads_half n).map _)
  | package n => exact (reads_byte 20).bind ((reads_half n).map _)

/-! ### Reading the pool -/

/-- How many indices some constants take. -/
def slots : List ConstantImage → Nat
  | [] => 0
  | w :: ws => w.width + slots ws

/-- The pool of some constants as it is written, behind one more than its last index. -/
def poolBytes (ws : List ConstantImage) : List UInt8 :=
  bigEndianBytes 2 (slots ws + 1) ++ ws.flatMap ConstantImage.bytes

/-- The pool of some constants. -/
def poolOfImages (ws : List ConstantImage) : Pool :=
  ⟨(.unusable :: ws.flatMap ConstantImage.cells).toArray⟩

/-- All `cells` together are as many as there are `slots`. -/
theorem length_flatMap_cells (ws : List ConstantImage) :
    (ws.flatMap ConstantImage.cells).length = slots ws := by
  induction ws with
  | nil => rfl
  | cons w ws ih => rw [List.flatMap_cons, List.length_append, w.length_cells, ih, slots]

/-- `Pool.readFrom` reads constants behind those before them: one that takes two indices leaves the second
    unusable, and the last one may be such a constant too. -/
private theorem reads_images (ws : List ConstantImage) (before : Array Constant) :
    (Pool.readFrom before (slots ws)).Reads (ws.flatMap ConstantImage.bytes)
      (before ++ (ws.flatMap ConstantImage.cells).toArray) := by
  -- on the constants that are left, for every pool so far
  induction ws generalizing before with
  | nil =>
    have hnil : before ++ (([] : List ConstantImage).flatMap ConstantImage.cells).toArray = before := by simp
    rw [hnil]
    exact reads_pure before
  | cons w ws ih =>
    have hw := w.reads_constant before.size
    rw [List.flatMap_cons, List.flatMap_cons, slots, ConstantImage.cells]
    -- `readFrom` counts indices and not constants, so the width decides which equation applies
    rcases w.width_cases with ⟨hone, hwidth⟩ | ⟨htwo, hwidth⟩
    · have hread := ih (before.push w.constant)
      have happend : before.push w.constant ++ (ws.flatMap ConstantImage.cells).toArray = before ++
          (w.constant :: List.replicate (w.width - 1) .unusable ++
            ws.flatMap ConstantImage.cells).toArray := by simp [hone]
      rw [← happend, hone, Nat.add_comm]
      -- the last index is filled by an equation of its own
      cases hslots : slots ws with
      | zero =>
        rw [readFrom_one]
        rw [hslots] at hread
        exact hw.bind hread
      | succ n =>
        rw [readFrom_add_two]
        rw [hslots] at hread
        refine hw.bind ?_
        rw [if_neg (by omega)]
        exact hread
    · have hread := ih ((before.push w.constant).push .unusable)
      have happend : (before.push w.constant).push .unusable ++ (ws.flatMap ConstantImage.cells).toArray =
          before ++ (w.constant :: List.replicate (w.width - 1) .unusable ++
            ws.flatMap ConstantImage.cells).toArray := by simp [htwo]
      rw [← happend, htwo, Nat.add_comm, readFrom_add_two]
      refine hw.bind ?_
      rw [if_pos hwidth]
      exact hread

/-- `Pool.read` reads the pool of some constants from their images. -/
theorem reads_poolOfImages {ws : List ConstantImage} (h : slots ws < 65535) :
    Pool.read.Reads (poolBytes ws) (poolOfImages ws) := by
  have hcount : (u16 : Reader Problem Nat).Reads (bigEndianBytes 2 (slots ws + 1)) (slots ws + 1) :=
    reads_bigEndianBytes (show slots ws + 1 < 65536 by omega)
  have hread := reads_images ws #[.unusable]
  have happend : #[Constant.unusable] ++ (ws.flatMap ConstantImage.cells).toArray =
      (.unusable :: ws.flatMap ConstantImage.cells).toArray := by simp
  rw [happend] at hread
  exact hcount.bind (hread.map Pool.mk)

/-! ### Indices -/

/-- The pool has one index more than there are `slots`, since it starts with index zero. -/
private theorem size_poolOfImages (ws : List ConstantImage) : (poolOfImages ws).size = slots ws + 1 := by
  simp only [poolOfImages, Pool.size, List.size_toArray, List.length_cons, length_flatMap_cells]

/-- The indices of a constant are those behind the indices of the constants before it. -/
private theorem getElem?_poolOfImages (before after : List ConstantImage) {w : ConstantImage} {k : Nat}
    (hk : k < w.width) :
    (poolOfImages (before ++ w :: after)).entries[slots before + 1 + k]? = w.cells[k]? := by
  have hindex : slots before + 1 + k = slots before + k + 1 := by omega
  rw [poolOfImages, List.getElem?_toArray, hindex, List.getElem?_cons_succ, List.flatMap_append,
    List.flatMap_cons, List.getElem?_append_right (by rw [length_flatMap_cells]; omega),
    length_flatMap_cells, Nat.add_sub_cancel_left,
    List.getElem?_append_left (by rw [w.length_cells]; exact hk)]

namespace Pool

/-- Every lookup of an index fails with a problem. -/
structure Refuses (p : Pool) (i : Nat) (problem : Problem) : Prop where
  text : p.text i = .error problem
  className : p.className i = .error problem
  nameAndType : p.nameAndType i = .error problem
  methodRef : p.methodRef i = .error problem
  memberRef : p.memberRef i = .error problem
  methodHandle : p.methodHandle i = .error problem
  invokeDynamic : p.invokeDynamic i = .error problem

variable {p : Pool} {i : Nat}

/-- All lookups look at the constant first, and none takes one without a tag. -/
private theorem refuses_of_get {problem : Problem}
    (h : p.get i = .error problem ∨ p.get i = .ok .unusable ∧ problem = .poolTag i 0) :
    p.Refuses i problem := by
  rcases h with h | ⟨h, rfl⟩
  all_goals
    refine ⟨?_, ?_, ?_, ?_, ?_, ?_, ?_⟩ <;>
    simp only [Pool.text, Pool.className, Pool.nameAndType, Pool.methodRef, Pool.memberRef,
      Pool.methodHandle, Pool.invokeDynamic, h] <;> rfl

/-- At index zero and from the size on, `get` fails for the index itself. -/
private theorem get_of_outside (h : i = 0 ∨ p.size ≤ i) : p.get i = .error (.poolIndex i) := by
  unfold Pool.get
  split
  · rfl
  · next hzero =>
    rw [Array.getElem?_eq_none (h.resolve_left hzero)]
    rfl

/-- At any other index `get` gives what stands there. -/
private theorem get_of_getElem? {c : Constant} (hi : i ≠ 0) (h : p.entries[i]? = some c) : p.get i = .ok c := by
  rw [Pool.get, if_neg hi, h]
  rfl

end Pool

/-- The constants of any pool, over all seventeen tags, are read from their images and nothing else is, and each
    of them is at its index. Outside the pool and behind long and double constants the pool `Refuses` every
    lookup. -/
theorem constants_at_indices :
    (∀ t, (∃ w : ConstantImage, w.constant.tag = t) ↔
      t ∈ [1, 3, 4, 5, 6, 7, 8, 9, 10, 11, 12, 15, 16, 17, 18, 19, 20]) ∧
    (∀ w : ConstantImage, w.bytes.head? = some (UInt8.ofNat w.constant.tag)) ∧
    (∀ cs few, (ConstantImage.ofText cs few).constant = .utf8 (String.ofList cs)) ∧
    ∀ ws : List ConstantImage, slots ws < 65535 →
      ∃ pool, Pool.read.Reads (poolBytes ws) pool ∧ pool.size = slots ws + 1 ∧
        pool.entries[0]? = some .unusable ∧
        (∀ i, i = 0 ∨ pool.size ≤ i → pool.Refuses i (.poolIndex i)) ∧
        ∀ before w after, ws = before ++ w :: after →
          pool.entries[slots before + 1]? = some w.constant ∧
          (w.width = 2 → pool.entries[slots before + 2]? = some .unusable ∧
            pool.Refuses (slots before + 2) (.poolTag (slots before + 2) 0)) := by
  refine ⟨ConstantImage.exists_tag_iff, ConstantImage.head?_bytes, ConstantImage.constant_ofText, ?_⟩
  intro ws hws
  refine ⟨poolOfImages ws, reads_poolOfImages hws, size_poolOfImages ws, rfl, ?_, ?_⟩
  · intro i hi
    exact Pool.refuses_of_get (.inl (Pool.get_of_outside hi))
  · rintro before w after rfl
    -- every constant has a first index, and only a wide one has a second
    have hpos : 0 < w.width := by
      have := w.width_cases
      omega
    refine ⟨getElem?_poolOfImages before after hpos, fun hwide => ?_⟩
    have hsecond : (poolOfImages (before ++ w :: after)).entries[slots before + 2]? = some .unusable := by
      have hcell := getElem?_poolOfImages before after (show 1 < w.width by omega)
      rw [ConstantImage.cells, hwide] at hcell
      exact hcell
    exact ⟨hsecond, Pool.refuses_of_get (.inr ⟨Pool.get_of_getElem? (by omega) hsecond, rfl⟩)⟩

/-- `constants_at_indices` on a pool with a constant of each tag and a wide one at its end. -/
theorem constants_at_indices_everyTag : slots (ConstantImage.everyTag ++ [.double 5]) = 21 ∧
    ∃ pool, Pool.read.Reads (poolBytes (ConstantImage.everyTag ++ [.double 5])) pool ∧ pool.size = 22 ∧
      pool.entries[20]? = some (.double 5) ∧ pool.entries[21]? = some .unusable ∧
      pool.Refuses 21 (.poolTag 21 0) ∧ pool.Refuses 22 (.poolIndex 22) := by
  have hslots : slots (ConstantImage.everyTag ++ [.double 5]) = 21 := rfl
  obtain ⟨-, -, -, hpools⟩ := constants_at_indices
  obtain ⟨pool, hreads, hsize, -, houtside, hat⟩ :=
    hpools (ConstantImage.everyTag ++ [.double 5]) (by rw [hslots]; decide)
  obtain ⟨hlast, hwide⟩ := hat ConstantImage.everyTag (.double 5) [] rfl
  obtain ⟨hunusable, hrefused⟩ := hwide rfl
  exact ⟨hslots, pool, hreads, hsize, hlast, hunusable, hrefused, houtside 22 (.inr (Nat.le_of_eq hsize))⟩

end CallAtlas.ClassFile
