import CallAtlas.ClassFile.Assembler
import CallAtlas.Proofs.Bytes.Reading
import CallAtlas.Proofs.Text.ModifiedUtf8

/-!
# Reading what was written: words, constants, pools

Words, constants and pools are read back from the bytes that the assembler writes for them, as long as
their numbers fit into their bits and their texts have the same bytes in UTF-8 and in modified UTF-8.
-/

namespace CallAtlas.ClassFile

open Reader

/-- A text that is written as it is read: of the basic plane, without zero, and of a length that fits into
    sixteen bits. -/
def isWritable (s : String) : Bool :=
  s.toList.all Text.ModifiedUtf8.isBasic && decide (Text.byteSize s.toList < 65536)

namespace Assembler

/-! ### Words -/

@[simp]
theorem length_word16 (n : Nat) : (word16 n).length = 2 :=
  rfl

@[simp]
theorem length_word32 (n : Nat) : (word32 n).length = 4 :=
  rfl

/-- A number of sixteen bits is read back from `word16`. -/
theorem bigEndian_word16 {n : Nat} (h : n < 65536) : Cursor.bigEndian (word16 n) = n := by
  have hhigh : (UInt8.ofNat (n / 256)).toNat = n / 256 := Nat.mod_eq_of_lt (by omega)
  have hlow : (UInt8.ofNat n).toNat = n % 256 := rfl
  simp only [Cursor.bigEndian, word16, List.foldl_cons, List.foldl_nil, hhigh, hlow]
  omega

/-- A number of thirty-two bits is read back from `word32`. -/
private theorem bigEndian_word32 {n : Nat} (h : n < 4294967296) : Cursor.bigEndian (word32 n) = n := by
  have hhigh := bigEndian_word16 (show n / 65536 < 65536 by omega)
  -- the lower half is added behind whatever the upper half has given
  have hlow : ∀ v, (word16 n).foldl (fun v b => v * 256 + b.toNat) v = v * 65536 + n % 65536 := by
    intro v
    have hfirst : (UInt8.ofNat (n / 256)).toNat = n / 256 % 256 := rfl
    have hsecond : (UInt8.ofNat n).toNat = n % 256 := rfl
    simp only [word16, List.foldl_cons, List.foldl_nil, hfirst, hsecond]
    omega
  rw [Cursor.bigEndian] at hhigh ⊢
  rw [word32, List.foldl_append, hhigh, hlow]
  omega

/-- `u8` reads a byte back. -/
theorem reads_u8 (b : UInt8) : (u8 : Reader Problem Nat).Reads [b] b.toNat := by
  have h : (u8 : Reader Problem Nat).Reads [b] (Cursor.bigEndian [b]) := reads_word [b]
  simpa only [Cursor.bigEndian, List.foldl_cons, List.foldl_nil, Nat.zero_mul, Nat.zero_add] using h

/-- `u16` reads back what `word16` writes. -/
theorem reads_u16 {n : Nat} (h : n < 65536) : (u16 : Reader Problem Nat).Reads (word16 n) n := by
  have hword : (u16 : Reader Problem Nat).Reads (word16 n) (Cursor.bigEndian (word16 n)) :=
    reads_word (word16 n)
  rwa [bigEndian_word16 h] at hword

/-- `u32` reads back what `word32` writes. -/
theorem reads_u32 {n : Nat} (h : n < 4294967296) :
    (u32 : Reader Problem Nat).Reads (word32 n) n := by
  have hword : (u32 : Reader Problem Nat).Reads (word32 n) (Cursor.bigEndian (word32 n)) :=
    reads_word (word32 n)
  rwa [bigEndian_word32 h] at hword

/-! ### Counted lists -/

section
variable {α β : Type} {r : Nat → Reader Problem α} {f : β → List UInt8} {xs : List β} {as : List α}

/-- A `counted` list is read back item by item. -/
theorem reads_counted (hlength : xs.length < 65536)
    (h : List.Forall₂ (fun x a => ∀ i, (r i).Reads (f x) a) xs as) :
    (u16 >>= fun count => times count r).Reads (counted f xs) as :=
  (reads_u16 hlength).bind (reads_times h)

/-- A `counted` list that is not the last thing to be read. -/
theorem reads_counted_bind {γ : Type} {k : List α → Reader Problem γ} {bs : List UInt8} {b : γ}
    (hlength : xs.length < 65536) (h : List.Forall₂ (fun x a => ∀ i, (r i).Reads (f x) a) xs as)
    (hk : (k as).Reads bs b) :
    (u16 >>= fun count => times count r >>= k).Reads (counted f xs ++ bs) b := by
  rw [← bind_assoc]
  exact (reads_counted hlength h).bind hk

/-- A `counted` list of items of at most `k` bytes takes two bytes and `k` for each. -/
theorem length_counted_le {k : Nat} (hk : ∀ x ∈ xs, (f x).length ≤ k) :
    (counted f xs).length ≤ 2 + k * xs.length := by
  rw [counted, List.length_append]
  -- the number takes two bytes, whatever it counts
  refine Nat.add_le_add_left ?_ 2
  induction xs with
  | nil => exact Nat.le_refl _
  | cons x xs ih =>
    have hx := hk x List.mem_cons_self
    have hxs := ih fun y hy => hk y (List.mem_cons_of_mem x hy)
    rw [List.flatMap_cons, List.length_append, List.length_cons, Nat.mul_succ]
    omega

end

/-! ### Constants -/

end Assembler

/-- A constant that the assembler writes, with indices up to the number of constants and numbers below that of
    bootstrap methods. -/
def Constant.Fits (constants bootstraps : Nat) : Constant → Prop
  | .utf8 s => isWritable s
  | .classInfo n => n ≤ constants
  | .methodRef o t => o ≤ constants ∧ t ≤ constants
  | .interfaceMethodRef o t => o ≤ constants ∧ t ≤ constants
  | .nameAndType n d => n ≤ constants ∧ d ≤ constants
  | .methodHandle k r => k < 256 ∧ r ≤ constants
  | .methodType d => d ≤ constants
  | .invokeDynamic b t => b < bootstraps ∧ t ≤ constants
  | _ => False

/-- A constant that `Fits` still does when there are more constants and bootstrap methods. -/
theorem Constant.Fits.mono {m n a b : Nat} {c : Constant} (hmn : m ≤ n) (hab : a ≤ b)
    (h : c.Fits m a) : c.Fits n b := by
  cases c <;> simp only [Fits] at h ⊢ <;> omega

namespace Assembler

/-- A writable text is read back behind its length. -/
private theorem reads_text {s : String} (hs : isWritable s) (i start : Nat) :
    (u16 >>= fun n => Reader.bytes n >>= fun raw =>
      match Text.ModifiedUtf8.decode? raw with
      | some s => pure (Constant.utf8 (String.ofList s))
      | none => Reader.fail (.malformedText i start) : Reader Problem Constant).Reads
      (word16 (Text.toBytes s).length ++ Text.toBytes s) (.utf8 s) := by
  simp only [isWritable, Bool.and_eq_true, List.all_eq_true, decide_eq_true_eq] at hs
  refine (reads_u16 (by rw [Text.length_toBytes]; exact hs.2)).bind ?_
  have hbytes : (Reader.bytes (Text.toBytes s).length : Reader Problem (List UInt8)).Reads
    (Text.toBytes s) (Text.toBytes s) := reads_bytes (Text.toBytes s)
  refine hbytes.last ?_
  simp only [Text.ModifiedUtf8.decode?_toBytes hs.1, String.ofList_toList]
  exact reads_pure _

/-- Two words are read back one behind the other. -/
theorem reads_pair {m n : Nat} (hm : m < 65536) (hn : n < 65536) (k : Nat → Nat → Constant) :
    (u16 >>= fun a => u16 >>= fun b => pure (k a b) : Reader Problem Constant).Reads
      (word16 m ++ word16 n) (k m n) :=
  (reads_u16 hm).bind ((reads_u16 hn).map _)

/-- A constant that `Fits` is read back from `encodeConstant`. -/
theorem reads_constant {constants bootstraps : Nat} (hconstants : constants < 65536)
    (hbootstraps : bootstraps < 65536) {c : Constant} (hc : c.Fits constants bootstraps) (i : Nat) :
    (Constant.read i).Reads (encodeConstant c) c := by
  refine reads_position_bind fun start => ?_
  -- indices are numbers of sixteen bits, since there are not more constants
  have hlt : ∀ {n}, n ≤ constants → n < 65536 := fun hn => Nat.lt_of_le_of_lt hn hconstants
  cases c with
  | utf8 s => exact (reads_u8 1).bind (reads_text hc i start)
  | classInfo n => exact (reads_u8 7).bind ((reads_u16 (hlt hc)).map _)
  | methodRef o t => exact (reads_u8 10).bind (reads_pair (hlt hc.1) (hlt hc.2) .methodRef)
  | interfaceMethodRef o t =>
    exact (reads_u8 11).bind (reads_pair (hlt hc.1) (hlt hc.2) .interfaceMethodRef)
  | nameAndType n d => exact (reads_u8 12).bind (reads_pair (hlt hc.1) (hlt hc.2) .nameAndType)
  | methodHandle k r =>
    -- the kind of a handle is a single byte
    have hk : (UInt8.ofNat k).toNat = k := Nat.mod_eq_of_lt hc.1
    have hkind := reads_u8 (UInt8.ofNat k)
    rw [hk] at hkind
    exact (reads_u8 15).bind (hkind.bind ((reads_u16 (hlt hc.2)).map _))
  | methodType d => exact (reads_u8 16).bind ((reads_u16 (hlt hc)).map _)
  | invokeDynamic b t =>
    exact (reads_u8 18).bind
      (reads_pair (Nat.lt_trans hc.1 hbootstraps) (hlt hc.2) .invokeDynamic)
  | _ => exact hc.elim

/-! ### The pool -/

/-- The constants that the assembler writes take one index each. -/
private theorem width_of_fits {constants bootstraps : Nat} {c : Constant} (hc : c.Fits constants bootstraps) :
    c.width = 1 := by
  cases c with
  | long n => exact hc.elim
  | double n => exact hc.elim
  | _ => rfl

/-- `Pool.readFrom` reads constants of one index each back behind those read before. -/
private theorem reads_readFrom {constants bootstraps : Nat} (hconstants : constants < 65536)
    (hbootstraps : bootstraps < 65536) {cs : List Constant}
    (hcs : ∀ c ∈ cs, c.Fits constants bootstraps) (before : Array Constant) :
    (Pool.readFrom before cs.length).Reads (cs.flatMap encodeConstant) (before ++ cs.toArray) := by
  -- on the constants that are left; the index of the next is how many stand before it
  induction cs generalizing before with
  | nil =>
    intro c rest _
    exact ⟨c, by simp [Pool.readFrom], Cursor.Past.refl c⟩
  | cons k cs ih =>
    intro c rest hc
    rw [List.flatMap_cons, List.append_assoc] at hc
    have hk := hcs k List.mem_cons_self
    obtain ⟨c₁, h₁, hpast₁⟩ := reads_constant hconstants hbootstraps hk before.size hc
    have hc₁ : c₁.rest = cs.flatMap encodeConstant ++ rest :=
      List.append_cancel_left (hpast₁.rest_eq.symm.trans hc)
    obtain ⟨c₂, h₂, hpast₂⟩ := ih (fun d hd => hcs d (List.mem_cons_of_mem k hd)) (before.push k) hc₁
    refine ⟨c₂, ?_, by rw [List.flatMap_cons]; exact hpast₁.trans hpast₂⟩
    have happend : before.push k ++ cs.toArray = before ++ (k :: cs).toArray := by simp
    rw [← happend]
    -- the last constant is read by an equation of its own
    cases cs with
    | nil =>
      simp only [List.length_nil, Pool.readFrom] at h₂
      simp only [List.length_cons, List.length_nil, Pool.readFrom, h₁]
      exact h₂
    | cons d cs =>
      have hwidth : ¬ k.width = 2 := by rw [width_of_fits hk]; decide
      simp only [List.length_cons, Pool.readFrom, h₁, if_neg hwidth]
      exact h₂

/-- The pool of some constants. -/
def poolOf (cs : List Constant) : Pool :=
  ⟨(.unusable :: cs).toArray⟩

/-- `Pool.read` reads the constants of an assembler back as a pool. -/
theorem reads_pool {bootstraps : Nat} {p : Constants} (hlength : p.entries.length + 1 < 65536)
    (hbootstraps : bootstraps < 65536)
    (hp : ∀ e ∈ p.entries, e.2.Fits p.entries.length bootstraps) :
    Pool.read.Reads p.encode (poolOf (p.entries.map Prod.snd)) := by
  have hcs : ∀ c ∈ p.entries.map Prod.snd, c.Fits p.entries.length bootstraps := by
    intro c hc
    obtain ⟨e, he, rfl⟩ := List.mem_map.1 hc
    exact hp e he
  -- constants are read one by one behind the place that is not used
  have hread := reads_readFrom (by omega) hbootstraps hcs #[.unusable]
  have happend : #[.unusable] ++ (p.entries.map Prod.snd).toArray =
      (.unusable :: p.entries.map Prod.snd).toArray := by simp
  rw [List.length_map, List.flatMap_map, happend] at hread
  exact (reads_u16 hlength).bind (hread.map Pool.mk)

end Assembler
end CallAtlas.ClassFile
