import CallAtlas.ClassFile.Parse
import CallAtlas.Proofs.Bytes.Exact
import CallAtlas.Proofs.Result

/-!
# Class files cut short

Whether bytes are a class file is settled by the first of them: those that reading takes. What follows
does not matter, and if any of them is missing, the file is reported as truncated and as nothing else.

Every reader of the format is `Exact`: it is made of steps that are, and what it looks up on the way
depends on bytes that were read before.
-/

namespace CallAtlas.ClassFile

open Reader

/-- Readers of class files that need the bytes they take. -/
abbrev ReadsExactly {α : Type} (r : Reader Problem α) : Prop :=
  r.Exact fun p => p.isEndOfData = true

private theorem exact_u8 : ReadsExactly u8 :=
  exact_word (by rfl) 1

theorem exact_u16 : ReadsExactly u16 :=
  exact_word (by rfl) 2

theorem exact_u32 : ReadsExactly u32 :=
  exact_word (by rfl) 4

private theorem exact_u64 : ReadsExactly u64 :=
  exact_word (by rfl) 8

/-- `during` keeps a reader exact: a problem of a part that ends too early is a problem of that kind. -/
theorem exact_during {α : Type} (place : Place) {r : Reader Problem α} (hr : ReadsExactly r) :
    ReadsExactly (during place r) :=
  hr.mapCause fun _ h => h

/-- A lookup takes no bytes. -/
theorem exact_lookup {α : Type} (place : Place) (x : Except Problem α) :
    ReadsExactly (during place (ofExcept x)) :=
  exact_during place (exact_ofExcept _ x)

/-! ### Constants -/

/-- `Constant.read` needs the bytes it takes. -/
private theorem exact_constant (i : Nat) : ReadsExactly (Constant.read i) := by
  have hword : ∀ k : Nat → Constant, ReadsExactly (u16 >>= fun a => pure (k a)) :=
    fun k => exact_u16.bind fun a => exact_pure _ (k a)
  have hpair : ∀ k : Nat → Nat → Constant,
      ReadsExactly (u16 >>= fun a => u16 >>= fun b => pure (k a b)) :=
    fun k => exact_u16.bind fun a => hword (k a)
  unfold Constant.read
  apply (exact_position _).bind
  intro start
  apply exact_u8.bind
  intro tag
  -- one case for each tag, and one for all others
  split
  · -- a text: its length, its bytes, and then a check that takes none
    apply exact_u16.bind
    intro n
    apply (exact_bytes (by rfl) n).bind
    intro raw
    split
    · exact exact_pure _ _
    · exact exact_fail _ _
  · exact exact_u32.bind fun w => exact_pure _ _
  · exact exact_u32.bind fun w => exact_pure _ _
  · exact exact_u64.bind fun w => exact_pure _ _
  · exact exact_u64.bind fun w => exact_pure _ _
  · exact hword _
  · exact hword _
  · exact hpair _
  · exact hpair _
  · exact hpair _
  · exact hpair _
  · exact exact_u8.bind fun kind => hword _
  · exact hword _
  · exact hpair _
  · exact hpair _
  · exact hword _
  · exact hword _
  · exact exact_fail _ _

/-- With two indices or more to fill, the first constant decides how many `readFrom` has left. -/
theorem readFrom_add_two (before : Array Constant) (slots : Nat) :
    Pool.readFrom before (slots + 2) = Constant.read before.size >>= fun k =>
      if k.width = 2 then Pool.readFrom ((before.push k).push .unusable) slots
      else Pool.readFrom (before.push k) (slots + 1) := by
  funext c
  cases h : Constant.read before.size c with
  | error e => simp only [Pool.readFrom, h, bind_of_error h]
  | ok p =>
    simp only [Pool.readFrom, h, bind_of_ok h]
    split <;> rfl

/-- The last index of `readFrom` is filled by a constant of any width. -/
theorem readFrom_one (before : Array Constant) :
    Pool.readFrom before 1 = Constant.read before.size >>= fun k => pure (before.push k) := by
  funext c
  cases h : Constant.read before.size c with
  | error e => simp only [Pool.readFrom, h, bind_of_error h]
  | ok p =>
    simp only [Pool.readFrom, h, bind_of_ok h]
    rfl

/-- `Pool.readFrom` needs the bytes it takes. -/
private theorem exact_readFrom (before : Array Constant) (slots : Nat) :
    ReadsExactly (Pool.readFrom before slots) := by
  -- a constant fills one index or two
  induction slots using Nat.strongRecOn generalizing before with
  | ind slots ih =>
    rcases slots with _ | _ | slots
    · exact exact_pure _ before
    · rw [readFrom_one]
      exact (exact_constant _).bind fun k => exact_pure _ _
    · rw [readFrom_add_two]
      apply (exact_constant _).bind
      intro k
      split
      · exact ih slots (by omega) _
      · exact ih (slots + 1) (by omega) _

/-- `Pool.read` needs the bytes it takes. -/
private theorem exact_pool : ReadsExactly Pool.read := by
  unfold Pool.read
  apply exact_u16.bind
  intro count
  split
  · exact exact_pure _ _
  · exact (exact_readFrom _ _).bind fun _ => exact_pure _ _

/-! ### Members and attributes -/

/-- `Attribute.read` needs the bytes it takes. -/
private theorem exact_attribute (p : Pool) : ReadsExactly (Attribute.read p) := by
  unfold Attribute.read
  apply exact_u16.bind
  intro index
  apply exact_u32.bind
  intro length
  apply (exact_bytes (by rfl) length).bind
  intro body
  exact (exact_lookup .attributeName _).bind fun name => exact_pure _ _

/-- `skipField` needs the bytes it passes over. -/
private theorem exact_skipField : ReadsExactly skipField := by
  have hattribute : ReadsExactly Attribute.skip := by
    unfold Attribute.skip
    apply (exact_skip (by rfl) 2).bind
    intro _
    exact exact_u32.bind fun length => exact_skip (by rfl) length
  unfold skipField
  apply (exact_skip (by rfl) 6).bind
  intro _
  apply exact_u16.bind
  intro count
  exact (exact_times (fun _ => hattribute) count).bind fun _ => exact_pure _ _

/-- `Method.readCode` needs the bytes it takes. The code of a method lies inside an attribute, which is read in
    full before. -/
private theorem exact_readCode (p : Pool) (name descriptor : String) :
    ReadsExactly (Method.readCode p name descriptor) := by
  unfold Method.readCode
  apply (exact_attribute p).bind
  intro a
  split
  · exact (exact_during _ (exact_inside _ a.body _)).bind fun _ => exact_pure _ _
  · exact exact_pure _ _

/-- `Method.read` needs the bytes it takes. -/
private theorem exact_method (p : Pool) : ReadsExactly (Method.read p) := by
  unfold Method.read
  apply exact_u16.bind
  intro access
  apply exact_u16.bind
  intro nameIndex
  apply exact_u16.bind
  intro descriptorIndex
  -- both names are looked up in the pool, which takes no bytes
  apply (exact_ofExcept _ _).bind
  intro name
  apply (exact_ofExcept _ _).bind
  intro descriptor
  apply exact_u16.bind
  intro count
  exact (exact_times (fun _ => exact_readCode p name descriptor) count).bind fun _ => exact_pure _ _

/-- `ClassDetail.read` needs the bytes it takes. -/
private theorem exact_classDetail (p : Pool) : ReadsExactly (ClassDetail.read p) := by
  unfold ClassDetail.read
  apply (exact_attribute p).bind
  intro a
  split
  · -- the body was taken off in full before its name decides how to read it
    apply (exact_inside _ a.body _).bind
    intro index
    exact (exact_lookup .sourceFile _).bind fun _ => exact_pure _ _
  · split
    · exact (exact_during _ (exact_inside _ a.body _)).bind fun _ => exact_pure _ _
    · exact exact_pure _ _

/-! ### Classes -/

private theorem exact_magic : ReadsExactly readMagic := by
  unfold readMagic
  apply exact_u32.bind
  intro word
  split
  · exact exact_fail _ _
  · exact exact_pure _ _

private theorem exact_super (p : Pool) : ReadsExactly (readSuper p) := by
  unfold readSuper
  apply exact_u16.bind
  intro index
  split
  · exact exact_pure _ _
  · exact exact_lookup .superClass _

/-- `ClassFile.read` needs the bytes it takes. -/
private theorem exact_read (path : Text.RawText) : ReadsExactly (read path) := by
  unfold read
  apply exact_magic.bind
  intro _
  apply exact_u16.bind
  intro minor
  apply exact_u16.bind
  intro major
  apply exact_pool.bind
  intro pool
  apply exact_u16.bind
  intro access
  apply exact_u16.bind
  intro thisIndex
  -- lookups stand between the steps, but they depend on bytes that were read before
  apply (exact_lookup .thisClass _).bind
  intro name
  apply (exact_super pool).bind
  intro super
  apply exact_u16.bind
  intro interfaceCount
  have hinterface : ∀ i : Nat, ReadsExactly
      (u16 >>= fun index => during (.interface i) (ofExcept (pool.className index))) :=
    fun i => exact_u16.bind fun index => exact_lookup (.interface i) _
  apply (exact_times hinterface interfaceCount).bind
  intro interfaces
  apply exact_u16.bind
  intro fieldCount
  -- fields are passed over, which takes their bytes no less
  apply (exact_times (fun _ => exact_skipField) fieldCount).bind
  intro _
  apply exact_u16.bind
  intro methodCount
  apply (exact_times (fun i => exact_during (.method i) (exact_method pool)) methodCount).bind
  intro methods
  apply exact_u16.bind
  intro attributeCount
  exact (exact_times (fun _ => exact_classDetail pool) attributeCount).bind fun _ => exact_pure _ _

/-- What `ClassFile.read` accepts, `parse` accepts too if there is no limit. -/
private theorem parse_of_read_ok {path : Text.RawText} {data : List UInt8} {c : ClassFile} {cursor : Cursor}
    (h : read path (.ofBytes data) = .ok (c, cursor)) : parse path data 0 = .ok c := by
  rw [parse, if_neg (by omega), h]

/-- What `parse` accepts, `ClassFile.read` has accepted. -/
private theorem exists_read_of_parse {path : Text.RawText} {data : List UInt8} {c : ClassFile}
    (h : parse path data 0 = .ok c) : ∃ cursor, read path (.ofBytes data) = .ok (c, cursor) := by
  rw [parse, if_neg (by omega)] at h
  cases hread : read path (.ofBytes data) with
  | error e => rw [hread] at h; cases h
  | ok p =>
    rw [hread] at h
    obtain rfl := Except.ok.inj h
    exact ⟨p.2, rfl⟩

/-- `parse` reports bytes that run out as a truncated file. -/
private theorem parse_of_read_error {path : Text.RawText} {data : List UInt8} {e : Reader.Failure Problem}
    (h : read path (.ofBytes data) = .error e) (hshort : e.cause.isEndOfData = true) :
    parse path data 0 = .error ⟨e.position, .truncated e.cause⟩ := by
  rw [parse, if_neg (by omega), h]
  simp only [hshort, if_true]

/-- What `parse` accepts is made of its first `k` bytes, for some `k`. Cut anywhere behind them, or followed by
    anything, it is the same class. Cut before, it is reported as truncated. -/
theorem parse_prefix_exact {path : Text.RawText} {data : List UInt8} {c : ClassFile}
    (h : parse path data 0 = .ok c) :
    ∃ k ≤ data.length,
      (∀ n, k ≤ n → parse path (data.take n) 0 = .ok c) ∧
      (∀ more, parse path (data.take k ++ more) 0 = .ok c) ∧
      ∀ n < k, ∃ f, parse path (data.take n) 0 = .error f ∧
        (f.failure path).kind = .truncatedClass ∧
        (f.failure path).origin = some (path, (f.offset : Int)) := by
  obtain ⟨cursor, hread⟩ := exists_read_of_parse h
  -- `bs` is what reading has taken
  obtain ⟨bs, hpast, hreads, hneeds⟩ := exact_read path hread
  have hdata : data = bs ++ cursor.rest := hpast.rest_eq
  have hfollowed : ∀ more, parse path (bs ++ more) 0 = .ok c := by
    intro more
    obtain ⟨cursor', hread', -⟩ := hreads (c := .ofBytes (bs ++ more)) rfl rfl
    exact parse_of_read_ok hread'
  refine ⟨bs.length, ?_, ?_, ?_, ?_⟩
  · rw [hdata, List.length_append]
    omega
  · intro n hn
    rw [hdata, List.take_append, List.take_of_length_le hn]
    exact hfollowed _
  · intro more
    rw [hdata, List.take_left]
    exact hfollowed more
  · intro n hn
    have htake : data.take n = bs.take n := by
      rw [hdata, List.take_append_of_le_length (by omega)]
    -- byte `n` is the first one missing
    have hcut : bs = bs.take n ++ bs[n] :: bs.drop (n + 1) := by
      rw [← List.drop_eq_getElem_cons hn, List.take_append_drop]
    obtain ⟨e, herror, hshort⟩ := hneeds (c := .ofBytes (bs.take n)) rfl hcut
    rw [htake, parse_of_read_error herror hshort]
    exact ⟨_, rfl, rfl, rfl⟩

/-- A class with a long constant, a field, a method with code and the name of its source file, and one byte
    behind it. -/
def followedClass : List UInt8 :=
  [0xca, 0xfe, 0xba, 0xbe, 0x00, 0x00, 0x00, 0x34,
   -- constants
   0x00, 0x0a, 0x01, 0x00, 0x01, 0x41, 0x07, 0x00, 0x01, 0x01, 0x00, 0x01, 0x66, 0x01, 0x00, 0x03,
   0x28, 0x29, 0x56, 0x01, 0x00, 0x04, 0x43, 0x6f, 0x64, 0x65, 0x01, 0x00, 0x0a, 0x53, 0x6f, 0x75,
   0x72, 0x63, 0x65, 0x46, 0x69, 0x6c, 0x65, 0x01, 0x00, 0x06, 0x41, 0x2e, 0x6a, 0x61, 0x76, 0x61,
   0x05, 0x00, 0x00, 0x00, 0x00, 0x00, 0x00, 0x00, 0x2a,
   -- the class
   0x00, 0x21, 0x00, 0x02, 0x00, 0x00, 0x00, 0x00,
   -- the field
   0x00, 0x01, 0x00, 0x00, 0x00, 0x03, 0x00, 0x04, 0x00, 0x01, 0x00, 0x05, 0x00, 0x00, 0x00, 0x02,
   0x00, 0x08,
   -- the method
   0x00, 0x01, 0x00, 0x09, 0x00, 0x03, 0x00, 0x04, 0x00, 0x01, 0x00, 0x05, 0x00, 0x00, 0x00, 0x0d,
   0x00, 0x00, 0x00, 0x00, 0x00, 0x00, 0x00, 0x01, 0xb1, 0x00, 0x00, 0x00, 0x00,
   -- the source file
   0x00, 0x01, 0x00, 0x06, 0x00, 0x00, 0x00, 0x02, 0x00, 0x07,
   0xff]

/-- `parse_prefix_exact` on `followedClass`, whose last byte is not read. -/
theorem parse_prefix_exact_followedClass : ∃ c, parse "A.class" followedClass 0 = .ok c ∧
    c.sourceFile = "A.java" ∧ ∃ k ≤ followedClass.length,
      (∀ n, k ≤ n → parse "A.class" (followedClass.take n) 0 = .ok c) ∧
      (∀ more, parse "A.class" (followedClass.take k ++ more) 0 = .ok c) ∧
      ∀ n < k, ∃ f, parse "A.class" (followedClass.take n) 0 = .error f ∧
        (f.failure "A.class").kind = .truncatedClass ∧
        (f.failure "A.class").origin = some (("A.class" : Text.RawText), (f.offset : Int)) := by
  obtain ⟨c, hparse, hsource⟩ := Result.exists_ok_of_any (x := parse "A.class" followedClass 0)
    (p := fun c => c.sourceFile = "A.java") (by decide +kernel)
  exact ⟨c, hparse, of_decide_eq_true hsource, parse_prefix_exact hparse⟩

end CallAtlas.ClassFile
