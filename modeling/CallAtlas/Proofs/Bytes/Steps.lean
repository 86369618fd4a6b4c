import Mathlib.Algebra.GroupWithZero.Nat
import Mathlib.Data.List.Induction
import CallAtlas.Proofs.Bytes.Reading

/-!
# Steps and the bytes they stand for

Each step of a reader succeeds exactly when certain bytes lie between the cursors. The lemmas here say
so both ways, as `r c = .ok (v, c') ↔ ∃ x, v = … x ∧ c.Past (bytes of x) c'`, with `x` of the type that
has as many values as there are bytes to read. Through `bind_eq_ok` they give the same for a reader
that is made of steps.
-/

namespace CallAtlas

/-- The `k` low bytes of a number, the most significant first. -/
def bigEndianBytes : Nat → Nat → List UInt8
  | 0, _ => []
  | k + 1, v => bigEndianBytes k (v / 256) ++ [UInt8.ofNat v]

/-- A signed number of two bytes. -/
def int16Bytes (d : Int16) : List UInt8 :=
  bigEndianBytes 2 d.toUInt16.toNat

/-- A signed number of four bytes. -/
def int32Bytes (d : Int32) : List UInt8 :=
  bigEndianBytes 4 d.toUInt32.toNat

/-- `bigEndianBytes` gives as many bytes as it is asked for. -/
@[simp]
theorem length_bigEndianBytes (k v : Nat) : (bigEndianBytes k v).length = k := by
  induction k generalizing v with
  | zero => rfl
  | succ k ih => simp [bigEndianBytes, ih]

@[simp]
theorem length_int32Bytes (d : Int32) : (int32Bytes d).length = 4 :=
  length_bigEndianBytes 4 _

namespace Cursor

/-- One byte more makes `bigEndian` 256 times as large and adds the byte. -/
theorem bigEndian_append_singleton (bs : List UInt8) (b : UInt8) :
    bigEndian (bs ++ [b]) = bigEndian bs * 256 + b.toNat := by
  simp [bigEndian]

/-- `bigEndian` of `k` bytes is below `256 ^ k`. -/
theorem bigEndian_lt (bs : List UInt8) : bigEndian bs < 256 ^ bs.length := by
  induction bs using List.reverseRecOn with
  | nil => decide
  | append_singleton bs b ih =>
    have hb := b.toNat_lt
    rw [bigEndian_append_singleton, List.length_append, List.length_singleton, Nat.pow_succ]
    omega

/-- `bigEndian` reads a number back from `bigEndianBytes`. -/
private theorem bigEndian_bigEndianBytes {k v : Nat} (h : v < 256 ^ k) :
    bigEndian (bigEndianBytes k v) = v := by
  induction k generalizing v with
  | zero =>
    have : v = 0 := by simpa using h
    rw [this]
    rfl
  | succ k ih =>
    rw [Nat.pow_succ] at h
    -- the last byte is the remainder, and those in front are the quotient
    have hlow : (UInt8.ofNat v).toNat = v % 256 := rfl
    rw [bigEndianBytes, bigEndian_append_singleton, ih (by omega), hlow]
    omega

/-- Bytes are the `bigEndianBytes` of the number that they stand for. -/
private theorem bigEndianBytes_bigEndian (bs : List UInt8) : bigEndianBytes bs.length (bigEndian bs) = bs := by
  induction bs using List.reverseRecOn with
  | nil => rfl
  | append_singleton bs b ih =>
    have hb := b.toNat_lt
    -- the last byte is the remainder, and the bytes before it the quotient
    have hhigh : (bigEndian bs * 256 + b.toNat) / 256 = bigEndian bs := by omega
    have hlow : UInt8.ofNat (bigEndian bs * 256 + b.toNat) = b := by
      apply UInt8.toNat_inj.1
      rw [UInt8.toNat_ofNat']
      omega
    rw [List.length_append, List.length_singleton, bigEndian_append_singleton, bigEndianBytes, hhigh,
      ih, hlow]

/-- `signed` gives a word of two bytes the value of the `Int16` with these bits. -/
private theorem signed_int16 (d : Int16) : signed 16 d.toUInt16.toNat = d.toInt := by
  -- both sides subtract a whole turn from the upper half, at bounds that are written differently
  show (if d.toUInt16.toNat < 32768 then (d.toUInt16.toNat : Int) else d.toUInt16.toNat - 65536) =
    d.toBitVec.toInt
  rw [BitVec.toInt_eq_toNat_cond]
  show _ = if 2 * d.toUInt16.toNat < 65536 then (d.toUInt16.toNat : Int) else d.toUInt16.toNat - 65536
  split <;> split <;> omega

/-- `signed` gives a word of four bytes the value of the `Int32` with these bits. -/
theorem signed_int32 (d : Int32) : signed 32 d.toUInt32.toNat = d.toInt := by
  show (if d.toUInt32.toNat < 2147483648 then (d.toUInt32.toNat : Int)
    else d.toUInt32.toNat - 4294967296) = d.toBitVec.toInt
  rw [BitVec.toInt_eq_toNat_cond]
  show _ = if 2 * d.toUInt32.toNat < 4294967296 then (d.toUInt32.toNat : Int)
    else d.toUInt32.toNat - 4294967296
  split <;> split <;> omega

/-! ### What lies between cursors -/

/-- The bytes passed determine where a cursor stands. -/
theorem Past.eq {c c₁ c₂ : Cursor} {bs : List UInt8} (h₁ : c.Past bs c₁) (h₂ : c.Past bs c₂) :
    c₁ = c₂ := by
  have hpassed : c₁.passed = c₂.passed := h₁.passed_eq.trans h₂.passed_eq.symm
  have hrest : c₁.rest = c₂.rest := List.append_cancel_left (h₁.rest_eq.symm.trans h₂.rest_eq)
  have hpos : c₁.pos = c₂.pos := by rw [c₁.pos_eq, c₂.pos_eq, hpassed]
  obtain ⟨_, _, _, _⟩ := c₁
  obtain ⟨_, _, _, _⟩ := c₂
  simp only at hpassed hrest hpos
  subst hpassed hrest hpos
  rfl

/-- Passing no bytes is staying. -/
private theorem past_nil {c c' : Cursor} : c.Past [] c' ↔ c' = c :=
  ⟨fun h => h.eq (Past.refl c), fun h => h ▸ Past.refl c⟩

/-- A cursor can pass the bytes ahead of it. -/
theorem exists_past {c : Cursor} {bs rest : List UInt8} (h : c.rest = bs ++ rest) :
    ∃ c', c.Past bs c' ∧ c'.rest = rest := by
  obtain ⟨c', -, hpast⟩ := forward?_of_rest h
  exact ⟨c', hpast, List.append_cancel_left (hpast.rest_eq.symm.trans h)⟩

/-- Passing two stretches is passing one and then the other. -/
theorem past_append {c c'' : Cursor} {as bs : List UInt8} :
    c.Past (as ++ bs) c'' ↔ ∃ c', c.Past as c' ∧ c'.Past bs c'' := by
  constructor
  · intro h
    have hrest : c.rest = as ++ (bs ++ c''.rest) := by rw [h.rest_eq, List.append_assoc]
    obtain ⟨c', hpast, hrest'⟩ := exists_past hrest
    obtain ⟨c₂, hpast₂, -⟩ := exists_past hrest'
    -- both ways lead behind the same bytes
    obtain rfl := (hpast.trans hpast₂).eq h
    exact ⟨c', hpast, hpast₂⟩
  · rintro ⟨c', h₁, h₂⟩
    exact h₁.trans h₂

/-- Passing a byte and more is passing the byte and then the others. -/
theorem past_cons {c c'' : Cursor} {b : UInt8} {bs : List UInt8} :
    c.Past (b :: bs) c'' ↔ ∃ c', c.Past [b] c' ∧ c'.Past bs c'' := by
  rw [← past_append]
  rfl

end Cursor

namespace Reader

variable {ε α β : Type} {c c' : Cursor}

theorem pure_eq_ok {a b : α} : (pure a : Reader ε α) c = .ok (b, c') ↔ b = a ∧ c' = c := by
  show (Except.ok (a, c) : Except (Failure ε) (α × Cursor)) = .ok (b, c') ↔ _
  rw [Except.ok.injEq, Prod.mk.injEq]
  exact ⟨fun h => ⟨h.1.symm, h.2.symm⟩, fun h => ⟨h.1.symm, h.2.symm⟩⟩

theorem position_eq_ok {n : Nat} :
    (position : Reader ε Nat) c = .ok (n, c') ↔ n = c.pos ∧ c' = c :=
  pure_eq_ok

theorem remaining_eq_ok {n : Nat} :
    (remaining : Reader ε Nat) c = .ok (n, c') ↔ n = c.rest.length ∧ c' = c :=
  pure_eq_ok

/-! ### Words -/

variable [EndOfData ε]

/-- A `step` succeeds where its operation does, with the same result. -/
theorem step_eq_ok {op : Cursor → Except Cursor.Fault (α × Cursor)} {r : α × Cursor} :
    (step op : Reader ε α) c = .ok r ↔ op c = .ok r := by
  unfold step
  cases op c with
  | error e => exact ⟨nofun, nofun⟩
  | ok p =>
    constructor
    · exact fun h => congrArg Except.ok (Except.ok.inj h)
    · exact fun h => congrArg Except.ok (Except.ok.inj h)

/-- A word of `k` bytes is read exactly if the `bigEndianBytes` of its value lie between the cursors. -/
theorem word_eq_ok {k v : Nat} :
    (step (Cursor.word k) : Reader ε Nat) c = .ok (v, c') ↔
      v < 256 ^ k ∧ c.Past (bigEndianBytes k v) c' := by
  rw [step_eq_ok]
  constructor
  · intro h
    obtain ⟨bs, rfl, rfl, hpast⟩ := Cursor.past_of_word h
    exact ⟨Cursor.bigEndian_lt bs, by rwa [Cursor.bigEndianBytes_bigEndian]⟩
  · rintro ⟨hlt, hpast⟩
    obtain ⟨c₁, hword, hpast₁⟩ := Cursor.word_of_rest hpast.rest_eq
    rwa [length_bigEndianBytes, Cursor.bigEndian_bigEndianBytes hlt, hpast₁.eq hpast] at hword

/-- A number is read back from its `bigEndianBytes`. -/
theorem reads_bigEndianBytes {k v : Nat} (h : v < 256 ^ k) :
    (step (Cursor.word k) : Reader ε Nat).Reads (bigEndianBytes k v) v :=
  reads_step fun c rest hc => by
    obtain ⟨c', hpast, -⟩ := Cursor.exists_past hc
    exact ⟨c', step_eq_ok.1 ((word_eq_ok (ε := ε)).2 ⟨h, hpast⟩), hpast⟩

/-- `u8` succeeds exactly on a byte, and yields its number. -/
theorem u8_eq_ok {v : Nat} :
    (u8 : Reader ε Nat) c = .ok (v, c') ↔ ∃ b : UInt8, v = b.toNat ∧ c.Past [b] c' := by
  refine word_eq_ok.trans ⟨?_, ?_⟩
  · rintro ⟨hlt, hpast⟩
    exact ⟨UInt8.ofNat v, (Nat.mod_eq_of_lt hlt).symm, hpast⟩
  · rintro ⟨b, rfl, hpast⟩
    exact ⟨b.toNat_lt, by simpa [bigEndianBytes] using hpast⟩

/-- `u16` succeeds exactly on two bytes, and yields their number. -/
theorem u16_eq_ok {v : Nat} :
    (u16 : Reader ε Nat) c = .ok (v, c') ↔
      ∃ w : UInt16, v = w.toNat ∧ c.Past (bigEndianBytes 2 w.toNat) c' := by
  refine word_eq_ok.trans ⟨?_, ?_⟩
  · rintro ⟨hlt, hpast⟩
    have hv : (UInt16.ofNat v).toNat = v := Nat.mod_eq_of_lt hlt
    exact ⟨UInt16.ofNat v, hv.symm, by rwa [hv]⟩
  · rintro ⟨w, rfl, hpast⟩
    exact ⟨w.toNat_lt, hpast⟩

/-- `u32` succeeds exactly on four bytes, and yields their number. -/
private theorem u32_eq_ok {v : Nat} :
    (u32 : Reader ε Nat) c = .ok (v, c') ↔
      ∃ w : UInt32, v = w.toNat ∧ c.Past (bigEndianBytes 4 w.toNat) c' := by
  refine word_eq_ok.trans ⟨?_, ?_⟩
  · rintro ⟨hlt, hpast⟩
    have hv : (UInt32.ofNat v).toNat = v := Nat.mod_eq_of_lt hlt
    exact ⟨UInt32.ofNat v, hv.symm, by rwa [hv]⟩
  · rintro ⟨w, rfl, hpast⟩
    exact ⟨w.toNat_lt, hpast⟩

/-- A `step` that changes the value of another one succeeds where that does. -/
private theorem step_map_eq_ok {op : Cursor → Except Cursor.Fault (α × Cursor)} {f : α → β} {b : β} :
    (step (fun c => (op c).map fun p => (f p.1, p.2)) : Reader ε β) c = .ok (b, c') ↔
      ∃ a, b = f a ∧ (step op : Reader ε α) c = .ok (a, c') := by
  simp only [step_eq_ok]
  cases op c with
  | error e => exact ⟨nofun, fun ⟨_, _, h⟩ => nomatch h⟩
  | ok p =>
    simp only [Except.map, Except.ok.injEq, Prod.mk.injEq]
    constructor
    · rintro ⟨rfl, rfl⟩
      exact ⟨p.1, rfl, rfl⟩
    · rintro ⟨a, rfl, rfl⟩
      exact ⟨rfl, rfl⟩

/-- `i16` succeeds exactly on the `int16Bytes` of a number, and yields it. -/
theorem i16_eq_ok {v : Int} :
    (i16 : Reader ε Int) c = .ok (v, c') ↔ ∃ d : Int16, v = d.toInt ∧ c.Past (int16Bytes d) c' := by
  refine step_map_eq_ok.trans ⟨?_, ?_⟩
  · rintro ⟨n, rfl, h⟩
    obtain ⟨w, rfl, hpast⟩ := u16_eq_ok.1 h
    exact ⟨⟨w⟩, Cursor.signed_int16 ⟨w⟩, hpast⟩
  · rintro ⟨d, rfl, hpast⟩
    exact ⟨d.toUInt16.toNat, (Cursor.signed_int16 d).symm, u16_eq_ok.2 ⟨d.toUInt16, rfl, hpast⟩⟩

/-- `i32` succeeds exactly on the `int32Bytes` of a number, and yields it. -/
theorem i32_eq_ok {v : Int} :
    (i32 : Reader ε Int) c = .ok (v, c') ↔ ∃ d : Int32, v = d.toInt ∧ c.Past (int32Bytes d) c' := by
  refine step_map_eq_ok.trans ⟨?_, ?_⟩
  · rintro ⟨n, rfl, h⟩
    obtain ⟨w, rfl, hpast⟩ := u32_eq_ok.1 h
    exact ⟨⟨w⟩, Cursor.signed_int32 ⟨w⟩, hpast⟩
  · rintro ⟨d, rfl, hpast⟩
    exact ⟨d.toUInt32.toNat, (Cursor.signed_int32 d).symm, u32_eq_ok.2 ⟨d.toUInt32, rfl, hpast⟩⟩

/-! ### Moves -/

/-- A `move` succeeds where its operation does. -/
private theorem move_eq_ok {op : Cursor → Except Cursor.Fault Cursor} {u : Unit} :
    (move op : Reader ε Unit) c = .ok (u, c') ↔ op c = .ok c' := by
  rw [move, step_eq_ok]
  cases op c with
  | error e =>
    constructor
    · intro h
      cases h
    · intro h
      cases h
  | ok c₁ => simp [Except.map]

/-- `skip` succeeds exactly if so many bytes lie between the cursors. -/
theorem skip_eq_ok {n : Nat} {u : Unit} :
    (skip n : Reader ε Unit) c = .ok (u, c') ↔ ∃ bs, bs.length = n ∧ c.Past bs c' := by
  refine move_eq_ok.trans ⟨?_, ?_⟩
  · intro h
    obtain ⟨bs, hlength, hpast⟩ := Cursor.past_of_skip h
    exact ⟨bs, by exact_mod_cast hlength, hpast⟩
  · rintro ⟨bs, rfl, hpast⟩
    obtain ⟨c₁, hskip, hpast₁⟩ := Cursor.skip_of_rest hpast.rest_eq
    rwa [hpast₁.eq hpast] at hskip

/-- `align` succeeds exactly if the bytes that are missing to a multiple of `a` lie between the cursors. -/
theorem align_eq_ok {a : Nat} (ha : 0 < a) {u : Unit} :
    (align a : Reader ε Unit) c = .ok (u, c') ↔
      ∃ bs, bs.length = (a - c.pos % a) % a ∧ c.Past bs c' := by
  rw [align_eq_skip ha, skip_eq_ok]

/-! ### Repetition -/

omit [EndOfData ε]

/-- `repeatFrom` reads in a row what its rounds read one by one. -/
private theorem repeatFrom_eq_ok {ι : Type} {r : Nat → Reader ε α} {f : ι → List UInt8} {g : ι → α}
    (hr : ∀ i c a c', r i c = .ok (a, c') ↔ ∃ x, a = g x ∧ c.Past (f x) c') (n i : Nat)
    (before as : List α) (c c' : Cursor) :
    repeatFrom r i before n c = .ok (as, c') ↔
      ∃ xs : List ι, xs.length = n ∧ as = before.reverse ++ xs.map g ∧ c.Past (xs.flatMap f) c' := by
  -- on the rounds that are left, with what was read so far in front
  induction n generalizing i before c with
  | zero =>
    refine pure_eq_ok.trans ⟨?_, ?_⟩
    · rintro ⟨rfl, rfl⟩
      exact ⟨[], rfl, (List.append_nil _).symm, Cursor.Past.refl c'⟩
    · rintro ⟨xs, hlength, rfl, hpast⟩
      obtain rfl := List.length_eq_zero_iff.1 hlength
      exact ⟨List.append_nil _, Cursor.past_nil.1 hpast⟩
  | succ n ih =>
    simp only [repeatFrom]
    constructor
    · intro h
      split at h
      · -- the first round passes the bytes of one item, and the others start behind them
        rename_i a c₁ h₁
        obtain ⟨x, rfl, hpast⟩ := (hr i c a c₁).1 h₁
        obtain ⟨xs, rfl, rfl, hpast'⟩ := (ih (i + 1) (g x :: before) c₁).1 h
        exact ⟨x :: xs, rfl, by simp, hpast.trans hpast'⟩
      · cases h
    · rintro ⟨xs, hlength, rfl, hpast⟩
      obtain ⟨x, xs, rfl⟩ := List.exists_cons_of_length_eq_add_one hlength
      obtain ⟨c₁, hpast₁, hpast₂⟩ := Cursor.past_append.1 hpast
      rw [(hr i c (g x) c₁).2 ⟨x, rfl, hpast₁⟩]
      exact (ih (i + 1) (g x :: before) c₁).2 ⟨xs, Nat.succ.inj hlength, by simp, hpast₂⟩

/-- `times` reads `n` values exactly from their bytes one behind the other. -/
theorem times_eq_ok {ι : Type} {r : Nat → Reader ε α} {f : ι → List UInt8} {g : ι → α}
    (hr : ∀ i c a c', r i c = .ok (a, c') ↔ ∃ x, a = g x ∧ c.Past (f x) c') {n : Nat} {as : List α} :
    times n r c = .ok (as, c') ↔
      ∃ xs : List ι, xs.length = n ∧ as = xs.map g ∧ c.Past (xs.flatMap f) c' :=
  repeatFrom_eq_ok hr n 0 [] as c c'

end Reader
end CallAtlas
