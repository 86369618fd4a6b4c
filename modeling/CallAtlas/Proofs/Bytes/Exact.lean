import CallAtlas.Proofs.Bytes.Reading

/-!
# Readers on cut bytes

A reader that succeeds has used a certain stretch of bytes. `Reader.Exact` says that nothing else
matters to it:

* with that stretch ahead it yields the same value, whatever follows (`Reader.ReadsAt`),
* with only a part of the stretch ahead it fails, and for want of bytes (`Reader.Needs`).

The position of the cursor is fixed throughout, since readers may ask for it.
-/

namespace CallAtlas.Reader

variable {ε α β : Type}

/-- At position `pos` the reader yields `a` on the bytes `bs` and stops behind them, whatever follows. -/
def ReadsAt (r : Reader ε α) (pos : Nat) (bs : List UInt8) (a : α) : Prop :=
  ∀ ⦃c rest⦄, c.pos = pos → c.rest = bs ++ rest → ∃ c', r c = .ok (a, c') ∧ c.Past bs c'

/-- At position `pos` the reader needs all of the bytes `bs`: if the last of them are missing, it fails for a
    `short` cause. -/
def Needs (short : ε → Prop) (r : Reader ε α) (pos : Nat) (bs : List UInt8) : Prop :=
  ∀ ⦃c b missing⦄, c.pos = pos → bs = c.rest ++ b :: missing → ∃ e, r c = .error e ∧ short e.cause

/-- A reader that succeeds reads what it has passed, and needs all of it. -/
def Exact (short : ε → Prop) (r : Reader ε α) : Prop :=
  ∀ ⦃c a c'⦄, r c = .ok (a, c') →
    ∃ bs, c.Past bs c' ∧ r.ReadsAt c.pos bs a ∧ r.Needs short c.pos bs

/-- An `Exact` reader needs all of a stretch that it reads wherever it comes upon it. -/
theorem Exact.needs {short : ε → Prop} {r : Reader ε α} (hr : r.Exact short) {pos : Nat}
    {bs : List UInt8} {a : α}
    (h : ∀ ⦃c c'⦄, c.pos = pos → c.Past bs c' → r c = .ok (a, c')) : r.Needs short pos bs := by
  -- a cursor at the position with nothing but the stretch ahead
  let c : Cursor := ⟨List.replicate pos 0, bs, pos, List.length_replicate.symm⟩
  obtain ⟨c', -, hpast⟩ := Cursor.forward?_of_rest (c := c) (List.append_nil bs).symm
  obtain ⟨as, hpast', -, hneeds⟩ := hr (h rfl hpast)
  obtain rfl : as = bs := List.append_cancel_right (hpast'.rest_eq.symm.trans hpast.rest_eq)
  exact hneeds

/-- A reader may choose by the position what to do, and stays `Exact`. -/
private theorem exact_of_pos {short : ε → Prop} {r : Reader ε α} {s : Nat → Reader ε α}
    (hr : ∀ c, r c = s c.pos c) (hs : ∀ n, (s n).Exact short) : r.Exact short := by
  intro c a c' h
  rw [hr] at h
  -- another cursor at this position comes to the same choice
  obtain ⟨bs, hpast, hreads, hneeds⟩ := hs c.pos h
  refine ⟨bs, hpast, ?_, ?_⟩
  · intro d rest hpos hd
    rw [hr, hpos]
    exact hreads hpos hd
  · intro d b missing hpos hcut
    rw [hr, hpos]
    exact hneeds hpos hcut

/-! ### Sequencing -/

/-- Where the first step succeeds, the second goes on from the cursor that it left. -/
theorem bind_of_ok {r : Reader ε α} {f : α → Reader ε β} {c c' : Cursor} {a : α}
    (h : r c = .ok (a, c')) : (r >>= f) c = f a c' := by
  show (r c >>= fun p => f p.1 p.2) = f a c'
  rw [h]
  rfl

/-- Where the first step fails, so does the sequence. -/
theorem bind_of_error {r : Reader ε α} {f : α → Reader ε β} {c : Cursor} {e : Failure ε}
    (h : r c = .error e) : (r >>= f) c = .error e := by
  show (r c >>= fun p => f p.1 p.2) = .error e
  rw [h]
  rfl

/-- Two stretches are read one behind the other. -/
theorem ReadsAt.bind {r : Reader ε α} {f : α → Reader ε β} {pos : Nat} {as bs : List UInt8} {a : α}
    {b : β} (hr : r.ReadsAt pos as a) (hf : (f a).ReadsAt (pos + as.length) bs b) :
    (r >>= f).ReadsAt pos (as ++ bs) b := by
  intro c rest hpos hc
  rw [List.append_assoc] at hc
  obtain ⟨c₁, h₁, hpast₁⟩ := hr hpos hc
  have hrest : c₁.rest = bs ++ rest := List.append_cancel_left (hpast₁.rest_eq.symm.trans hc)
  obtain ⟨c₂, h₂, hpast₂⟩ := hf (by rw [hpast₁.pos_eq, hpos]) hrest
  exact ⟨c₂, (bind_of_ok h₁).trans h₂, hpast₁.trans hpast₂⟩

/-- A sequence `Needs` the bytes of both steps: some are missing in the first step, or they are all there and
    some are missing in the second. -/
theorem Needs.bind {short : ε → Prop} {r : Reader ε α} {f : α → Reader ε β} {pos : Nat}
    {as bs : List UInt8} {a : α} (hneeds : r.Needs short pos as) (hreads : r.ReadsAt pos as a)
    (hf : (f a).Needs short (pos + as.length) bs) : (r >>= f).Needs short pos (as ++ bs) := by
  intro c b missing hpos hcut
  rcases List.append_eq_append_iff.1 hcut with ⟨rest, hrest, hbs⟩ | ⟨rest, has, hrest⟩
  · -- the first step has its bytes
    obtain ⟨c₁, h₁, hpast₁⟩ := hreads hpos hrest
    have hrest₁ : c₁.rest = rest := List.append_cancel_left (hpast₁.rest_eq.symm.trans hrest)
    have hcut₁ : bs = c₁.rest ++ b :: missing := by rw [hbs, hrest₁]
    obtain ⟨e, h₂, he⟩ := hf (by rw [hpast₁.pos_eq, hpos]) hcut₁
    exact ⟨e, (bind_of_ok h₁).trans h₂, he⟩
  · cases rest with
    | nil =>
      -- the cut lies between the steps
      have hc : c.rest = as ++ [] := by rw [has, List.append_nil, List.append_nil]
      obtain ⟨c₁, h₁, hpast₁⟩ := hreads hpos hc
      have hrest₁ : c₁.rest = [] := List.append_cancel_left (hpast₁.rest_eq.symm.trans hc)
      have hcut₁ : bs = c₁.rest ++ b :: missing := by rw [hrest₁, List.nil_append, hrest]; rfl
      obtain ⟨e, h₂, he⟩ := hf (by rw [hpast₁.pos_eq, hpos]) hcut₁
      exact ⟨e, (bind_of_ok h₁).trans h₂, he⟩
    | cons b' rest =>
      -- the cut lies in the first step
      obtain ⟨e, h, he⟩ := hneeds hpos has
      exact ⟨e, bind_of_error h, he⟩

/-- A sequence of `Exact` readers is `Exact`. -/
theorem Exact.bind {short : ε → Prop} {r : Reader ε α} {f : α → Reader ε β} (hr : r.Exact short)
    (hf : ∀ a, (f a).Exact short) : (r >>= f).Exact short := by
  intro c b c₂ h
  obtain ⟨a, c₁, h₁, h₂⟩ := bind_eq_ok.1 h
  obtain ⟨as, hpast₁, hreads₁, hneeds₁⟩ := hr h₁
  obtain ⟨bs, hpast₂, hreads₂, hneeds₂⟩ := hf a h₂
  rw [hpast₁.pos_eq] at hreads₂ hneeds₂
  exact ⟨as ++ bs, hpast₁.trans hpast₂, hreads₁.bind hreads₂, hneeds₁.bind hreads₁ hneeds₂⟩

/-! ### Readers that take no bytes -/

/-- A reader is `Exact` that stays where it is and yields the same value at every cursor with that position. -/
theorem exact_of_still {short : ε → Prop} {r : Reader ε α}
    (h : ∀ ⦃c a c'⦄, r c = .ok (a, c') → c' = c ∧ ∀ d : Cursor, d.pos = c.pos → r d = .ok (a, d)) :
    r.Exact short := by
  intro c a c' hok
  obtain ⟨rfl, hall⟩ := h hok
  refine ⟨[], Cursor.Past.refl c', ?_, ?_⟩
  · intro d rest hpos _
    exact ⟨d, hall d hpos, Cursor.Past.refl d⟩
  · -- no bytes are needed, so none can be missing
    intro d b missing _ hcut
    exact absurd hcut.symm (by simp)

/-- `pure` takes no bytes. -/
theorem exact_pure (short : ε → Prop) (a : α) : (pure a : Reader ε α).Exact short := by
  apply exact_of_still
  intro c b c' h
  obtain ⟨rfl, rfl⟩ := Prod.mk.injEq .. ▸ Except.ok.inj h
  exact ⟨rfl, fun _ _ => rfl⟩

/-- `fail` never succeeds. -/
theorem exact_fail (short : ε → Prop) (e : ε) : (fail e : Reader ε α).Exact short := by
  intro c a c' h
  exact nomatch h

theorem exact_ofExcept (short : ε → Prop) (x : Except ε α) : (ofExcept x).Exact short := by
  cases x with
  | error e => exact exact_fail short e
  | ok a => exact exact_pure short a

theorem exact_position (short : ε → Prop) : (position : Reader ε Nat).Exact short := by
  apply exact_of_still
  intro c n c' h
  obtain ⟨rfl, rfl⟩ := Prod.mk.injEq .. ▸ Except.ok.inj h
  exact ⟨rfl, fun d hpos => by rw [position, hpos]⟩

/-- `inside` takes no bytes of the cursor: the stretch was taken off before and is at hand in full. -/
theorem exact_inside (short : ε → Prop) (body : List UInt8) (r : Reader ε α) :
    (inside body r).Exact short := by
  apply exact_of_still
  intro c a c' h
  unfold inside at h ⊢
  cases hr : r (.ofBytes body) with
  | error e => rw [hr] at h; exact nomatch h
  | ok p =>
    rw [hr] at h
    obtain ⟨rfl, rfl⟩ := Prod.mk.injEq .. ▸ Except.ok.inj h
    exact ⟨rfl, fun _ _ => rfl⟩

/-- The cause of a failure may be told in other words, as long as these are `short` causes too. -/
theorem Exact.mapCause {short : ε → Prop} {r : Reader ε α} {f : ε → ε}
    (hf : ∀ e, short e → short (f e)) (hr : r.Exact short) : (r.mapCause f).Exact short := by
  intro c a c' h
  -- successes are passed on as they are
  have hok : r c = .ok (a, c') := by
    unfold Reader.mapCause at h
    cases hr : r c with
    | error e => rw [hr] at h; exact nomatch h
    | ok p => rw [hr] at h; exact h
  obtain ⟨bs, hpast, hreads, hneeds⟩ := hr hok
  refine ⟨bs, hpast, ?_, ?_⟩
  · intro d rest hpos hd
    obtain ⟨d', hd', hpast'⟩ := hreads hpos hd
    exact ⟨d', by rw [Reader.mapCause, hd']; rfl, hpast'⟩
  · intro d b missing hpos hcut
    obtain ⟨e, he, hshort⟩ := hneeds hpos hcut
    exact ⟨{ e with cause := f e.cause }, by rw [Reader.mapCause, he]; rfl, hf _ hshort⟩

/-! ### Steps -/

section
variable [EndOfData ε] {short : ε → Prop} (hshort : short EndOfData.endOfData)
include hshort

/-- A `step` is `Exact` that makes a value of a fixed number of bytes. -/
theorem exact_step {op : Cursor → Except Cursor.Fault (α × Cursor)} {n : Nat}
    (value : List UInt8 → α)
    (htakes : ∀ ⦃c a c'⦄, op c = .ok (a, c') → ∃ bs, bs.length = n ∧ c.Past bs c')
    (hreads : ∀ ⦃c bs rest⦄, bs.length = n → c.rest = bs ++ rest →
      ∃ c', op c = .ok (value bs, c') ∧ c.Past bs c') :
    (step op : Reader ε α).Exact short := by
  intro c a c' h
  have hop : op c = .ok (a, c') := by
    simp only [step] at h
    split at h
    · rename_i hr
      exact hr.trans (congrArg Except.ok (Except.ok.inj h))
    · cases h
  obtain ⟨bs, hlength, hpast⟩ := htakes hop
  -- the value that was read is the one that the bytes stand for
  have hvalue : a = value bs := by
    obtain ⟨c₁, h₁, -⟩ := hreads hlength hpast.rest_eq
    rw [hop] at h₁
    exact (Prod.mk.injEq .. ▸ Except.ok.inj h₁).1
  refine ⟨bs, hpast, ?_, ?_⟩
  · intro d rest _ hd
    obtain ⟨d', hd', hpast'⟩ := hreads hlength hd
    exact ⟨d', by simp only [step, hd', hvalue], hpast'⟩
  · intro d b missing _ hcut
    cases hd : op d with
    | error e => exact ⟨⟨d.pos, EndOfData.endOfData⟩, by simp only [step, hd], hshort⟩
    | ok p =>
      -- too few bytes follow for the step to succeed
      obtain ⟨as, has, hpast'⟩ := htakes hd
      have hlong := congrArg List.length hpast'.rest_eq
      have hcut := congrArg List.length hcut
      simp only [List.length_append, List.length_cons] at hlong hcut
      omega

/-- Reading a word of `k` bytes is `Exact`. -/
theorem exact_word (k : Nat) : (step (Cursor.word k) : Reader ε Nat).Exact short := by
  apply exact_step hshort Cursor.bigEndian
  · intro c v c' h
    obtain ⟨bs, hlength, -, hpast⟩ := Cursor.past_of_word h
    exact ⟨bs, hlength, hpast⟩
  · intro c bs rest hlength hc
    exact hlength ▸ Cursor.word_of_rest hc

/-- Reading `n` bytes is `Exact`. -/
theorem exact_bytes (n : Nat) : (bytes n : Reader ε (List UInt8)).Exact short := by
  apply exact_step hshort id
  · intro c bs c' h
    obtain ⟨hlength, hpast⟩ := Cursor.past_of_bytes h
    exact ⟨bs, by exact_mod_cast hlength, hpast⟩
  · intro c bs rest hlength hc
    exact hlength ▸ Cursor.bytes_of_rest hc

/-- Skipping `n` bytes is `Exact`. -/
theorem exact_skip (n : Nat) : (skip n : Reader ε Unit).Exact short := by
  -- both directions: what was skipped are so many bytes, and so many bytes can be skipped
  apply exact_step hshort fun _ => ()
  · intro c u c' h
    cases hs : c.skip n with
    | error e => rw [hs] at h; cases h
    | ok c₁ =>
      rw [hs] at h
      obtain ⟨bs, hlength, hpast⟩ := Cursor.past_of_skip hs
      obtain ⟨-, rfl⟩ := Prod.mk.injEq .. ▸ Except.ok.inj h
      exact ⟨bs, by exact_mod_cast hlength, hpast⟩
  · intro c bs rest hlength hc
    obtain ⟨c', hs, hpast⟩ := Cursor.skip_of_rest hc
    exact ⟨c', by rw [← hlength, hs]; rfl, hpast⟩

/-- `align` is `Exact`: at a fixed position it skips a fixed number of bytes. -/
theorem exact_align {a : Nat} (ha : 0 < a) : (align a : Reader ε Unit).Exact short :=
  exact_of_pos (align_eq_skip ha) fun n => exact_skip hshort ((a - n % a) % a)

/-- Reading a word of `k` bytes as a signed number is `Exact`. -/
private theorem exact_signed (k bits : Nat) :
    (step fun c => (c.word k).map fun p => (Cursor.signed bits p.1, p.2) : Reader ε Int).Exact short := by
  apply exact_step hshort fun bs => Cursor.signed bits (Cursor.bigEndian bs)
  · intro c v c' h
    obtain ⟨w, hw⟩ := Cursor.map_eq_ok h
    obtain ⟨bs, hlength, -, hpast⟩ := Cursor.past_of_word hw
    exact ⟨bs, hlength, hpast⟩
  · intro c bs rest hlength hc
    obtain ⟨c', hw, hpast⟩ := Cursor.word_of_rest hc
    exact ⟨c', by rw [← hlength, hw]; rfl, hpast⟩

theorem exact_i16 : (i16 : Reader ε Int).Exact short :=
  exact_signed hshort 2 16

theorem exact_i32 : (i32 : Reader ε Int).Exact short :=
  exact_signed hshort 4 32

end

/-! ### Repetition -/

/-- One round more of `repeatFrom` is a step in front of the others. -/
theorem repeatFrom_succ (r : Nat → Reader ε α) (i : Nat) (before : List α) (n : Nat) :
    repeatFrom r i before (n + 1) = r i >>= fun a => repeatFrom r (i + 1) (a :: before) n := by
  funext c
  cases h : r i c with
  | error e => simp only [repeatFrom, h, bind_of_error h]
  | ok p => simp only [repeatFrom, h, bind_of_ok h]

/-- `repeatFrom` is `Exact` if every round is. -/
private theorem exact_repeatFrom {short : ε → Prop} {r : Nat → Reader ε α} (hr : ∀ i, (r i).Exact short)
    (n i : Nat) (before : List α) : (repeatFrom r i before n).Exact short := by
  -- on the rounds that are left; the number of the next one and what was read change with it
  induction n generalizing i before with
  | zero => exact exact_pure short before.reverse
  | succ n ih =>
    rw [repeatFrom_succ]
    exact (hr i).bind fun a => ih (i + 1) (a :: before)

/-- `times` is `Exact` if every round is. -/
theorem exact_times {short : ε → Prop} {r : Nat → Reader ε α} (hr : ∀ i, (r i).Exact short)
    (n : Nat) : (times n r).Exact short :=
  exact_repeatFrom hr n 0 []

end CallAtlas.Reader
