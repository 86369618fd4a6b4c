import Mathlib.Data.List.Forall2
import CallAtlas.Bytes.Reader

/-!
# What readers take

A reader that succeeds leaves the cursor behind some bytes that followed before. `Cursor.Past` states
this of two cursors, and `Reader.Reads` says that a reader yields a given value on given bytes, whatever
follows them. Both pass through sequencing and repetition, so what holds of the steps holds of a whole
format.
-/

namespace CallAtlas

/-- The cursor `c'` stands behind the bytes `bs` that follow the position of `c`. -/
structure Cursor.Past (c : Cursor) (bs : List UInt8) (c' : Cursor) : Prop where
  rest_eq : c.rest = bs ++ c'.rest
  passed_eq : c'.passed = bs.reverse ++ c.passed

namespace Cursor

theorem Past.refl (c : Cursor) : c.Past [] c :=
  ⟨rfl, rfl⟩

/-- What lies between cursors adds up: `Past` is transitive. -/
theorem Past.trans {c₁ c₂ c₃ : Cursor} {as bs : List UInt8}
    (h₁ : c₁.Past as c₂) (h₂ : c₂.Past bs c₃) : c₁.Past (as ++ bs) c₃ := by
  constructor
  · rw [h₁.rest_eq, h₂.rest_eq, List.append_assoc]
  · rw [h₂.passed_eq, h₁.passed_eq, List.reverse_append, List.append_assoc]

/-- Passing bytes adds their number to the position. -/
theorem Past.pos_eq {c c' : Cursor} {bs : List UInt8} (h : c.Past bs c') :
    c'.pos = c.pos + bs.length := by
  rw [c'.pos_eq, c.pos_eq, h.passed_eq, List.length_append, List.length_reverse, Nat.add_comm]

/-- `forward?` moves a cursor behind the bytes that follow, turned round onto those passed. -/
private theorem forward?_append (bs rest p : List UInt8) (k : Nat) (h : k = p.length) :
    forward? bs.length ⟨p, bs ++ rest, k, h⟩ =
      some ⟨bs.reverse ++ p, rest, k + bs.length, by simp [h]; omega⟩ := by
  induction bs generalizing p k with
  | nil => simp [forward?]
  | cons b bs ih =>
    simp only [List.length_cons, List.cons_append, forward?]
    rw [ih]
    simp [Nat.add_comm, Nat.add_left_comm]

/-- Where `forward?` succeeds, so many bytes lie between the cursors. -/
theorem past_of_forward? {n : Nat} {c c' : Cursor} (h : c.forward? n = some c') :
    ∃ bs, bs.length = n ∧ c.Past bs c' := by
  induction n generalizing c with
  | zero =>
    simp only [forward?, Option.some.injEq] at h
    exact ⟨[], rfl, h ▸ Past.refl c⟩
  | succ n ih =>
    obtain ⟨p, rest, k, hk⟩ := c
    cases rest with
    | nil => simp [forward?] at h
    | cons b r =>
      -- the first byte, and then those of the rest by induction
      obtain ⟨bs, hlen, hpast⟩ := ih h
      refine ⟨b :: bs, by rw [List.length_cons, hlen], ?_, ?_⟩
      · simpa using hpast.rest_eq
      · simpa using hpast.passed_eq

/-- Where the bytes `bs` follow, `forward?` moves a cursor behind them. -/
theorem forward?_of_rest {c : Cursor} {bs rest : List UInt8} (h : c.rest = bs ++ rest) :
    ∃ c', c.forward? bs.length = some c' ∧ c.Past bs c' := by
  obtain ⟨p, r, k, hk⟩ := c
  obtain rfl : r = bs ++ rest := h
  exact ⟨_, forward?_append bs rest p k hk, rfl, rfl⟩

/-- Where `skip` succeeds, so many bytes lie between the cursors. -/
theorem past_of_skip {n : Int} {c c' : Cursor} (h : c.skip n = .ok c') :
    ∃ bs, (bs.length : Int) = n ∧ c.Past bs c' := by
  cases n with
  -- no cursor skips backwards
  | negSucc n => simp [skip] at h
  | ofNat n =>
    simp only [skip] at h
    cases hf : c.forward? n with
    | none => simp [hf] at h
    | some c₁ =>
      rw [hf, Option.elim_some, Except.ok.injEq] at h
      subst h
      obtain ⟨bs, hlen, hpast⟩ := past_of_forward? hf
      exact ⟨bs, by rw [hlen]; rfl, hpast⟩

/-- Where the bytes `bs` follow, `skip` passes them. -/
theorem skip_of_rest {c : Cursor} {bs rest : List UInt8} (h : c.rest = bs ++ rest) :
    ∃ c', c.skip bs.length = .ok c' ∧ c.Past bs c' := by
  obtain ⟨c', hf, hpast⟩ := forward?_of_rest h
  refine ⟨c', ?_, hpast⟩
  show (c.forward? bs.length).elim (Except.error Fault.endOfData) Except.ok = Except.ok c'
  rw [hf]
  rfl

/-- The bytes that `bytes` reads are those that lie between the cursors. -/
theorem past_of_bytes {n : Int} {bs : List UInt8} {c c' : Cursor}
    (h : c.bytes n = .ok (bs, c')) : (bs.length : Int) = n ∧ c.Past bs c' := by
  simp only [bytes] at h
  cases hs : c.skip n with
  | error e => rw [hs] at h; exact nomatch h
  | ok c₁ =>
    rw [hs] at h
    simp only [Except.map, Except.ok.injEq, Prod.mk.injEq] at h
    obtain ⟨hbs, rfl⟩ := h
    obtain ⟨as, hlen, hpast⟩ := past_of_skip hs
    -- `bytes` takes from the front what the skip has passed
    have has : bs = as := by
      rw [← hbs, hpast.rest_eq, ← hlen, Int.toNat_natCast, List.take_left]
    rw [has]
    exact ⟨hlen, hpast⟩

/-- Where the bytes `bs` follow, `bytes` reads them. -/
theorem bytes_of_rest {c : Cursor} {bs rest : List UInt8} (h : c.rest = bs ++ rest) :
    ∃ c', c.bytes bs.length = .ok (bs, c') ∧ c.Past bs c' := by
  obtain ⟨c', hs, hpast⟩ := skip_of_rest h
  refine ⟨c', ?_, hpast⟩
  rw [bytes, hs, h, Int.toNat_natCast, List.take_left]
  rfl

/-- A value that was changed behind an operation comes from a value of the operation. -/
theorem map_eq_ok {f : α → β} {x : Except Fault (α × Cursor)} {b : β} {c : Cursor}
    (h : (x.map fun (a, c') => (f a, c')) = .ok (b, c)) : ∃ a, x = .ok (a, c) := by
  cases x with
  | error e => exact nomatch h
  | ok p =>
    obtain ⟨a, c'⟩ := p
    simp only [Except.map, Except.ok.injEq, Prod.mk.injEq] at h
    exact ⟨a, h.2 ▸ rfl⟩

/-- A word that `word` reads is the `bigEndian` value of the bytes between the cursors. -/
theorem past_of_word {k v : Nat} {c c' : Cursor} (h : c.word k = .ok (v, c')) :
    ∃ bs, bs.length = k ∧ v = bigEndian bs ∧ c.Past bs c' := by
  simp only [word] at h
  obtain ⟨bs, hbs⟩ := map_eq_ok h
  rw [hbs] at h
  simp only [Except.map, Except.ok.injEq, Prod.mk.injEq, and_true] at h
  obtain ⟨hlen, hpast⟩ := past_of_bytes hbs
  exact ⟨bs, by exact_mod_cast hlen, h.symm, hpast⟩

/-- Where the bytes `bs` follow, `word` reads their `bigEndian` value. -/
theorem word_of_rest {c : Cursor} {bs rest : List UInt8} (h : c.rest = bs ++ rest) :
    ∃ c', c.word bs.length = .ok (bigEndian bs, c') ∧ c.Past bs c' := by
  obtain ⟨c', hb, hpast⟩ := bytes_of_rest h
  exact ⟨c', by rw [word, hb]; rfl, hpast⟩

end Cursor

namespace Reader

variable {ε α β : Type}

/-- A reader that yields `a` on the bytes `bs` and stops behind them, whatever follows. -/
def Reads (r : Reader ε α) (bs : List UInt8) (a : α) : Prop :=
  ∀ ⦃c rest⦄, c.rest = bs ++ rest → ∃ c', r c = .ok (a, c') ∧ c.Past bs c'

/-- Two steps succeed together exactly when each does where the one before has left the cursor. -/
theorem bind_eq_ok {r : Reader ε α} {f : α → Reader ε β} {c c'' : Cursor} {b : β} :
    (r >>= f) c = .ok (b, c'') ↔ ∃ a c', r c = .ok (a, c') ∧ f a c' = .ok (b, c'') := by
  show (r c >>= fun p => f p.1 p.2) = _ ↔ _
  cases h : r c with
  | error e => simp [bind, Except.bind]
  | ok p =>
    obtain ⟨a, c'⟩ := p
    simp only [bind, Except.bind, Except.ok.injEq, Prod.mk.injEq]
    exact ⟨fun hf => ⟨a, c', ⟨rfl, rfl⟩, hf⟩, fun ⟨_, _, ⟨rfl, rfl⟩, hf⟩ => hf⟩

/-- What a step `Reads` stays readable in front of more steps. -/
theorem Reads.bind {r : Reader ε α} {f : α → Reader ε β} {as bs : List UInt8} {a : α} {b : β}
    (hr : r.Reads as a) (hf : (f a).Reads bs b) : (r >>= f).Reads (as ++ bs) b := by
  intro c rest hc
  rw [List.append_assoc] at hc
  obtain ⟨c', h₁, hpast⟩ := hr hc
  -- the second step starts where the first has stopped
  have hc' : c'.rest = bs ++ rest := List.append_cancel_left (hpast.rest_eq.symm.trans hc)
  obtain ⟨c'', h₂, hpast'⟩ := hf hc'
  exact ⟨c'', bind_eq_ok.2 ⟨a, c', h₁, h₂⟩, hpast.trans hpast'⟩

theorem reads_pure (a : α) : Reads (pure a : Reader ε α) [] a := by
  intro c rest _
  exact ⟨c, rfl, Cursor.Past.refl c⟩

/-- A last step that needs no bytes. -/
theorem Reads.last {r : Reader ε α} {f : α → Reader ε β} {as : List UInt8} {a : α} {b : β}
    (hr : r.Reads as a) (hf : (f a).Reads [] b) : (r >>= f).Reads as b := by
  rw [← List.append_nil as]
  exact hr.bind hf

/-- A value that is read can be changed by `g` without more bytes. -/
theorem Reads.map {r : Reader ε α} {as : List UInt8} {a : α} (g : α → β) (hr : r.Reads as a) :
    (r >>= fun a => pure (g a)).Reads as (g a) :=
  hr.last (reads_pure (g a))

/-- A first step that needs no bytes. -/
theorem Reads.after {r : Reader ε α} {f : α → Reader ε β} {bs : List UInt8} {a : α} {b : β}
    (hr : r.Reads [] a) (hf : (f a).Reads bs b) : (r >>= f).Reads bs b :=
  hr.bind hf

theorem reads_ofExcept (a : α) : (ofExcept (.ok a) : Reader ε α).Reads [] a :=
  reads_pure a

/-- What does not depend on the `position` is read anywhere. -/
theorem reads_position_bind {f : Nat → Reader ε β} {bs : List UInt8} {b : β}
    (hf : ∀ n, (f n).Reads bs b) : (position >>= f).Reads bs b := by
  intro c rest hc
  exact hf c.pos hc

/-- `mapCause` changes nothing where a reader succeeds. -/
theorem Reads.mapCause {r : Reader ε α} {bs : List UInt8} {a : α} (f : ε → ε) (hr : r.Reads bs a) :
    (r.mapCause f).Reads bs a := by
  intro c rest hc
  obtain ⟨c', h, hpast⟩ := hr hc
  exact ⟨c', by rw [Reader.mapCause, h]; rfl, hpast⟩

/-- A stretch that was taken off before is read by `inside` on its own. -/
theorem Reads.inside {r : Reader ε α} {body : List UInt8} {a : α} (hr : r.Reads body a) :
    (Reader.inside body r).Reads [] a := by
  intro c rest _
  have hbody : (Cursor.ofBytes body).rest = body ++ [] := (List.append_nil body).symm
  obtain ⟨c', h, -⟩ := hr hbody
  exact ⟨c, by simp only [Reader.inside, h], Cursor.Past.refl c⟩

/-! ### Single steps -/

variable [EndOfData ε]

/-- A `step` reads what its operation reads. -/
theorem reads_step {op : Cursor → Except Cursor.Fault (α × Cursor)} {bs : List UInt8} {a : α}
    (hop : ∀ ⦃c rest⦄, c.rest = bs ++ rest → ∃ c', op c = .ok (a, c') ∧ c.Past bs c') :
    (step op : Reader ε α).Reads bs a := by
  intro c rest hc
  obtain ⟨c', h, hpast⟩ := hop hc
  exact ⟨c', by simp only [step, h], hpast⟩

/-- A word is the `bigEndian` value of its bytes. -/
theorem reads_word (bs : List UInt8) :
    (step (Cursor.word bs.length) : Reader ε Nat).Reads bs (Cursor.bigEndian bs) :=
  reads_step fun _ _ h => Cursor.word_of_rest h

/-- `bytes` yields the bytes as they are. -/
theorem reads_bytes (bs : List UInt8) : (bytes bs.length : Reader ε (List UInt8)).Reads bs bs :=
  reads_step fun _ _ h => Cursor.bytes_of_rest h

/-- `skip` passes the bytes, whatever they are. -/
theorem reads_skip (bs : List UInt8) : (skip bs.length : Reader ε Unit).Reads bs () := by
  apply reads_step
  intro c rest h
  obtain ⟨c', hs, hpast⟩ := Cursor.skip_of_rest h
  exact ⟨c', by rw [hs]; rfl, hpast⟩

/-- `align` skips as many bytes as the position lacks to the next multiple of `a`. -/
theorem align_eq_skip {a : Nat} (ha : 0 < a) (c : Cursor) :
    (align a : Reader ε Unit) c = skip ((a - c.pos % a) % a) c := by
  have halign : c.align a = c.skip ((a - c.pos % a) % a : Nat) := by
    have hlt := Nat.mod_lt c.pos ha
    rw [Cursor.align, if_neg (by omega), Int.toNat_natCast]
    -- on a multiple nothing is missing, and the whole of `a` is no remainder
    by_cases hzero : c.pos % a = 0
    · rw [if_pos hzero, hzero, Nat.sub_zero, Nat.mod_self]
      rfl
    · rw [if_neg hzero, Nat.mod_eq_of_lt (show a - c.pos % a < a by omega)]
  simp only [align, skip, move, step, halign]

omit [EndOfData ε]

/-! ### Repetition -/

/-- `repeatFrom` reads in a row the values that can be read one by one. -/
theorem reads_repeatFrom {r : Nat → Reader ε α} {f : β → List UInt8} {xs : List β} {as : List α}
    (h : List.Forall₂ (fun x a => ∀ i, (r i).Reads (f x) a) xs as) (i : Nat) (before : List α) :
    (repeatFrom r i before xs.length).Reads (xs.flatMap f) (before.reverse ++ as) := by
  -- on the values and their bytes together; what was read before stands turned round in `before`
  induction h generalizing i before with
  | nil =>
    intro c rest _
    exact ⟨c, by simp [repeatFrom], Cursor.Past.refl c⟩
  | @cons x a xs as hx _ ih =>
    intro c rest hc
    rw [List.flatMap_cons, List.append_assoc] at hc
    obtain ⟨c₁, h₁, hpast₁⟩ := hx i hc
    have hc₁ : c₁.rest = xs.flatMap f ++ rest :=
      List.append_cancel_left (hpast₁.rest_eq.symm.trans hc)
    obtain ⟨c₂, h₂, hpast₂⟩ := ih (i + 1) (a :: before) hc₁
    refine ⟨c₂, ?_, ?_⟩
    · simp only [List.length_cons, repeatFrom, h₁, h₂, List.reverse_cons, List.append_assoc,
        List.singleton_append]
    · rw [List.flatMap_cons]
      exact hpast₁.trans hpast₂

/-- `times` reads a run of values back in order. -/
theorem reads_times {r : Nat → Reader ε α} {f : β → List UInt8} {xs : List β} {as : List α}
    (h : List.Forall₂ (fun x a => ∀ i, (r i).Reads (f x) a) xs as) :
    (times xs.length r).Reads (xs.flatMap f) as :=
  reads_repeatFrom h 0 []

end Reader
end CallAtlas
