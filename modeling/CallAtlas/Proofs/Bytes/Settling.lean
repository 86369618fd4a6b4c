import CallAtlas.Proofs.Bytes.Exact

/-!
# What becomes of given bytes

For a format whose parts can be looked at one by one, what a reader makes of the bytes of a part is settled by
that part alone: a value, which is read whatever follows, or none, and then the reader fails whatever follows.
`Reader.Settles` says so. It passes through sequencing as `Option.bind` does, and through repetition as
`List.mapM`.
-/

namespace CallAtlas.Reader

variable {ε α β : Type}

/-- A reader that fails on the bytes `bs`, whatever follows. -/
def Fails (r : Reader ε α) (bs : List UInt8) : Prop :=
  ∀ ⦃c rest⦄, c.rest = bs ++ rest → ∃ e, r c = .error e

/-- What a reader makes of the bytes `bs`, whatever follows. -/
def Settles (r : Reader ε α) (bs : List UInt8) : Option α → Prop
  | some a => r.Reads bs a
  | none => r.Fails bs

/-- The value that a reader yields on some bytes alone. -/
def value? (r : Reader ε α) (bs : List UInt8) : Option α :=
  (r (.ofBytes bs)).toOption.map Prod.fst

/-- What a reader `Settles` on is the `value?` that it yields on the bytes alone. -/
theorem Settles.value?_eq {r : Reader ε α} {bs : List UInt8} {x : Option α} (hr : r.Settles bs x) :
    r.value? bs = x := by
  -- there is nothing behind the bytes
  have hbs : (Cursor.ofBytes bs).rest = bs ++ [] := (List.append_nil bs).symm
  cases x with
  | none =>
    obtain ⟨e, he⟩ := hr hbs
    rw [value?, he]
    rfl
  | some a =>
    obtain ⟨c', h, -⟩ := hr hbs
    rw [value?, h]
    rfl

/-! ### Sequencing -/

/-- Behind a step that succeeds, what becomes of the bytes is settled by the next step. -/
theorem Reads.bind_settles {r : Reader ε α} {f : α → Reader ε β} {as bs : List UInt8} {a : α}
    {y : Option β} (hr : r.Reads as a) (hf : (f a).Settles bs y) : (r >>= f).Settles (as ++ bs) y := by
  cases y with
  | some b => exact hr.bind hf
  | none =>
    intro c rest hc
    rw [List.append_assoc] at hc
    obtain ⟨c', h, hpast⟩ := hr hc
    -- the second step starts where the bytes of the first one end
    have hc' : c'.rest = bs ++ rest := List.append_cancel_left (hpast.rest_eq.symm.trans hc)
    obtain ⟨e, he⟩ := hf hc'
    exact ⟨e, (bind_of_ok h).trans he⟩

/-- `Settles` passes through sequencing as `Option.bind` does. -/
theorem Settles.bind {r : Reader ε α} {f : α → Reader ε β} {as bs : List UInt8} {x : Option α}
    {y : α → Option β} (hr : r.Settles as x) (hf : ∀ a, (f a).Settles bs (y a)) :
    (r >>= f).Settles (as ++ bs) (x.bind y) := by
  cases x with
  | some a => exact Reads.bind_settles hr (hf a)
  | none =>
    intro c rest hc
    rw [List.append_assoc] at hc
    obtain ⟨e, he⟩ := hr hc
    exact ⟨e, bind_of_error he⟩

/-- Behind a step that succeeds, a last one that needs no bytes settles what becomes of all. -/
theorem Reads.last_settles {r : Reader ε α} {f : α → Reader ε β} {as : List UInt8} {a : α}
    {y : Option β} (hr : r.Reads as a) (hf : (f a).Settles [] y) : (r >>= f).Settles as y := by
  rw [← List.append_nil as]
  exact hr.bind_settles hf

/-- A first step that needs no bytes. -/
theorem Settles.after {r : Reader ε α} {f : α → Reader ε β} {bs : List UInt8} {x : Option α}
    {y : α → Option β} (hr : r.Settles [] x) (hf : ∀ a, (f a).Settles bs (y a)) :
    (r >>= f).Settles bs (x.bind y) :=
  hr.bind hf

/-- A last step that needs no bytes. -/
theorem Settles.last {r : Reader ε α} {f : α → Reader ε β} {as : List UInt8} {x : Option α}
    {y : α → Option β} (hr : r.Settles as x) (hf : ∀ a, (f a).Settles [] (y a)) :
    (r >>= f).Settles as (x.bind y) := by
  rw [← List.append_nil as]
  exact hr.bind hf

/-- A value that is settled can be changed by `g` without more bytes. -/
theorem Settles.map {r : Reader ε α} {as : List UInt8} {x : Option α} (g : α → β)
    (hr : r.Settles as x) : (r >>= fun a => pure (g a)).Settles as (x.map g) := by
  rw [Option.map_eq_bind]
  exact hr.last fun a => reads_pure (g a)

/-! ### Parts that need no bytes -/

/-- `ofExcept` takes no bytes and yields the value, if there is one. -/
theorem settles_ofExcept (x : Except ε α) : (ofExcept x).Settles [] x.toOption := by
  cases x with
  | ok a => exact reads_ofExcept a
  | error e => exact fun c _ _ => ⟨⟨c.pos, e⟩, rfl⟩

/-- `mapCause` changes nothing of what is settled, only how a failure is told. -/
theorem Settles.mapCause {r : Reader ε α} {bs : List UInt8} {x : Option α} (f : ε → ε)
    (hr : r.Settles bs x) : (r.mapCause f).Settles bs x := by
  cases x with
  | some a => exact Reads.mapCause f hr
  | none =>
    intro c rest hc
    obtain ⟨e, he⟩ := hr hc
    exact ⟨{ e with cause := f e.cause }, by rw [Reader.mapCause, he]; rfl⟩

/-- `inside` is settled by what the stretch holds that was taken off before. -/
theorem settles_inside (body : List UInt8) (r : Reader ε α) :
    (inside body r).Settles [] (r.value? body) := by
  cases h : r (.ofBytes body) with
  | error e =>
    rw [value?, h]
    exact fun c _ _ => ⟨⟨c.pos, e.cause⟩, by rw [inside, h]⟩
  | ok p =>
    rw [value?, h]
    exact fun c _ _ => ⟨c, by rw [inside, h], Cursor.Past.refl c⟩

/-! ### Repetition -/

/-- `repeatFrom` settles items one by one, as `List.mapM` does: one that fails makes the whole fail. -/
private theorem settles_repeatFrom {r : Nat → Reader ε α} {f : β → List UInt8} {g : β → Option α} {xs : List β}
    (h : ∀ x ∈ xs, ∀ i, (r i).Settles (f x) (g x)) (i : Nat) (before : List α) :
    (repeatFrom r i before xs.length).Settles (xs.flatMap f)
      ((xs.mapM g).map (before.reverse ++ ·)) := by
  induction xs generalizing i before with
  | nil =>
    rw [List.mapM_nil]
    exact reads_repeatFrom .nil i before
  | cons x xs ih =>
    rw [List.length_cons, repeatFrom_succ, List.flatMap_cons, List.mapM_cons]
    have hrest := fun a => ih (fun y hy => h y (List.mem_cons_of_mem x hy)) (i + 1) (a :: before)
    -- the first result goes to those before, or there is none of all
    have hmap : ((do let a ← g x; let as ← xs.mapM g; pure (a :: as)) : Option (List α)).map
        (before.reverse ++ ·) = (g x).bind fun a => (xs.mapM g).map ((a :: before).reverse ++ ·) := by
      cases g x with
      | none => rfl
      | some a => cases xs.mapM g <;> simp
    rw [hmap]
    exact (h x List.mem_cons_self i).bind hrest

/-- `times` settles its items as `List.mapM` does. -/
theorem settles_times {r : Nat → Reader ε α} {f : β → List UInt8} {g : β → Option α} {xs : List β}
    (h : ∀ x ∈ xs, ∀ i, (r i).Settles (f x) (g x)) :
    (times xs.length r).Settles (xs.flatMap f) (xs.mapM g) := by
  have hrepeat := settles_repeatFrom h 0 []
  rwa [show (([] : List α).reverse ++ ·) = id from rfl, Option.map_id] at hrepeat

end CallAtlas.Reader
