import Mathlib.Data.Nat.Digits.Defs
import Mathlib.Order.Bounds.Defs
import CallAtlas.Proofs.Bytes.Steps

/-!
# Streams that are read in place

A cursor that cannot do what it is asked yields no cursor, so that nothing can have changed. A stream
that is read in place has no such safety: a request that fails half way could leave it elsewhere, and
nothing but the requests keeps its position among the bytes. Here a `ByteStream` has an integer for its
position, and requests are carried out in place (`Edit`).

What a request may do is said by positions and bytes alone: `Request.Overreaches` (when it fails),
`Request.Leads` (where it leaves the stream) and `Request.reply` (what it answers). `Request.next_cases`
is what one request does, and `inside_after` what holds after any list of them.
-/

namespace CallAtlas

/-- A byte string and the position where reading goes on. -/
structure ByteStream where
  data : List UInt8
  pos : Int

namespace ByteStream

/-! ### Requests -/

/-- The number that bytes stand for, the most significant first. -/
def unsigned (bs : List UInt8) : Nat :=
  Nat.ofDigits 256 (bs.reverse.map UInt8.toNat)

/-- The number that bytes stand for in two's complement. -/
def twosComplement (bs : List UInt8) : Int :=
  (unsigned bs : Int).bmod (256 ^ bs.length)

/-- The words that can be read off a stream. -/
inductive Word where
  | byte | u8 | u16 | i16 | u32 | i32
  deriving DecidableEq, Repr

namespace Word

/-- How many bytes a word has. -/
def size : Word → Nat
  | byte | u8 => 1
  | u16 | i16 => 2
  | u32 | i32 => 4

/-- The value of the bytes of a word. -/
def value (bs : List UInt8) : Word → Int
  | byte | u8 | u16 | u32 => unsigned bs
  | i16 | i32 => twosComplement bs

end Word

/-- What a stream can be asked for. -/
inductive Request where
  | word (w : Word)
  | bytes (n : Int)
  | align (a : Int)
  | skip (n : Int)
  | seek (p : Int)
  deriving DecidableEq, Repr

/-- What a stream answers. -/
inductive Answer where
  | done
  | number (v : Int)
  | bytes (bs : List UInt8)
  deriving DecidableEq, Repr

namespace Request

/-- Carried out at position `p`, the request would leave the bytes. -/
def Overreaches (data : List UInt8) (p : Int) : Request → Prop
  | word w => data.length < p + w.size
  | bytes n => n < 0 ∨ data.length < p + n
  | align a => 0 < a ∧ ∀ m, a ∣ m → p ≤ m → data.length < m
  | skip n => n < 0 ∨ data.length < p + n
  | seek m => m < 0 ∨ data.length < m

/-- The fault of a request that would leave the bytes. -/
def fault : Request → Cursor.Fault
  | seek _ => .outOfRange
  | _ => .endOfData

/-- The request leads from position `p` to position `q`. -/
def Leads (p q : Int) : Request → Prop
  | word w => q = p + w.size
  | bytes n => q = p + n
  | align a => (0 < a → IsLeast {m | a ∣ m ∧ p ≤ m} q) ∧ (a ≤ 0 → q = p)
  | skip n => q = p + n
  | seek m => q = m

/-- The answer to a request that has passed the bytes `bs`. -/
def reply (bs : List UInt8) : Request → Answer
  | word w => .number (w.value bs)
  | bytes _ => .bytes bs
  | _ => .done

end Request

/-! ### Changes in place -/

/-- A change in place: what it did before it fails stays done. -/
abbrev Edit : Type → Type :=
  EStateM Cursor.Fault ByteStream

/-- Moves the position on. -/
def skip (n : Int) : Edit Unit := do
  let s ← get
  if n < 0 ∨ s.data.length < s.pos + n then throw .endOfData
  set { s with pos := s.pos + n }

/-- Sets the position. -/
def seek (p : Int) : Edit Unit := do
  let s ← get
  if p < 0 ∨ s.data.length < p then throw .outOfRange
  set { s with pos := p }

/-- Moves the position on to a multiple of `a`. A size that is not positive asks for nothing. -/
def align (a : Int) : Edit Unit := do
  let s ← get
  if 0 < a ∧ s.pos % a ≠ 0 then skip (a - s.pos % a)

namespace Request

/-- Moves the position as a request asks. -/
def move : Request → Edit Unit
  | word w => ByteStream.skip w.size
  | bytes n => ByteStream.skip n
  | align a => ByteStream.align a
  | skip n => ByteStream.skip n
  | seek p => ByteStream.seek p

/-- Carries a request out in place. -/
def perform (r : Request) : Edit Answer := do
  let before ← get
  r.move
  let after ← get
  return r.reply (after.data.extract before.pos.toNat after.pos.toNat)

/-- What a stream answers to a request. -/
def answer (r : Request) (s : ByteStream) : Except Cursor.Fault Answer :=
  match r.perform.run s with
  | .ok a _ => .ok a
  | .error f _ => .error f

/-- The stream that a request leaves. -/
def next (r : Request) (s : ByteStream) : ByteStream :=
  match r.perform.run s with
  | .ok _ s' => s'
  | .error _ s' => s'

end Request

/-- The stream that a list of requests leaves. -/
def after (s : ByteStream) (rs : List Request) : ByteStream :=
  rs.foldl (fun s r => r.next s) s

/-- The stream is one over `data`, and its position is among the bytes or at their end. -/
structure Inside (data : List UInt8) (s : ByteStream) : Prop where
  data_eq : s.data = data
  nonneg : 0 ≤ s.pos
  le_length : s.pos ≤ data.length

/-! ### What one request does -/

/-- `skip` fails on a negative number or too few bytes and changes nothing, or else adds to the position. -/
theorem run_skip (n : Int) (s : ByteStream) :
    (skip n).run s =
      if n < 0 ∨ s.data.length < s.pos + n then .error .endOfData s
      else .ok () { s with pos := s.pos + n } := by
  split
  · simp [skip, *]
  · simp [skip, *]

/-- `seek` fails on a position that is not among the bytes and changes nothing, or else goes there. -/
theorem run_seek (p : Int) (s : ByteStream) :
    (seek p).run s =
      if p < 0 ∨ s.data.length < p then .error .outOfRange s else .ok () { s with pos := p } := by
  split
  · simp [seek, *]
  · simp [seek, *]

/-- `align` skips what is missing to a multiple of `a`, if anything is. -/
theorem run_align (a : Int) (s : ByteStream) :
    (align a).run s =
      if 0 < a ∧ s.pos % a ≠ 0 then (skip (a - s.pos % a)).run s else .ok () s := by
  rw [align, EStateM.run_bind, EStateM.run_get]
  show EStateM.run (if 0 < a ∧ s.pos % a ≠ 0 then skip (a - s.pos % a) else pure ()) s = _
  split
  · rfl
  · rfl

/-- A position on a multiple of `a` is the least one from there on. -/
private theorem isLeast_self {a p : Int} (h : a ∣ p) : IsLeast {m | a ∣ m ∧ p ≤ m} p :=
  ⟨⟨h, Int.le_refl p⟩, fun _ hm => hm.2⟩

/-- What is missing to the next multiple of `a` leads to the least one that is not below. -/
private theorem isLeast_aligned {a p : Int} (ha : 0 < a) (h : p % a ≠ 0) :
    IsLeast {m | a ∣ m ∧ p ≤ m} (p + (a - p % a)) := by
  have hnonneg := Int.emod_nonneg p (Int.ne_of_gt ha)
  have hlt := Int.emod_lt_of_pos p ha
  have hdvd : a ∣ p + (a - p % a) := by
    rw [show p + (a - p % a) = p - p % a + a by omega]
    exact Int.dvd_add Int.dvd_self_sub_emod (Int.dvd_refl a)
  refine ⟨⟨hdvd, by omega⟩, ?_⟩
  rintro m ⟨hm, hle⟩
  -- two multiples that are less than `a` apart
  by_contra hbelow
  have := Int.le_of_dvd (by omega) (Int.dvd_sub hdvd hm)
  omega

namespace Request

variable {data : List UInt8} {s s' : ByteStream} {r : Request}

/-- What a request can do to the position: it would leave the bytes, fails and changes nothing, or it leads
    where it should and stays among the bytes. -/
def Behaves (data : List UInt8) (s : ByteStream) (r : Request) : Prop :=
  r.Overreaches data s.pos ∧ r.move.run s = .error r.fault s ∨
    ¬ r.Overreaches data s.pos ∧
      ∃ s', r.move.run s = .ok () s' ∧ s'.Inside data ∧ r.Leads s.pos s'.pos

/-- A request `Behaves` that asks to move the position `n` bytes on. -/
theorem behaves_of_skip {n : Int} (h : s.Inside data) (hmove : r.move.run s = (ByteStream.skip n).run s)
    (hover : r.Overreaches data s.pos ↔ n < 0 ∨ data.length < s.pos + n) (hfault : r.fault = .endOfData)
    (hleads : r.Leads s.pos (s.pos + n)) : Behaves data s r := by
  -- a negative `n` is refused, so a served request never goes below the old position
  obtain ⟨rfl, hnonneg, hle⟩ := h
  rw [Behaves, hover, hmove, hfault, run_skip]
  by_cases hout : n < 0 ∨ s.data.length < s.pos + n
  · exact .inl ⟨hout, if_pos hout⟩
  · refine .inr ⟨hout, _, if_neg hout, ⟨rfl, ?_, ?_⟩, hleads⟩
    · show 0 ≤ s.pos + n
      omega
    · show s.pos + n ≤ s.data.length
      omega

/-- A request for a position `Behaves`. -/
private theorem behaves_seek (p : Int) (h : s.Inside data) : Behaves data s (seek p) := by
  obtain ⟨rfl, -, -⟩ := h
  have hrun : (seek p).move.run s = _ := run_seek p s
  -- positions from the first byte to behind the last one
  by_cases hout : p < 0 ∨ s.data.length < p
  · exact .inl ⟨hout, hrun.trans (if_pos hout)⟩
  · refine .inr ⟨hout, _, hrun.trans (if_neg hout), ⟨rfl, ?_, ?_⟩, rfl⟩
    · show 0 ≤ p
      omega
    · show p ≤ s.data.length
      omega

/-- An alignment `Overreaches` if the least multiple lies behind the bytes. -/
private theorem overreaches_align_iff {a p q : Int} (ha : 0 < a) (hq : IsLeast {m | a ∣ m ∧ p ≤ m} q) :
    (align a).Overreaches data p ↔ data.length < q := by
  constructor
  · rintro ⟨-, hall⟩
    exact hall q hq.1.1 hq.1.2
  · intro hlt
    exact ⟨ha, fun m hdvd hle => Int.lt_of_lt_of_le hlt (hq.2 ⟨hdvd, hle⟩)⟩

/-- A request for an alignment `Behaves`. -/
private theorem behaves_align (a : Int) (h : s.Inside data) : Behaves data s (align a) := by
  have hrun : (align a).move.run s = _ := run_align a s
  by_cases hmove : 0 < a ∧ s.pos % a ≠ 0
  · -- the stream is asked to skip what is missing to the next multiple
    have hleast := isLeast_aligned hmove.1 hmove.2
    have hlt := Int.emod_lt_of_pos s.pos hmove.1
    refine behaves_of_skip h (hrun.trans (if_pos hmove)) ?_ rfl ⟨fun _ => hleast, fun hle => ?_⟩
    · rw [overreaches_align_iff hmove.1 hleast]
      omega
    · omega
  · -- nothing is asked for, or nothing is missing
    have hleast : 0 < a → IsLeast {m | a ∣ m ∧ s.pos ≤ m} s.pos := by
      intro ha
      exact isLeast_self (Int.dvd_of_emod_eq_zero (by tauto))
    refine .inr ⟨?_, s, hrun.trans (if_neg hmove), h, hleast, fun _ => rfl⟩
    intro hover
    have hlt := (overreaches_align_iff hover.1 (hleast hover.1)).1 hover
    have hle := h.le_length
    omega

/-- Every request `Behaves` on a stream whose position is among the bytes. -/
theorem behaves (r : Request) (h : s.Inside data) : Behaves data s r := by
  cases r with
  | word w => exact behaves_of_skip h rfl (by simp only [Overreaches]; omega) rfl rfl
  | bytes n => exact behaves_of_skip h rfl Iff.rfl rfl rfl
  | align a => exact behaves_align a h
  | skip n => exact behaves_of_skip h rfl Iff.rfl rfl rfl
  | seek p => exact behaves_seek p h

/-! ### What is answered, and what is left -/

/-- `perform` moves and then makes its answer, with the old position at hand. -/
theorem run_perform (r : Request) (s : ByteStream) :
    r.perform.run s =
      (r.move >>= fun _ => do
        let after ← get
        return r.reply (after.data.extract s.pos.toNat after.pos.toNat)).run s :=
  rfl

/-- Where the move succeeds, the answer is the `reply` made of the bytes between the positions. -/
theorem of_move_ok (h : r.move.run s = .ok () s') :
    r.answer s = .ok (r.reply (s'.data.extract s.pos.toNat s'.pos.toNat)) ∧ r.next s = s' := by
  have hrun : r.perform.run s = .ok (r.reply (s'.data.extract s.pos.toNat s'.pos.toNat)) s' := by
    rw [run_perform, EStateM.run_bind, h]
    rfl
  simp only [answer, next, hrun, and_self]

/-- Where the move fails, so does the request, and it leaves what the move has left. -/
theorem of_move_error {f : Cursor.Fault} (h : r.move.run s = .error f s') :
    r.answer s = .error f ∧ r.next s = s' := by
  -- the stream that the move leaves is the one that stays, nothing is put back
  have hrun : r.perform.run s = .error f s' := by
    rw [run_perform, EStateM.run_bind, h]
  simp only [answer, next, hrun, and_self]

/-- A request fails without a trace if it `Overreaches`. Otherwise it leads where it should, and its answer is
    made of the bytes that it has passed. -/
theorem next_cases (r : Request) (h : s.Inside data) :
    r.Overreaches data s.pos ∧ r.answer s = .error r.fault ∧ r.next s = s ∨
      ¬ r.Overreaches data s.pos ∧ (r.next s).Inside data ∧ r.Leads s.pos (r.next s).pos ∧
        r.answer s = .ok (r.reply (data.extract s.pos.toNat (r.next s).pos.toNat)) := by
  rcases r.behaves h with ⟨hover, hmove⟩ | ⟨hover, s', hmove, hinside, hleads⟩
  · exact .inl ⟨hover, of_move_error hmove⟩
  · obtain ⟨hanswer, rfl⟩ := of_move_ok hmove
    rw [hinside.data_eq] at hanswer
    exact .inr ⟨hover, hinside, hleads, hanswer⟩

/-- A request leaves the stream `Inside` its bytes, whether it fails or not. -/
theorem inside_next (r : Request) (h : s.Inside data) : (r.next s).Inside data := by
  rcases r.next_cases h with ⟨-, -, hnext⟩ | ⟨-, hinside, -⟩
  · rwa [hnext]
  · exact hinside

/-- A request fails exactly if it `Overreaches`, and then with its own `fault`. -/
theorem answer_eq_error_iff (h : s.Inside data) {f : Cursor.Fault} :
    r.answer s = .error f ↔ r.Overreaches data s.pos ∧ f = r.fault := by
  rcases r.next_cases h with ⟨hover, hanswer, -⟩ | ⟨hover, -, -, hanswer⟩
  · rw [hanswer, Except.error.injEq]
    exact ⟨fun hf => ⟨hover, hf.symm⟩, fun hf => hf.2.symm⟩
  · simp [hanswer, hover]

/-- A request that fails leaves the stream as it was. -/
theorem next_of_answer_error (h : s.Inside data) {f : Cursor.Fault} (hf : r.answer s = .error f) :
    r.next s = s := by
  rcases r.next_cases h with ⟨-, -, hnext⟩ | ⟨hover, -⟩
  · exact hnext
  · exact absurd ((answer_eq_error_iff h).1 hf).1 hover

/-- A request that succeeds goes where `Leads` says and answers with the `reply` made of the bytes it has
    passed. -/
theorem leads_of_answer_ok (h : s.Inside data) {a : Answer} (ha : r.answer s = .ok a) :
    r.Leads s.pos (r.next s).pos ∧ a = r.reply (data.extract s.pos.toNat (r.next s).pos.toNat) := by
  rcases r.next_cases h with ⟨-, hanswer, -⟩ | ⟨-, -, hleads, hanswer⟩
  · rw [hanswer] at ha
    cases ha
  · rw [hanswer, Except.ok.injEq] at ha
    exact ⟨hleads, ha.symm⟩

end Request

/-- Any list of requests leaves the stream `Inside` its bytes. -/
theorem inside_after {data : List UInt8} {s : ByteStream} (h : s.Inside data) (rs : List Request) :
    (s.after rs).Inside data := by
  induction rs generalizing s with
  | nil => exact h
  -- `inside_next` is the step: each request starts from a stream inside the bytes
  | cons r rs ih => exact ih (r.inside_next h)

end ByteStream
end CallAtlas
