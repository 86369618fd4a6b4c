import CallAtlas.Proofs.Bytes.InPlace

/-!
# Cursors as streams

A cursor stands for a stream: its bytes with its position (`Cursor.stream`). Each operation of cursors
does to that stream what the same request does in place, and where it yields no cursor the request
leaves the stream alone (`Request.agrees`). So a cursor that takes one request after the other, and is
kept where a request fails, goes where the stream goes (`after_stream`).
-/

namespace CallAtlas

namespace Cursor

variable {c c' : Cursor} {bs : List UInt8}

/-- The stream that a cursor stands for. -/
def stream (c : Cursor) : ByteStream :=
  ⟨c.data, c.pos⟩

/-- The `data` of a cursor are the bytes it has passed and those of its `rest`. -/
theorem length_data (c : Cursor) : c.data.length = c.pos + c.rest.length := by
  rw [data, List.length_append, List.length_reverse, c.pos_eq]

/-- The `stream` of a cursor stands inside the cursor's own bytes. -/
private theorem inside_stream (c : Cursor) : c.stream.Inside c.data := by
  refine ⟨rfl, Int.natCast_nonneg c.pos, ?_⟩
  show (c.pos : Int) ≤ c.data.length
  rw [length_data]
  omega

/-- Passing bytes does not change the `data` of a cursor. -/
theorem Past.data_eq (h : c.Past bs c') : c'.data = c.data := by
  simp [data, h.passed_eq, h.rest_eq]

/-- The bytes between two cursors are the `extract` between their positions. -/
private theorem Past.extract_eq (h : c.Past bs c') : c.data.extract c.pos c'.pos = bs := by
  have hdrop : c.data.drop c.pos = c.rest := by
    rw [data, c.pos_eq, ← List.length_reverse, List.drop_left]
  rw [List.extract_eq_take_drop, hdrop, h.pos_eq, Nat.add_sub_cancel_left, h.rest_eq, List.take_left]

/-- Passing bytes adds their number to the position of the `stream`. -/
private theorem Past.stream_eq (h : c.Past bs c') :
    c'.stream = { c.stream with pos := c.pos + bs.length } := by
  simp only [stream, h.data_eq, h.pos_eq, Int.natCast_add]

/-- `forward?` fails exactly if fewer than `n` bytes follow. -/
private theorem forward?_eq_none_iff {n : Nat} : c.forward? n = none ↔ c.data.length < c.pos + n := by
  rw [length_data]
  constructor
  · intro hnone
    by_contra hlong
    -- with enough bytes ahead the cursor can be moved behind the first `n` of them
    have hrest := (List.take_append_drop n c.rest).symm
    obtain ⟨c', hsome, -⟩ := forward?_of_rest hrest
    rw [List.length_take_of_le (by omega), hnone] at hsome
    cases hsome
  · intro hshort
    cases hf : c.forward? n with
    | none => rfl
    | some c' =>
      obtain ⟨bs, rfl, hpast⟩ := past_of_forward? hf
      have := congrArg List.length hpast.rest_eq
      rw [List.length_append] at this
      omega

/-- `backward` changes the position of the `stream` and leaves its bytes as they are. -/
private theorem stream_backward {n : Nat} (h : n ≤ c.pos) :
    (c.backward n).stream = { c.stream with pos := c.pos - n } := by
  induction n generalizing c with
  | zero => simp [backward, stream]
  | succ n ih =>
    obtain ⟨passed, rest, k, hk⟩ := c
    cases passed with
    | nil =>
      -- there is nothing to go back to, which `h` excludes
      have : k = 0 := hk
      simp only [this] at h
      omega
    | cons b passed =>
      have hk' : k = passed.length + 1 := hk
      have hn : n ≤ k - 1 := by simp only at h; omega
      rw [backward, ih hn]
      simp only [stream, data, List.reverse_cons, List.append_assoc, List.singleton_append,
        ByteStream.mk.injEq, true_and]
      omega

/-- What a move in place comes to, `c` being the cursor before: after a failure it is still there. -/
def settled (c : Cursor) : Except Fault Cursor → EStateM.Result Fault ByteStream Unit
  | .ok c' => .ok () c'.stream
  | .error f => .error f c.stream

/-- Moving a cursor on by `forward?` is adding to the position of its `stream`. -/
private theorem settled_forward? (n : Nat) (f : Fault) (c : Cursor) :
    settled c ((c.forward? n).elim (.error f) .ok) =
      if c.data.length < c.pos + n then .error f c.stream
      else .ok () { c.stream with pos := c.pos + n } := by
  cases hf : c.forward? n with
  | none => rw [if_pos (forward?_eq_none_iff.1 hf)]; rfl
  | some c' =>
    -- a cursor that moves finds as many bytes as it needs
    have hin : ¬ c.data.length < c.pos + n := by
      rw [← forward?_eq_none_iff, hf]
      exact Option.some_ne_none c'
    obtain ⟨bs, rfl, hpast⟩ := past_of_forward? hf
    rw [if_neg hin, ← hpast.stream_eq]
    rfl

/-- `ByteStream.skip` does in place what `skip` does to the cursor. -/
theorem run_skip_stream (n : Int) (c : Cursor) :
    (ByteStream.skip n).run c.stream = settled c (c.skip n) := by
  rw [ByteStream.run_skip]
  cases n with
  -- both refuse a negative number
  | negSucc n => rw [if_pos (.inl (Int.negSucc_lt_zero n))]; rfl
  | ofNat n =>
    show _ = settled c ((c.forward? n).elim (.error .endOfData) .ok)
    rw [settled_forward?]
    refine if_congr ?_ rfl rfl
    show ((n : Int) < 0 ∨ (c.data.length : Int) < c.pos + n) ↔ _
    omega

/-- `ByteStream.seek` does in place what `seek` does to the cursor. -/
private theorem run_seek_stream (p : Int) (c : Cursor) :
    (ByteStream.seek p).run c.stream = settled c (c.seek p) := by
  rw [ByteStream.run_seek]
  have hlength := c.length_data
  cases p with
  -- a negative position is refused by both
  | negSucc p => rw [if_pos (.inl (Int.negSucc_lt_zero p))]; rfl
  | ofNat p =>
    -- backward nothing can go wrong, forward the bytes may run out
    show (if (p : Int) < 0 ∨ (c.data.length : Int) < p then _ else _) = settled c (c.seek (p : Int))
    by_cases hback : p < c.pos
    · have hseek : c.seek (p : Int) = .ok (c.backward (c.pos - p)) := if_pos hback
      rw [hseek, if_neg (by omega)]
      show _ = EStateM.Result.ok () (c.backward (c.pos - p)).stream
      rw [stream_backward (Nat.sub_le c.pos p)]
      have hpos : (p : Int) = c.pos - (c.pos - p : Nat) := by omega
      rw [← hpos]
      rfl
    · have hseek : c.seek (p : Int) = (c.forward? (p - c.pos)).elim (.error .outOfRange) .ok :=
        if_neg hback
      have hpos : (c.pos : Int) + (p - c.pos : Nat) = p := by omega
      rw [hseek, settled_forward?, hpos]
      refine if_congr ?_ rfl rfl
      omega

/-- `ByteStream.align` does in place what `align` does to the cursor. -/
private theorem run_align_stream (a : Int) (c : Cursor) :
    (ByteStream.align a).run c.stream = settled c (c.align a) := by
  rw [ByteStream.run_align, align]
  show (if 0 < a ∧ (c.pos : Int) % a ≠ 0 then _ else _) = _
  -- a size that is not positive asks for nothing on either side
  by_cases ha : a ≤ 0
  · rw [if_neg (by omega), if_pos ha]
    rfl
  · obtain ⟨k, rfl⟩ := Int.eq_ofNat_of_zero_le (show 0 ≤ a by omega)
    have hlt : c.pos % k < k := Nat.mod_lt _ (by omega)
    rw [if_neg ha, Int.toNat_natCast, ← Int.natCast_mod]
    by_cases hzero : c.pos % k = 0
    · rw [if_neg (by omega), if_pos hzero]
      rfl
    · -- the cursor counts what is missing in natural numbers, the stream in integers
      have hmissing : (k : Int) - (c.pos % k : Nat) = (k - c.pos % k : Nat) := by omega
      rw [if_pos (by omega), if_neg hzero, ← run_skip_stream, ← hmissing, Int.natCast_mod]
      rfl

/-- The bytes that `bytes` reads are those between the positions. -/
private theorem bytes_eq (n : Int) (c : Cursor) :
    c.bytes n = (c.skip n).map fun c' => (c.data.extract c.pos c'.pos, c') := by
  rw [bytes]
  cases hskip : c.skip n with
  | error f => rfl
  | ok c' =>
    obtain ⟨bs, rfl, hpast⟩ := past_of_skip hskip
    have htake : c.rest.take bs.length = bs := by rw [hpast.rest_eq, List.take_left]
    simp only [Except.map, Int.toNat_natCast, htake, hpast.extract_eq]

/-- `bigEndian` folds from the most significant byte, `unsigned` sums digits from the least: both are one
    number. -/
private theorem bigEndian_eq_unsigned (bs : List UInt8) : bigEndian bs = ByteStream.unsigned bs := by
  -- the digit that comes last in the bytes is the first of the number
  induction bs using List.reverseRecOn with
  | nil => rfl
  | append_singleton bs b ih =>
    rw [bigEndian_append_singleton, ih, ByteStream.unsigned, ByteStream.unsigned, List.reverse_append,
      List.reverse_singleton, List.singleton_append, List.map_cons, Nat.ofDigits_cons]
    omega

/-- `signed` takes a word to the number in its range that is left by whole turns. -/
private theorem signed_eq_bmod {bits v : Nat} (h : v < 2 ^ (bits + 1)) :
    signed (bits + 1) v = (v : Int).bmod (2 ^ (bits + 1)) := by
  have hsigned : signed (bits + 1) v = if v < 2 ^ bits then (v : Int) else v - (2 ^ (bits + 1) : Nat) :=
    rfl
  rw [hsigned, Int.bmod_def, ← Int.natCast_mod, Nat.mod_eq_of_lt h, Nat.pow_succ]
  generalize 2 ^ bits = half
  split <;> split <;> omega

/-- A word is read as the `unsigned` number of its bytes. -/
theorem word_map_cast (k : Nat) (c : Cursor) :
    (c.word k).map (Prod.map Nat.cast id) =
      (c.bytes k).map (Prod.map (fun bs => (ByteStream.unsigned bs : Int)) id) := by
  rw [word]
  cases c.bytes k with
  | error f => rfl
  | ok p => simp only [Except.map, Prod.map, bigEndian_eq_unsigned]

/-- A signed word is read as the `twosComplement` number of its bytes. -/
private theorem word_map_signed {k bits : Nat} (hbits : 2 ^ (bits + 1) = 256 ^ k) (c : Cursor) :
    ((c.word k).map fun p => (signed (bits + 1) p.1, p.2)) =
      (c.bytes k).map (Prod.map ByteStream.twosComplement id) := by
  rw [word]
  cases hbytes : c.bytes k with
  | error f => rfl
  | ok p =>
    have hlength : p.1.length = k := by exact_mod_cast (past_of_bytes hbytes).1
    -- the value is below `256 ^ k`, which is where `signed` and `bmod` agree
    have hlt := bigEndian_lt p.1
    rw [hlength, ← hbits] at hlt
    have hvalue : signed (bits + 1) (bigEndian p.1) = ByteStream.twosComplement p.1 := by
      rw [signed_eq_bmod hlt, bigEndian_eq_unsigned, hbits, ← hlength]
      rfl
    simp only [Except.map, Prod.map, hvalue, id]

end Cursor

namespace ByteStream

/-! ### Requests to cursors -/

/-- Reads a word off a cursor. -/
def Word.read (c : Cursor) : Word → Except Cursor.Fault (Int × Cursor)
  | byte => c.u8.map (Prod.map Nat.cast id)
  | u8 => c.u8.map (Prod.map Nat.cast id)
  | u16 => c.u16.map (Prod.map Nat.cast id)
  | i16 => c.i16
  | u32 => c.u32.map (Prod.map Nat.cast id)
  | i32 => c.i32

namespace Request

/-- What a request to a cursor comes to. -/
def outcome (c : Cursor) : Request → Except Cursor.Fault (Answer × Cursor)
  | word w => (w.read c).map (Prod.map .number id)
  | bytes n => (c.bytes n).map (Prod.map .bytes id)
  | align a => (c.align a).map (Prod.mk .done)
  | skip n => (c.skip n).map (Prod.mk .done)
  | seek p => (c.seek p).map (Prod.mk .done)

/-- The cursor that is in force after a request: that of before, if it fails. -/
def onward (r : Request) (c : Cursor) : Cursor :=
  match r.outcome c with
  | .ok p => p.2
  | .error _ => c

/-- The move that a request asks of a cursor. -/
def moved (c : Cursor) : Request → Except Cursor.Fault Cursor
  | word w => c.skip w.size
  | bytes n => c.skip n
  | align a => c.align a
  | skip n => c.skip n
  | seek p => c.seek p

end Request

/-- The cursor that is in force after a list of requests. -/
def cursorAfter (c : Cursor) (rs : List Request) : Cursor :=
  rs.foldl (fun c r => r.onward c) c

/-- `Word.read` reads as many bytes as the word has and takes their `value`. -/
private theorem Word.read_eq (w : Word) (c : Cursor) :
    w.read c = (c.bytes w.size).map (Prod.map w.value id) := by
  cases w with
  | byte => exact Cursor.word_map_cast 1 c
  | u8 => exact Cursor.word_map_cast 1 c
  | u16 => exact Cursor.word_map_cast 2 c
  | i16 => exact Cursor.word_map_signed (by decide) c
  | u32 => exact Cursor.word_map_cast 4 c
  | i32 => exact Cursor.word_map_signed (by decide) c

namespace Request

/-- The answer of `outcome` is made of the bytes that the move has passed. -/
private theorem outcome_eq (r : Request) (c : Cursor) :
    r.outcome c = (r.moved c).map fun c' => (r.reply (c.data.extract c.pos c'.pos), c') := by
  -- only words and bytes are read, and both by a skip
  cases r with
  | word w =>
    rw [outcome, Word.read_eq, Cursor.bytes_eq, moved]
    cases c.skip w.size <;> rfl
  | bytes n =>
    rw [outcome, Cursor.bytes_eq, moved]
    cases c.skip n <;> rfl
  | align a => rfl
  | skip n => rfl
  | seek p => rfl

/-- `move` does in place what `moved` does to the cursor. -/
private theorem run_move_stream (r : Request) (c : Cursor) :
    r.move.run c.stream = c.settled (r.moved c) := by
  cases r with
  | word w => exact c.run_skip_stream w.size
  | bytes n => exact c.run_skip_stream n
  | align a => exact c.run_align_stream a
  | skip n => exact c.run_skip_stream n
  | seek p => exact c.run_seek_stream p

/-- A cursor and its `stream` answer a request alike and go on alike. -/
theorem agrees (r : Request) (c : Cursor) :
    r.answer c.stream = (r.outcome c).map Prod.fst ∧ r.next c.stream = (r.onward c).stream := by
  have hrun := r.run_move_stream c
  have houtcome := r.outcome_eq c
  cases hmoved : r.moved c with
  | error f =>
    -- a cursor that fails is kept, and the stream has not moved
    rw [hmoved] at hrun houtcome
    rw [onward, houtcome]
    exact of_move_error hrun
  | ok c' =>
    rw [hmoved] at hrun houtcome
    obtain ⟨hanswer, hnext⟩ := of_move_ok hrun
    -- the stream answers with bytes of the new cursor, which has the bytes of the old one
    have hdata := (hnext ▸ r.inside_next c.inside_stream).data_eq
    rw [hdata] at hanswer
    rw [onward, houtcome]
    exact ⟨hanswer, hnext⟩

end Request

/-- After any list of requests the stream is the `stream` of the cursor that took the same requests. -/
theorem after_stream (c : Cursor) (rs : List Request) :
    c.stream.after rs = (cursorAfter c rs).stream := by
  induction rs generalizing c with
  | nil => rfl
  | cons r rs ih =>
    show (r.next c.stream).after rs = _
    rw [(r.agrees c).2]
    exact ih (r.onward c)

/-- Whatever was asked of a stream before, a request leaves its position among the bytes. A failed request
    leaves it where it was; a successful one leads where `Leads` says, and its answer is the `reply` made of the
    bytes that it has passed. It fails exactly if it `Overreaches`. Arguments are integers of any size and sign.
    Cursors answer the same and stand at the same positions. -/
theorem requests_keep_to_data (data : List UInt8) (before : List Request) (r : Request) :
    let s := after ⟨data, 0⟩ before
    let s' := r.next s
    let c := cursorAfter (.ofBytes data) before
    (s'.data = data ∧ 0 ≤ s'.pos ∧ s'.pos ≤ data.length) ∧
    (∀ f, r.answer s = .error f → s'.pos = s.pos) ∧
    (∀ a, r.answer s = .ok a →
      r.Leads s.pos s'.pos ∧ a = r.reply (data.extract s.pos.toNat s'.pos.toNat)) ∧
    (∀ f, r.answer s = .error f ↔ r.Overreaches data s.pos ∧ f = r.fault) ∧
    (s = c.stream ∧ s' = (r.onward c).stream ∧ r.answer s = (r.outcome c).map Prod.fst) := by
  intro s s' c
  have hstart : Inside data ⟨data, 0⟩ := ⟨rfl, Int.le_refl 0, Int.natCast_nonneg data.length⟩
  -- the run lemma gives the stream before the request, the step lemma the request itself
  have hinside : s.Inside data := inside_after hstart before
  have hstream : s = c.stream := after_stream (.ofBytes data) before
  obtain ⟨hanswer, hnext⟩ := r.agrees c
  rw [← hstream] at hanswer hnext
  obtain ⟨hdata, hnonneg, hle⟩ := r.inside_next hinside
  refine ⟨⟨hdata, hnonneg, hle⟩, ?_, ?_, ?_, hstream, hnext, hanswer⟩
  · intro f hf
    exact congrArg pos (Request.next_of_answer_error hinside hf)
  · intro a ha
    exact Request.leads_of_answer_ok hinside ha
  · intro f
    exact Request.answer_eq_error_iff hinside

/-- `requests_keep_to_data` where one byte is left: a word of two fails and the position stays before that byte.
    From position 1 in eight bytes an alignment leads to the next multiple of four. -/
theorem requests_at_last_byte :
    (Request.word .u16).answer (after ⟨[0xff, 0xfe, 7], 0⟩ [.word .i16]) = .error .endOfData ∧
      ((Request.word .u16).next (after ⟨[0xff, 0xfe, 7], 0⟩ [.word .i16])).pos = 2 ∧
      (Request.align 4).answer (after ⟨List.replicate 8 0, 0⟩ [.skip 1]) = .ok .done ∧
      IsLeast {m : Int | 4 ∣ m ∧ 1 ≤ m}
        ((Request.align 4).next (after ⟨List.replicate 8 0, 0⟩ [.skip 1])).pos := by
  have herror : (Request.word .u16).answer (after ⟨[0xff, 0xfe, 7], 0⟩ [.word .i16]) =
      .error .endOfData := rfl
  have hdone : (Request.align 4).answer (after ⟨List.replicate 8 0, 0⟩ [.skip 1]) = .ok .done := rfl
  refine ⟨herror, ?_, hdone, ?_⟩
  · exact (requests_keep_to_data [0xff, 0xfe, 7] [.word .i16] (.word .u16)).2.1 .endOfData herror
  · exact ((requests_keep_to_data (List.replicate 8 0) [.skip 1] (.align 4)).2.2.1 .done hdone).1.1
      (by decide)

end ByteStream
end CallAtlas
