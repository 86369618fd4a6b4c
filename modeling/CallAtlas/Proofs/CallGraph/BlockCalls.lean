import CallAtlas.CallGraph.Flow
import CallAtlas.Proofs.Bytecode.Blocks

/-!
# Calls in their blocks

The blocks of a method share out its calls: put together in the order of the blocks they are the calls of
the instructions in their order (`callWalk`), and each of them is made by an instruction of its block.

The argument goes along the starts of the blocks, as the cut into blocks does: the first block takes the
instructions up to the next start, and the others share out those that are left.
-/

namespace CallAtlas.CallGraph

open Bytecode

variable {calls : Int → Option (List String)} {is : List Instruction}

/-- The calls of instructions one after the other: each that stands at a recorded position calls the methods
    recorded there, or goes by its own name if there are none. -/
def callWalk (calls : Int → Option (List String)) (is : List Instruction) : List BlockCall :=
  is.zipIdx.flatMap fun p => (calls p.1.offset).elim [] fun callees =>
    (if callees.isEmpty then [p.1.mnemonic] else callees).map (BlockCall.mk p.2)

/-! ### The calls of a stretch of instructions -/

/-- `callsOf` an instruction, with both kinds of recorded positions in one form. -/
private theorem callsOf_eq (calls : Int → Option (List String)) (n : Nat) (i : Instruction) :
    callsOf calls n i = (calls i.offset).elim [] fun callees =>
      (if callees.isEmpty then [i.mnemonic] else callees).map (BlockCall.mk n) := by
  unfold callsOf
  rcases calls i.offset with _ | _ | ⟨callee, callees⟩
  · rfl
  · rfl
  · rfl

/-- `callsOf` gives every call the index of its instruction. -/
private theorem index_of_mem_callsOf {n : Nat} {i : Instruction} {c : BlockCall} (h : c ∈ callsOf calls n i) :
    c.index = n := by
  rw [callsOf_eq] at h
  cases hcallees : calls i.offset with
  | none =>
    rw [hcallees] at h
    exact absurd h List.not_mem_nil
  | some callees =>
    rw [hcallees] at h
    obtain ⟨callee, -, rfl⟩ := List.mem_map.1 h
    rfl

/-- `callsFrom` goes over two stretches of instructions one after the other, counting on. -/
private theorem callsFrom_append (n : Nat) (is js : List Instruction) :
    callsFrom calls n (is ++ js) = callsFrom calls n is ++ callsFrom calls (n + is.length) js := by
  induction is generalizing n with
  | nil => rfl
  | cons i is ih =>
    rw [List.cons_append, callsFrom, callsFrom, ih, List.append_assoc, List.length_cons,
      Nat.add_comm is.length 1, Nat.add_assoc]

/-- `callsFrom` puts the calls of all instructions together, each with its index. -/
private theorem callsFrom_eq_flatMap (n : Nat) (is : List Instruction) :
    callsFrom calls n is = (is.zipIdx n).flatMap fun p => callsOf calls p.2 p.1 := by
  induction is generalizing n with
  | nil => rfl
  | cons i is ih => rw [callsFrom, ih, List.zipIdx_cons, List.flatMap_cons]

/-- `callsFrom` the first instruction is `callWalk`. -/
private theorem callsFrom_zero (calls : Int → Option (List String)) (is : List Instruction) :
    callsFrom calls 0 is = callWalk calls is := by
  simp only [callsFrom_eq_flatMap, callsOf_eq]
  rfl

/-- The calls of a stretch have indices within it. -/
private theorem bounds_of_mem_callsFrom {n : Nat} {c : BlockCall} (h : c ∈ callsFrom calls n is) :
    n ≤ c.index ∧ c.index < n + is.length := by
  induction is generalizing n with
  | nil => exact absurd h List.not_mem_nil
  | cons i is ih =>
    rw [List.length_cons]
    -- a call of the first instruction, or of one behind it
    rcases List.mem_append.1 h with h | h
    · have := index_of_mem_callsOf h
      omega
    · have := ih h
      omega

/-! ### Blocks with their calls -/

/-- `flowBlocks` keeps the blocks and only adds calls to them. -/
private theorem map_block_flowBlocks (calls : Int → Option (List String)) (bs : List Block)
    (is : List Instruction) : (flowBlocks calls bs is).map FlowBlock.block = bs := by
  induction bs generalizing is with
  | nil => rfl
  | cons b bs ih => rw [flowBlocks, List.map_cons, ih]

/-- The calls of each of the `flowBlocks` have indices within the block. -/
private theorem bounds_of_mem_calls {bs : List Block} {f : FlowBlock} {c : BlockCall}
    (hf : f ∈ flowBlocks calls bs is) (hc : c ∈ f.calls) :
    f.block.start ≤ c.index ∧ c.index < f.block.stop := by
  -- the block at the front holds the first of the instructions that are left, at most as many as it is long
  induction bs generalizing is with
  | nil => exact absurd hf List.not_mem_nil
  | cons b bs ih =>
    rcases List.mem_cons.1 hf with rfl | hf
    · obtain ⟨hstart, hstop⟩ := bounds_of_mem_callsFrom hc
      have hlength := List.length_take_le (b.stop - b.start) is
      exact ⟨hstart, by show c.index < b.stop; omega⟩
    · exact ih hf

/-- The run lemma: `flowBlocks` from some starts on make the calls of the instructions from the first start
    on. -/
private theorem flatMap_calls_blocksFrom (calls : Int → Option (List String)) (table : Std.HashMap Int Nat)
    (ids : Std.HashMap Nat Nat) {starts : List Nat} (hasc : starts.Pairwise (· < ·))
    (hlt : ∀ s ∈ starts, s < is.length) (id : Nat) :
    (flowBlocks calls (blocksFrom table ids is.length id starts (is.drop (starts.head?.getD is.length)))
      (is.drop (starts.head?.getD is.length))).flatMap FlowBlock.calls =
      callsFrom calls (starts.head?.getD is.length) (is.drop (starts.head?.getD is.length)) := by
  -- along the starts, as `blocksFrom` goes
  induction starts generalizing id with
  | nil => simp [blocksFrom, flowBlocks, callsFrom]
  | cons start later ih =>
    obtain ⟨hstart, hstop⟩ := head?_bounds hasc hlt
    obtain ⟨last, -, heq⟩ := blocksFrom_cons table ids id hstart hstop
    have hrest := ih (List.pairwise_cons.1 hasc).2 (fun s hs => hlt s (List.mem_cons_of_mem start hs))
      (id + 1)
    rw [List.head?_cons, Option.getD_some, heq, flowBlocks, List.flatMap_cons]
    generalize later.head?.getD is.length = stop at hstart hstop hrest ⊢
    -- the instructions from `start` on are those of the first block and those from `stop` on
    have hdrop : (is.drop start).drop (stop - start) = is.drop stop := by
      rw [List.drop_drop, Nat.add_sub_cancel' (Nat.le_of_lt hstart)]
    have hlength : ((is.drop start).take (stop - start)).length = stop - start := by
      rw [List.length_take, List.length_drop]
      omega
    calc callsFrom calls start ((is.drop start).take (stop - start)) ++ _
        = callsFrom calls start ((is.drop start).take (stop - start)) ++
            callsFrom calls stop (is.drop stop) := by rw [hdrop, hrest]
      _ = callsFrom calls start ((is.drop start).take (stop - start) ++ is.drop stop) := by
        rw [callsFrom_append, hlength, Nat.add_sub_cancel' (Nat.le_of_lt hstart)]
      _ = callsFrom calls start (is.drop start) := by rw [← hdrop, List.take_append_drop]

/-- The blocks of `Flow.counted` are the basic blocks of the method, as many as are counted. Their calls, put
    together in order, are the `callWalk` of the instructions, and none stands in a block that its instruction
    does not belong to. -/
theorem calls_shared_out {code : List UInt8} {cap : Int} {is : List Instruction}
    (h : decode code (effectiveLimit cap) = .ok is) (name : String)
    (calls : Int → Option (List String)) :
    ∃ flow, Flow.counted name is calls = (flow, flow.blocks.length) ∧ flow.name = name ∧
      flow.blocks.map FlowBlock.block = Bytecode.blocks is ∧
      flow.blocks.flatMap FlowBlock.calls = callWalk calls is ∧
      ∀ b ∈ flow.blocks, ∀ c ∈ b.calls, b.block.start ≤ c.index ∧ c.index < b.block.stop := by
  have hblocks := map_block_flowBlocks calls (Bytecode.blocks is) is
  refine ⟨⟨name, flowBlocks calls (Bytecode.blocks is) is⟩, ?_, rfl, hblocks, ?_, ?_⟩
  · have hlength := congrArg List.length hblocks
    rw [List.length_map] at hlength
    rw [Flow.counted, hlength]
  · -- the first leader is the first instruction, so that no call stands in front of the blocks
    have hshared := flatMap_calls_blocksFrom calls (places is) (blockTable (leaders is))
      (pairwise_leaders is) (lt_length_of_mem_leaders h) 0
    rw [← blocks_eq h, head?_leaders h, List.drop_zero, callsFrom_zero] at hshared
    exact hshared
  · intro b hb c hc
    exact bounds_of_mem_calls hb hc

/-- Calls recorded at four positions: two methods, none at a widened `ret`, one method behind a switch, and one
    at a position inside an instruction. -/
def someCalls (offset : Int) : Option (List String) :=
  if offset = 0 then some ["A.f", "B.f"]
  else if offset = 24 then some []
  else if offset = 56 then some ["A.g"]
  else if offset = 2 then some ["A.h"]
  else none

/-- `calls_shared_out` on `twoSwitches` with `someCalls`. -/
theorem calls_shared_out_twoSwitches :
    callWalk someCalls (listing twoSwitches) = [⟨0, "A.f"⟩, ⟨0, "B.f"⟩, ⟨2, "ret"⟩, ⟨5, "A.g"⟩] ∧
      decode (encode twoSwitches) (effectiveLimit 6) = .ok (listing twoSwitches) ∧
      ∃ flow, Flow.counted "A.m" (listing twoSwitches) someCalls = (flow, flow.blocks.length) ∧
        flow.name = "A.m" ∧
        flow.blocks.map FlowBlock.block = Bytecode.blocks (listing twoSwitches) ∧
        flow.blocks.flatMap FlowBlock.calls = callWalk someCalls (listing twoSwitches) ∧
        ∀ b ∈ flow.blocks, ∀ c ∈ b.calls, b.block.start ≤ c.index ∧ c.index < b.block.stop :=
  ⟨by decide +kernel, decode_twoSwitches, calls_shared_out decode_twoSwitches "A.m" someCalls⟩

end CallAtlas.CallGraph
