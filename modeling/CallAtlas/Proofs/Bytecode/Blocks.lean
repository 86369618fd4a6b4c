import Mathlib.Data.List.Basic
import CallAtlas.Bytecode.ControlFlow
import CallAtlas.Proofs.Bytecode.Listing

/-!
# Basic blocks are the control flow

Control flow is given here by the instructions alone: `Instruction.exits` is where control can go from an
instruction, and why. `ControlFlow` says what it takes for blocks to be exactly this, and
`controlFlow_blocks` that the blocks of decoded code are.

A block starts at a `Leader`, and no other instruction of it is one.
-/

namespace CallAtlas.Bytecode

/-! ### Control flow of instructions -/

/-- Why control passes to the next instruction, if it can. -/
def Kind.onward? : Kind → Option Label
  | .plain => some .always
  | .call => some .otherwise
  | .branch => some .otherwise
  | _ => none

/-- Why control passes to the `n`-th target of an instruction. -/
def Instruction.label (i : Instruction) (n : Nat) : Label :=
  match i.kind with
  | .call => .subroutine
  | .branch => .taken
  | .switch => if n = 0 then .default else i.keys[n - 1]?.elim .always .case
  | _ => .always

/-- The positions that control can pass to from an instruction with `next?` behind it: its targets, then the
    next instruction. -/
def Instruction.exits (i : Instruction) (next? : Option Instruction) : List (Int × Label) :=
  i.targets.mapIdx (fun n t => (t, i.label n)) ++
    (next?.bind fun j => i.kind.onward?.map fun l => (j.offset, l)).toList

/-- Instructions that control can come to other than from the one before, or need not come to from it. -/
inductive Leader (is : List Instruction) : Nat → Prop where
  | first : Leader is 0
  | behind {n : Nat} {i : Instruction} (hi : is[n]? = some i) (hkind : i.kind ≠ .plain) : Leader is (n + 1)
  | target {n : Nat} {i j : Instruction} (hi : i ∈ is) (hj : is[n]? = some j) (ht : j.offset ∈ i.targets) :
    Leader is n

/-- The numbers of the instructions of a block. -/
def Block.numbers (b : Block) : List Nat :=
  List.range' b.start (b.stop - b.start)

/-- The position where a passage of control ends, and its reason. -/
def landing? (is : List Instruction) (bs : List Block) (s : Successor) : Option (Int × Label) := do
  let b ← bs[s.block]?
  let i ← is[b.start]?
  return (i.offset, s.label)

/-- The blocks are exactly the control flow of the instructions. -/
structure ControlFlow (is : List Instruction) (bs : List Block) : Prop where
  ids : bs.map Block.id = List.range bs.length
  nonempty : ∀ b ∈ bs, b.start < b.stop
  parts : bs.flatMap Block.numbers = List.range is.length
  entry : ∀ b ∈ bs, b.entry = true ↔ b.id = 0
  leader : ∀ b ∈ bs, Leader is b.start
  transfer_last : ∀ b ∈ bs, ∀ n ∈ b.numbers, ∀ i, is[n]? = some i → i.kind ≠ .plain → n + 1 = b.stop
  target_first : ∀ b ∈ bs, ∀ n ∈ b.numbers, ∀ j, is[n]? = some j →
    ∀ i ∈ is, j.offset ∈ i.targets → n = b.start
  /-- Inside a block, control can only pass to the next instruction. -/
  inner : ∀ b ∈ bs, ∀ n ∈ b.numbers, n + 1 < b.stop →
    ∃ i j, is[n]? = some i ∧ is[n + 1]? = some j ∧ i.exits (some j) = [(j.offset, .always)]
  /-- From the end of a block, control can pass to its successors. -/
  last : ∀ b ∈ bs, ∃ i, is[b.stop - 1]? = some i ∧
    b.successors.map (landing? is bs) = (i.exits is[b.stop]?).map some ∧
    (b.terminal = true ↔ i.kind = .leave ∨ i.kind = .plain ∧ b.stop = is.length)

/-! ### Transfers of control -/

/-- The transfer of control that an operation of a kind makes. -/
def Kind.transfer? (targets keys : List Int) : Kind → Option Transfer
  | .plain => none
  | .leave => some .leave
  | .jump => some (.jump targets)
  | .call => some (.call targets)
  | .branch => some (.branch targets)
  | .switch => some (.switch targets keys)

/-- The only operation of form `.wide` is the prefix `wide` itself. -/
private theorem code_of_wide {code : Nat} (h : formOf code = some .wide) : code = 0xc4 := by
  have htable : ∀ code < 202, formOf code = some .wide → code = 0xc4 := by decide +kernel
  exact htable code (lt_of_formOf h) h

/-- Without the prefix `wide`, `transfer?` reads the `Kind` of the operation off its code. -/
private theorem transfer?_of_not_wide {i : Instruction} (h : i.wide = false) :
    transfer? i = (Kind.ofCode i.opcode).transfer? i.targets i.keys := by
  simp only [transfer?, Kind.ofCode, h, Bool.false_eq_true, not_false_eq_true, and_true, false_and, or_false]
  split_ifs <;> first | rfl | omega

/-- Under the prefix `wide`, `transfer?` looks at the name alone, and only `ret` leaves the method. -/
private theorem transfer?_of_wide {i : Instruction} (h : i.wide = true) (hcode : i.opcode = 0xc4) :
    transfer? i = if i.mnemonic = "ret" then some .leave else none := by
  simp [transfer?, h, hcode]

/-- Of the operations that `widenedSize?` knows, only `ret` bears its name. -/
private theorem mnemonic_eq_ret {n size : Nat} (h : widenedSize? n = some size) :
    mnemonic n = "ret" ↔ n = 0xa9 := by
  constructor
  · intro hname
    -- any other of them is plain, and the kind of the name `ret` is not
    by_contra hn
    have hkind := kind_mnemonic (lt_of_widenedSize? h)
    rw [ofCode_of_widenedSize? h, if_neg hn, hname] at hkind
    exact absurd hkind (by decide)
  · rintro rfl
    decide +kernel

/-- `transfer?` of a written instruction is the transfer that its `kind`, the one of its name, makes. -/
private theorem Written.transfer?_instruction (x : Written) (pos : Nat) :
    Bytecode.transfer? (x.instruction pos) =
      (x.instruction pos).kind.transfer? (x.instruction pos).targets (x.instruction pos).keys := by
  cases hwidened : x.operand.widened? with
  | none =>
    have hwide : (x.instruction pos).wide = false := by
      rw [instruction, hwidened]
      rfl
    rw [transfer?_of_not_wide hwide, kind_instruction hwidened]
    rfl
  | some m =>
    -- only the prefix has an operation behind it, so the operand is `.wide`
    obtain ⟨code, operand, fits⟩ := x
    cases operand with
    | wide n bs hn =>
      have hname : (instruction pos ⟨code, .wide n bs hn, fits⟩).mnemonic = mnemonic n :=
        mnemonic_instruction _ pos
      rw [transfer?_of_wide rfl (code_of_wide fits), kind_instruction_wide rfl, hname]
      -- both sides ask whether the operation behind the prefix is `ret`
      by_cases h : n = 0xa9
      · rw [if_pos ((mnemonic_eq_ret hn).2 h), if_pos h]
        rfl
      · rw [if_neg (mt (mnemonic_eq_ret hn).1 h), if_neg h]
        rfl
    | _ => cases hwidened

/-- A `WellShaped` instruction of kind `.plain` or `.leave` has no targets. -/
theorem Instruction.WellShaped.targets_eq_nil {i : Instruction} (h : i.WellShaped)
    (hkind : i.kind = .plain ∨ i.kind = .leave) : i.targets = [] := by
  apply h.other <;> rcases hkind with hkind | hkind <;> simp [hkind, Kind.isBranch]

/-- The labels of a `switch` with one target more than keys are the default and then its keys. -/
private theorem labels_switch {targets keys : List Int} (h : targets.length = keys.length + 1) :
    (Transfer.switch targets keys).labels = .default :: keys.map .case := by
  rw [Transfer.labels, List.take_of_length_le (by simp; omega), h]
  simp

section
variable {i : Instruction} (hshape : i.WellShaped)
  (htransfer : transfer? i = i.kind.transfer? i.targets i.keys)
include htransfer

/-- Exactly the instructions of kind `.plain` make no transfer. -/
theorem transfer?_eq_none_iff : transfer? i = none ↔ i.kind = .plain := by
  rw [htransfer]
  cases i.kind <;> simp [Kind.transfer?]

/-- A transfer `leaves` the method if and only if its instruction is of kind `.leave`. -/
private theorem leaves_iff {t : Transfer} (ht : transfer? i = some t) : t.leaves = true ↔ i.kind = .leave := by
  rw [htransfer] at ht
  cases hkind : i.kind <;> rw [hkind] at ht <;> cases ht <;> simp [Transfer.leaves]

include hshape

/-- The targets of a transfer are those of its instruction. -/
private theorem targets_of_transfer? {t : Transfer} (ht : transfer? i = some t) : t.targets = i.targets := by
  rw [htransfer] at ht
  cases hkind : i.kind <;> rw [hkind] at ht <;> cases ht
  case leave => exact (hshape.targets_eq_nil (.inr hkind)).symm
  all_goals rfl

/-- The `labels` of a transfer go to the targets in their order, each with `Instruction.label` of its place. -/
private theorem zip_labels {t : Transfer} (ht : transfer? i = some t) :
    t.targets.zip t.labels = i.targets.mapIdx fun n o => (o, i.label n) := by
  rw [htransfer] at ht
  have hone : i.kind.isBranch → ∃ o, i.targets = [o] := fun h => List.length_eq_one_iff.1 (hshape.branch h)
  cases hkind : i.kind <;> rw [hkind] at ht hone <;> cases ht
  case leave =>
    rw [hshape.targets_eq_nil (.inr hkind)]
    rfl
  case switch =>
    have hlength := hshape.switch hkind
    -- compared place by place, the default first and then the keys
    rw [labels_switch hlength, Transfer.targets]
    apply List.ext_getElem?
    intro n
    rw [List.zip_eq_zipWith, List.getElem?_zipWith, List.getElem?_mapIdx]
    by_cases hn : n < i.targets.length
    · -- there are as many keys as targets behind the first
      cases n with
      | zero => simp [Instruction.label, hkind, List.getElem?_eq_getElem hn]
      | succ n =>
        have hkey : n < i.keys.length := by omega
        simp [Instruction.label, hkind, List.getElem?_eq_getElem hn, List.getElem?_eq_getElem hkey]
    · rw [List.getElem?_eq_none (by omega)]
      rfl
  all_goals
    obtain ⟨o, ho⟩ := hone rfl
    simp [Transfer.targets, Transfer.labels, Instruction.label, hkind, ho]

end

/-! ### Numbers of instructions and blocks -/

/-- Where offsets ascend, `places` finds each at the number of its instruction. -/
private theorem getElem?_places {is : List Instruction} (h : is.Pairwise fun i j => i.offset < j.offset)
    {o : Int} {n : Nat} : (places is)[o]? = some n ↔ ∃ i, is[n]? = some i ∧ i.offset = o := by
  have hkeys : (is.zipIdx.map fun p => (p.1.offset, p.2)).map Prod.fst = is.map Instruction.offset := by
    rw [List.map_map]
    show is.zipIdx.map (Instruction.offset ∘ Prod.fst) = _
    rw [← List.map_map, List.zipIdx_map_fst]
  -- no offset is there twice, so that no entry is overwritten by a later one
  have hnodup : ((is.zipIdx.map fun p => (p.1.offset, p.2)).map Prod.fst).Nodup := by
    rw [hkeys]
    exact List.pairwise_map.2 (h.imp Int.ne_of_lt)
  rw [places, getElem?_lastTable_eq_some hnodup]
  simp only [List.mem_map, Prod.exists, Prod.mk.injEq, List.mem_zipIdx_iff_getElem?]
  constructor
  · rintro ⟨i, m, hi, rfl, rfl⟩
    exact ⟨i, hi, rfl⟩
  · rintro ⟨i, hi, rfl⟩
    exact ⟨i, n, hi, rfl, rfl⟩

/-- Where no start comes twice, `blockTable` gives each the number of its place. -/
private theorem getElem?_blockTable {starts : List Nat} (h : starts.Nodup) {s k : Nat} :
    (blockTable starts)[s]? = some k ↔ starts[k]? = some s := by
  have hnodup : (starts.zipIdx.map Prod.fst).Nodup := by rwa [List.zipIdx_map_fst]
  rw [blockTable, getElem?_firstTable_eq_some hnodup, List.mem_zipIdx_iff_getElem?]

/-- An instruction cuts only if it is a transfer: behind itself, if something stands there, and at its
    targets. -/
private theorem mem_cutsOf {places : Std.HashMap Int Nat} {count n m : Nat} {i : Instruction} :
    m ∈ cutsOf places count n i ↔ ∃ t, transfer? i = some t ∧
      ((m = n + 1 ∧ n + 1 < count) ∨ ∃ o ∈ t.targets, places[o]? = some m) := by
  rw [cutsOf]
  cases transfer? i with
  | none => simp
  | some t =>
    by_cases hn : n + 1 < count <;> simp [hn]

/-- The cuts of `cutsFrom` are those of the single instructions, each counted from the first number. -/
private theorem mem_cutsFrom {places : Std.HashMap Int Nat} {count n m : Nat} {is : List Instruction} :
    m ∈ cutsFrom places count n is ↔ ∃ k i, is[k]? = some i ∧ m ∈ cutsOf places count (n + k) i := by
  -- the number of the first instruction moves along, so it is general
  induction is generalizing n with
  | nil => simp [cutsFrom]
  | cons j js ih =>
    rw [cutsFrom, List.mem_append, ih]
    constructor
    · rintro (hm | ⟨k, i, hi, hm⟩)
      · -- the cut is made by the first instruction, or by one of the rest
        exact ⟨0, j, rfl, hm⟩
      · rw [Nat.add_right_comm, Nat.add_assoc] at hm
        exact ⟨k + 1, i, hi, hm⟩
    · rintro ⟨k, i, hi, hm⟩
      cases k with
      | zero =>
        cases hi
        exact .inl hm
      | succ k =>
        rw [← Nat.add_assoc, Nat.add_right_comm] at hm
        exact .inr ⟨k, i, hi, hm⟩

/-- The `leaders` ascend strictly: they are sorted, and `dropRepeats` leaves each once. -/
theorem pairwise_leaders (is : List Instruction) : (leaders is).Pairwise (· < ·) := by
  rw [leaders]
  split
  · exact List.Pairwise.nil
  · -- sorting gives an order with repetitions, in the form of its own comparison
    have hsorted : ((0 :: cutsFrom (places is) is.length 0 is).mergeSort).Pairwise
        fun a b => decide (a ≤ b) = true := by
      apply List.pairwise_mergeSort
      · simp only [decide_eq_true_eq]
        omega
      · simp only [Bool.or_eq_true, decide_eq_true_eq]
        omega
    have hle := hsorted.imp of_decide_eq_true
    have hstrict := pairwise_dropRepeats (fun a b => Nat.le_antisymm) hle
    exact hstrict.imp fun h => Nat.lt_of_le_of_ne h.1 h.2

/-- `blockTable` and the list of `leaders` are inverse to each other. -/
theorem getElem?_blockTable_leaders {is : List Instruction} {s k : Nat} :
    (blockTable (leaders is))[s]? = some k ↔ (leaders is)[k]? = some s :=
  getElem?_blockTable ((pairwise_leaders is).imp Nat.ne_of_lt)

/-- A leader of code that is not empty is its first instruction or a cut. -/
private theorem mem_leaders_iff_cut {is : List Instruction} {n : Nat} :
    n ∈ leaders is ↔ is ≠ [] ∧ (n = 0 ∨ n ∈ cutsFrom (places is) is.length 0 is) := by
  rw [leaders]
  by_cases h : is = []
  · simp [h]
  · rw [if_neg (by simpa using h), mem_dropRepeats, List.mem_mergeSort, List.mem_cons]
    simp [h]

/-- In an ascending list, greater numbers stand further back. -/
theorem lt_iff_of_getElem? {starts : List Nat} (h : starts.Pairwise (· < ·)) {k m s t : Nat}
    (hs : starts[k]? = some s) (ht : starts[m]? = some t) : s < t ↔ k < m := by
  obtain ⟨hk, rfl⟩ := List.getElem?_eq_some_iff.1 hs
  obtain ⟨hm, rfl⟩ := List.getElem?_eq_some_iff.1 ht
  have hlt := List.pairwise_iff_getElem.1 h
  constructor
  · intro hst
    -- otherwise the second place is the first or in front of it
    by_contra hnot
    rcases Nat.eq_or_lt_of_le (Nat.le_of_not_lt hnot) with rfl | hmk
    · omega
    · have := hlt m k hm hk hmk
      omega
  · exact hlt k m hk hm

/-! ### Blocks and their starts -/

section
variable {table : Std.HashMap Int Nat} {ids : Std.HashMap Nat Nat} {is : List Instruction}

variable (table ids) in
/-- The first of the blocks of `blocksFrom` goes up to the start of the next one, or to the end of the code. -/
theorem blocksFrom_cons {start : Nat} {later : List Nat} (id : Nat)
    (hlt : start < later.head?.getD is.length) (hle : later.head?.getD is.length ≤ is.length) :
    ∃ last, is[later.head?.getD is.length - 1]? = some last ∧
      blocksFrom table ids is.length id (start :: later) (is.drop start) =
        { id, start, stop := later.head?.getD is.length, entry := start == 0,
          terminal := isTerminal ids (later.head?.getD is.length) last,
          successors := successorsOf table ids (later.head?.getD is.length) last } ::
        blocksFrom table ids is.length (id + 1) later (is.drop (later.head?.getD is.length)) := by
  rw [blocksFrom]
  -- nothing below depends on where the end comes from
  generalize later.head?.getD is.length = stop at hlt hle ⊢
  have hlast : ((is.drop start).take (stop - start)).getLast? = is[stop - 1]? := by
    rw [List.getLast?_eq_getElem?, List.length_take, List.length_drop, Nat.min_eq_left (by omega),
      List.getElem?_take_of_lt (by omega), List.getElem?_drop]
    congr 1
    omega
  have hsome : is[stop - 1]? = some (is.get ⟨stop - 1, by omega⟩) := List.getElem?_eq_getElem (by omega)
  refine ⟨is.get ⟨stop - 1, by omega⟩, hsome, ?_⟩
  simp only [hlast, hsome, List.drop_drop, Nat.add_sub_cancel' (Nat.le_of_lt hlt)]

/-- The block goes from the `k`-th start up to the next one. -/
structure Block.Spans (table : Std.HashMap Int Nat) (ids : Std.HashMap Nat Nat) (is : List Instruction)
    (starts : List Nat) (k : Nat) (b : Block) : Prop where
  start : starts[k]? = some b.start
  stop : starts[k + 1]?.getD is.length = b.stop
  entry : b.entry = (b.start == 0)
  last : ∃ i, is[b.stop - 1]? = some i ∧ b.terminal = isTerminal ids b.stop i ∧
    b.successors = successorsOf table ids b.stop i

section
variable {starts : List Nat}

/-- The next start, or the end of the code where there is none, lies behind the first start. -/
theorem head?_bounds {start count : Nat} {later : List Nat} (hasc : (start :: later).Pairwise (· < ·))
    (hlt : ∀ s ∈ start :: later, s < count) :
    start < later.head?.getD count ∧ later.head?.getD count ≤ count := by
  cases later with
  | nil => exact ⟨hlt start List.mem_cons_self, Nat.le_refl count⟩
  | cons next later =>
    have hnext : next < count := hlt next (List.mem_cons_of_mem start List.mem_cons_self)
    exact ⟨(List.pairwise_cons.1 hasc).1 next List.mem_cons_self, Nat.le_of_lt hnext⟩

variable (hasc : starts.Pairwise (· < ·)) (hlt : ∀ s ∈ starts, s < is.length)
include hasc hlt

/-- `blocksFrom` makes one block for each start. -/
private theorem length_blocksFrom (id : Nat) :
    (blocksFrom table ids is.length id starts (is.drop (starts.head?.getD is.length))).length =
      starts.length := by
  induction starts generalizing id with
  | nil => rfl
  | cons start later ih =>
    obtain ⟨hstart, hstop⟩ := head?_bounds hasc hlt
    obtain ⟨last, -, heq⟩ := blocksFrom_cons table ids id hstart hstop
    rw [List.head?_cons, Option.getD_some, heq, List.length_cons, List.length_cons,
      ih (List.pairwise_cons.1 hasc).2 fun s hs => hlt s (List.mem_cons_of_mem start hs)]

/-- The `k`-th block of `blocksFrom` spans from the `k`-th start to the next one. -/
private theorem spans_of_getElem?_blocksFrom {id k : Nat} {b : Block}
    (hb : (blocksFrom table ids is.length id starts (is.drop (starts.head?.getD is.length)))[k]? = some b) :
    b.id = id + k ∧ b.Spans table ids is starts k := by
  -- on the starts, since `blocksFrom` takes the instructions of one block off the front for each of them
  induction starts generalizing id k with
  | nil => simp [blocksFrom] at hb
  | cons start later ih =>
    obtain ⟨hstart, hstop⟩ := head?_bounds hasc hlt
    obtain ⟨last, hlast, heq⟩ := blocksFrom_cons table ids id hstart hstop
    rw [List.head?_cons, Option.getD_some, heq] at hb
    cases k with
    | zero =>
      obtain rfl : _ = b := Option.some.inj hb
      have hnext : (start :: later)[0 + 1]? = later.head? := List.head?_eq_getElem?.symm
      exact ⟨rfl, rfl, by rw [hnext], rfl, last, hlast, rfl, rfl⟩
    | succ k =>
      -- the places of `start :: later` behind the first are the places of `later`
      obtain ⟨hid, hspans⟩ := ih (List.pairwise_cons.1 hasc).2
        (fun s hs => hlt s (List.mem_cons_of_mem start hs)) hb
      exact ⟨by omega, hspans.start, hspans.stop, hspans.entry, hspans.last⟩

/-- The blocks of `blocksFrom` hold all instructions from the first start on, in their order. -/
private theorem flatMap_numbers_blocksFrom (id : Nat) :
    (blocksFrom table ids is.length id starts (is.drop (starts.head?.getD is.length))).flatMap
      Block.numbers =
      List.range' (starts.head?.getD is.length) (is.length - starts.head?.getD is.length) := by
  induction starts generalizing id with
  | nil => simp [blocksFrom]
  | cons start later ih =>
    obtain ⟨hstart, hstop⟩ := head?_bounds hasc hlt
    obtain ⟨last, -, heq⟩ := blocksFrom_cons table ids id hstart hstop
    have hrest := ih (List.pairwise_cons.1 hasc).2 (fun s hs => hlt s (List.mem_cons_of_mem start hs))
      (id + 1)
    rw [List.head?_cons, Option.getD_some, heq, List.flatMap_cons, hrest, Block.numbers]
    generalize later.head?.getD is.length = stop at hstart hstop ⊢
    -- the first block up to `stop`, and the others from there on
    have hjoin := List.range'_append_1 (s := start) (m := stop - start) (n := is.length - stop)
    rw [Nat.add_sub_cancel' (Nat.le_of_lt hstart)] at hjoin
    rw [hjoin]
    congr 1
    omega

end

end

/-- The end of the block at the `k`-th start: it lies behind the start and inside the code, it is a start itself
    unless the code ends there, and no start lies between. -/
private theorem stop_bounds {starts : List Nat} {count k start : Nat} (hasc : starts.Pairwise (· < ·))
    (hlt : ∀ s ∈ starts, s < count) (hstart : starts[k]? = some start) :
    start < starts[k + 1]?.getD count ∧ starts[k + 1]?.getD count ≤ count ∧
      (starts[k + 1]?.getD count < count → starts[k + 1]?.getD count ∈ starts) ∧
      ∀ s ∈ starts, start < s → starts[k + 1]?.getD count ≤ s := by
  cases hnext : starts[k + 1]? with
  | none =>
    -- behind the last start there is only the end of the code
    refine ⟨hlt start (List.mem_of_getElem? hstart), Nat.le_refl count, fun hlt => ?_, ?_⟩
    · exact absurd hlt (Nat.lt_irrefl count)
    · intro s hs hlater
      obtain ⟨m, hm⟩ := List.getElem?_of_mem hs
      have hkm : k < m := (lt_iff_of_getElem? hasc hstart hm).1 hlater
      have hmlt : m < starts.length := (List.getElem?_eq_some_iff.1 hm).1
      have hlength : starts.length ≤ k + 1 := List.getElem?_eq_none_iff.1 hnext
      omega
  | some stop =>
    -- what stands before `starts[k + 1]` in an ascending list stands at `k` or before
    have hmem : stop ∈ starts := List.mem_of_getElem? hnext
    have hstop : start < stop := (lt_iff_of_getElem? hasc hstart hnext).2 (Nat.lt_succ_self k)
    refine ⟨hstop, Nat.le_of_lt (hlt stop hmem), fun _ => hmem, ?_⟩
    intro s hs hlater
    obtain ⟨m, hm⟩ := List.getElem?_of_mem hs
    have hkm : k < m := (lt_iff_of_getElem? hasc hstart hm).1 hlater
    have hnot : ¬ s < stop := fun hbefore => by
      have := (lt_iff_of_getElem? hasc hm hnext).1 hbefore
      omega
    exact Nat.le_of_not_lt hnot

/-! ### Blocks of decoded code -/

/-- If `f` passes each element on to something that `g` leads back to it, `filterMap f` loses none. -/
private theorem map_filterMap_eq_map_some {α β : Type} {f : α → Option β} {g : β → Option α} {as : List α}
    (h : ∀ a ∈ as, ∃ b, f a = some b ∧ g b = some a) : (as.filterMap f).map g = as.map some := by
  induction as with
  | nil => rfl
  | cons a as ih =>
    obtain ⟨b, hf, hg⟩ := h a List.mem_cons_self
    rw [List.filterMap_cons_some hf, List.map_cons, List.map_cons, hg,
      ih fun a' ha' => h a' (List.mem_cons_of_mem a ha')]

/-- The block that an exit leads to. -/
def passage? (table : Std.HashMap Int Nat) (ids : Std.HashMap Nat Nat) (e : Int × Label) :
    Option Successor := do
  let n ← table[e.1]?
  let b ← ids[n]?
  return ⟨b, e.2⟩

/-- The successors that `successorsOf` gives a transfer other than a leave: its targets, then the next block. -/
private theorem successorsOf_of_transfer? {table : Std.HashMap Int Nat} {ids : Std.HashMap Nat Nat} {stop : Nat}
    {i : Instruction} {t : Transfer} (ht : transfer? i = some t) (hleave : t ≠ .leave) :
    successorsOf table ids stop i = (t.targets.zip t.labels).filterMap (passage? table ids) ++
      if t.fallsThrough then (ids[stop]?.map fun b => ⟨b, .otherwise⟩).toList else [] := by
  rw [successorsOf, ht]
  cases t with
  | leave => exact absurd rfl hleave
  | _ => rfl

section
variable {code : List UInt8} {limit : Nat} {is : List Instruction} (h : decode code limit = .ok is)
include h

/-- In decoded code `transfer?` is what the `kind` of an instruction makes of its targets and keys. -/
theorem transfer?_of_decode : ∀ i ∈ is, transfer? i = i.kind.transfer? i.targets i.keys := by
  intro i hi
  obtain ⟨x, pos, rfl⟩ := exists_written_of_decode h i hi
  exact x.transfer?_instruction pos

/-- In decoded code, `places` finds each offset at the number of its instruction. -/
theorem getElem?_places_of_decode {o : Int} {n : Nat} :
    (places is)[o]? = some n ↔ ∃ i, is[n]? = some i ∧ i.offset = o :=
  getElem?_places (tiles_of_decode h).pairwise

/-- The `leaders` of decoded code are the numbers of instructions that are a `Leader`. -/
theorem mem_leaders {n : Nat} : n ∈ leaders is ↔ n < is.length ∧ Leader is n := by
  rw [mem_leaders_iff_cut, mem_cutsFrom]
  simp only [mem_cutsOf, Nat.zero_add]
  constructor
  · -- one case for each reason to cut: the first instruction, one behind a transfer, a target
    rintro ⟨hne, rfl | ⟨k, i, hi, t, ht, ⟨rfl, hlt⟩ | ⟨o, ho, hn⟩⟩⟩
    · exact ⟨List.length_pos_iff.2 hne, .first⟩
    · have hkind : i.kind ≠ .plain := by
        rw [Ne, ← transfer?_eq_none_iff (transfer?_of_decode h i (List.mem_of_getElem? hi)), ht]
        simp
      exact ⟨hlt, .behind hi hkind⟩
    · have hmem := List.mem_of_getElem? hi
      obtain ⟨j, hj, rfl⟩ := (getElem?_places_of_decode h).1 hn
      rw [targets_of_transfer? (wellShaped_of_decode h i hmem) (transfer?_of_decode h i hmem) ht] at ho
      exact ⟨(List.getElem?_eq_some_iff.1 hj).1, .target hmem hj ho⟩
  · rintro ⟨hlt, hleader⟩
    refine ⟨List.length_pos_iff.1 (by omega), ?_⟩
    cases hleader with
    | first => exact .inl rfl
    | @behind m i hi hkind =>
      have hmem := List.mem_of_getElem? hi
      rw [Ne, ← transfer?_eq_none_iff (transfer?_of_decode h i hmem)] at hkind
      obtain ⟨t, ht⟩ := Option.ne_none_iff_exists'.1 hkind
      exact .inr ⟨m, i, hi, t, ht, .inl ⟨rfl, hlt⟩⟩
    | @target _ i j hi hj ho =>
      -- a target makes its instruction a transfer
      have hshape := wellShaped_of_decode h i hi
      have htransfer := transfer?_of_decode h i hi
      have hsome : transfer? i ≠ none := by
        rw [Ne, transfer?_eq_none_iff htransfer]
        intro hkind
        rw [hshape.targets_eq_nil (.inl hkind)] at ho
        cases ho
      obtain ⟨t, ht⟩ := Option.ne_none_iff_exists'.1 hsome
      obtain ⟨k, hk⟩ := List.getElem?_of_mem hi
      rw [← targets_of_transfer? hshape htransfer ht] at ho
      exact .inr ⟨k, i, hk, t, ht, .inr ⟨j.offset, ho, (getElem?_places_of_decode h).2 ⟨j, hj, rfl⟩⟩⟩

/-- The exit to the next instruction leads by `passage?` to the block that starts there. -/
private theorem filterMap_onward {ids : Std.HashMap Nat Nat} (hids : ids[is.length]? = none) {n : Nat}
    (hn : n < is.length) (label? : Option Label) :
    (is[n + 1]?.bind fun j => label?.map fun l => (j.offset, l)).toList.filterMap
        (passage? (places is) ids) =
      (label?.bind fun l => ids[n + 1]?.map fun b => ⟨b, l⟩).toList := by
  cases label? with
  | none => simp
  | some l =>
    cases hnext : is[n + 1]? with
    | none =>
      -- no block starts at the end of the code
      have hend : n + 1 = is.length := by
        have := List.getElem?_eq_none_iff.1 hnext
        omega
      rw [hend, hids]
      rfl
    | some j =>
      have hplace : (places is)[j.offset]? = some (n + 1) :=
        (getElem?_places_of_decode h).2 ⟨j, hnext, rfl⟩
      cases hid : ids[n + 1]? <;> simp [passage?, hplace, hid]

/-- The successors of a block are the `exits` of its last instruction, each passed on by `passage?`. -/
private theorem successorsOf_eq {ids : Std.HashMap Nat Nat} (hids : ids[is.length]? = none) {n : Nat}
    {i : Instruction} (hi : is[n]? = some i) :
    successorsOf (places is) ids (n + 1) i =
      (i.exits is[n + 1]?).filterMap (passage? (places is) ids) := by
  have hmem := List.mem_of_getElem? hi
  have hshape := wellShaped_of_decode h i hmem
  have htransfer := transfer?_of_decode h i hmem
  rw [Instruction.exits, List.filterMap_append, filterMap_onward h hids (List.getElem?_eq_some_iff.1 hi).1]
  cases hkind : i.kind with
  | plain =>
    -- a plain instruction has no targets, and a leave no exits at all
    rw [hshape.targets_eq_nil (.inl hkind), successorsOf, (transfer?_eq_none_iff htransfer).2 hkind]
    rfl
  | leave =>
    have ht : transfer? i = some .leave := by rw [htransfer, hkind, Kind.transfer?]
    rw [hshape.targets_eq_nil (.inr hkind), successorsOf, ht]
    rfl
  | _ =>
    -- the transfers with targets: their labels are those of the exits
    have ht := htransfer
    rw [hkind, Kind.transfer?] at ht
    rw [successorsOf_of_transfer? ht (by simp), zip_labels hshape htransfer ht]
    rfl

/-- All `leaders` are numbers of instructions. -/
theorem lt_length_of_mem_leaders : ∀ n ∈ leaders is, n < is.length :=
  fun _ hn => ((mem_leaders h).1 hn).1

/-- The first of the `leaders` is number 0, or there are no instructions. -/
theorem head?_leaders : (leaders is).head?.getD is.length = 0 := by
  cases hstarts : leaders is with
  | nil =>
    by_contra hne
    have hfirst : 0 ∈ leaders is := (mem_leaders h).2 ⟨Nat.pos_of_ne_zero hne, .first⟩
    rw [hstarts] at hfirst
    cases hfirst
  | cons start later =>
    have hstart : start ∈ leaders is := by
      rw [hstarts]
      exact List.mem_cons_self
    have hlt := lt_length_of_mem_leaders h start hstart
    have hfirst : 0 ∈ leaders is := (mem_leaders h).2 ⟨by omega, .first⟩
    have hasc := pairwise_leaders is
    rw [hstarts] at hfirst hasc
    -- number 0 is a leader, and none of an ascending list is smaller than its head
    rcases List.mem_cons.1 hfirst with rfl | hlater
    · rfl
    · exact absurd ((List.pairwise_cons.1 hasc).1 0 hlater) (Nat.not_lt_zero start)

/-- `blocks` is `blocksFrom` at the `leaders`, in the form that the lemmas on `blocksFrom` are stated in. -/
theorem blocks_eq : blocks is = blocksFrom (places is) (blockTable (leaders is)) is.length 0 (leaders is)
    (is.drop ((leaders is).head?.getD is.length)) := by
  rw [head?_leaders h, List.drop_zero]
  rfl

/-- There are as many `blocks` as `leaders`. -/
private theorem length_blocks : (blocks is).length = (leaders is).length := by
  rw [blocks_eq h, length_blocksFrom (pairwise_leaders is) (lt_length_of_mem_leaders h)]

/-- The `k`-th of the `blocks` has number `k` and spans from the `k`-th leader to the next. -/
theorem spans_of_getElem?_blocks {k : Nat} {b : Block} (hb : (blocks is)[k]? = some b) :
    b.id = k ∧ b.Spans (places is) (blockTable (leaders is)) is (leaders is) k := by
  rw [blocks_eq h] at hb
  obtain ⟨hid, hspans⟩ :=
    spans_of_getElem?_blocksFrom (pairwise_leaders is) (lt_length_of_mem_leaders h) hb
  exact ⟨by omega, hspans⟩

/-- Each of the `blocks` spans from the leader that its number gives. -/
theorem spans_of_mem_blocks {b : Block} (hb : b ∈ blocks is) :
    b.Spans (places is) (blockTable (leaders is)) is (leaders is) b.id := by
  obtain ⟨k, hk⟩ := List.getElem?_of_mem hb
  obtain ⟨rfl, hspans⟩ := spans_of_getElem?_blocks h hk
  exact hspans

/-- No block starts at the end of the code. -/
private theorem getElem?_blockTable_length : (blockTable (leaders is))[is.length]? = none := by
  apply Option.eq_none_iff_forall_ne_some.2
  intro k hk
  have hmem := List.mem_of_getElem? (getElem?_blockTable_leaders.1 hk)
  exact absurd (lt_length_of_mem_leaders h _ hmem) (Nat.lt_irrefl _)

/-- A leader is where some block starts: `passage?` finds that block, and `landing?` leads back. -/
private theorem exists_passage {e : Int × Label} {n : Nat} {j : Instruction} (hn : n ∈ leaders is)
    (hj : is[n]? = some j) (he : j.offset = e.1) :
    ∃ s, passage? (places is) (blockTable (leaders is)) e = some s ∧
      landing? is (blocks is) s = some e := by
  -- from the number of the instruction to that of its block, and back to where the block starts
  obtain ⟨k, hk⟩ := List.getElem?_of_mem hn
  have hplace : (places is)[e.1]? = some n := (getElem?_places_of_decode h).2 ⟨j, hj, he⟩
  have hid : (blockTable (leaders is))[n]? = some k := getElem?_blockTable_leaders.2 hk
  have hlt : k < (blocks is).length := by
    rw [length_blocks h]
    exact (List.getElem?_eq_some_iff.1 hk).1
  have hb := List.getElem?_eq_getElem hlt
  have hstart := (spans_of_getElem?_blocks h hb).2.start
  rw [hk] at hstart
  refine ⟨⟨k, e.2⟩, by simp [passage?, hplace, hid], ?_⟩
  simp [landing?, hb, ← Option.some.inj hstart, hj, he]

section
variable {b : Block} (hb : b ∈ blocks is)
include hb

/-- A block ends at one of the `leaders` or with the code, and no leader lies inside it. -/
theorem bounds_of_mem_blocks : b.start < b.stop ∧ b.stop ≤ is.length ∧
    (b.stop < is.length → b.stop ∈ leaders is) ∧ ∀ s ∈ leaders is, b.start < s → b.stop ≤ s := by
  have hspans := spans_of_mem_blocks h hb
  rw [← hspans.stop]
  exact stop_bounds (pairwise_leaders is) (lt_length_of_mem_leaders h) hspans.start

/-- The `numbers` of a block are those from its start up to its end. -/
theorem mem_numbers {n : Nat} : n ∈ b.numbers ↔ b.start ≤ n ∧ n < b.stop := by
  have := (bounds_of_mem_blocks h hb).1
  rw [Block.numbers, List.mem_range'_1]
  omega

/-- Only the first instruction of a block is a `Leader`. -/
private theorem eq_start_of_leader {n : Nat} (hn : n ∈ b.numbers) (hleader : Leader is n) : n = b.start := by
  obtain ⟨hle, hlt⟩ := (mem_numbers h hb).1 hn
  obtain ⟨-, hstop, -, hlater⟩ := bounds_of_mem_blocks h hb
  have hmem : n ∈ leaders is := (mem_leaders h).2 ⟨by omega, hleader⟩
  by_contra hne
  have := hlater n hmem (by omega)
  omega

/-- An instruction that is not plain is the last of its block. -/
private theorem stop_of_transfer {n : Nat} (hn : n ∈ b.numbers) {i : Instruction} (hi : is[n]? = some i)
    (hkind : i.kind ≠ .plain) : n + 1 = b.stop := by
  obtain ⟨hle, hlt⟩ := (mem_numbers h hb).1 hn
  by_contra hne
  -- the next instruction would be a leader inside the block
  have hnext : n + 1 ∈ b.numbers := (mem_numbers h hb).2 ⟨by omega, by omega⟩
  have := eq_start_of_leader h hb hnext (.behind hi hkind)
  omega

/-- Inside a block the only exit of an instruction is the next one. -/
private theorem exits_of_inner {n : Nat} (hn : n ∈ b.numbers) (hlt : n + 1 < b.stop) :
    ∃ i j, is[n]? = some i ∧ is[n + 1]? = some j ∧ i.exits (some j) = [(j.offset, .always)] := by
  have hstop := (bounds_of_mem_blocks h hb).2.1
  have hi := List.getElem?_eq_getElem (show n < is.length by omega)
  have hj := List.getElem?_eq_getElem (show n + 1 < is.length by omega)
  refine ⟨_, _, hi, hj, ?_⟩
  -- a transfer would be the last of its block
  have hkind : is[n].kind = .plain := by
    by_contra hne
    have := stop_of_transfer h hb hn hi hne
    omega
  have hshape := wellShaped_of_decode h _ (List.mem_of_getElem? hi)
  rw [Instruction.exits, hshape.targets_eq_nil (.inl hkind), hkind]
  rfl

/-- The entry block is the one with number 0. -/
private theorem entry_iff : b.entry = true ↔ b.id = 0 := by
  have hspans := spans_of_mem_blocks h hb
  have hzero : (leaders is)[0]? = some 0 := by
    have hhead := head?_leaders h
    rw [List.head?_eq_getElem?] at hhead
    have hlt := (List.getElem?_eq_some_iff.1 hspans.start).1
    rw [List.getElem?_eq_getElem (show 0 < (leaders is).length by omega), Option.getD_some] at hhead
    rw [List.getElem?_eq_getElem (show 0 < (leaders is).length by omega), hhead]
  -- any other block starts behind the first one
  have hlt_iff := lt_iff_of_getElem? (pairwise_leaders is) hzero hspans.start
  rw [hspans.entry, beq_iff_eq]
  omega

/-- The exits of the last instruction of a block all lead to `leaders`. -/
private theorem exists_leader_of_mem_exits {i : Instruction} (hi : is[b.stop - 1]? = some i) {e : Int × Label}
    (he : e ∈ i.exits is[b.stop]?) : ∃ n ∈ leaders is, ∃ j, is[n]? = some j ∧ j.offset = e.1 := by
  rw [Instruction.exits, List.mem_append] at he
  rcases he with he | he
  · -- a target: decoded code has an instruction there, and the jump makes it a leader
    obtain ⟨m, hm, rfl⟩ := List.mem_mapIdx.1 he
    have hmem := List.mem_of_getElem? hi
    have htarget : i.targets[m] ∈ i.targets := List.getElem_mem hm
    obtain ⟨j, hj, hoffset⟩ := closed_of_decode h i hmem _ htarget
    obtain ⟨n, hn⟩ := List.getElem?_of_mem hj
    rw [← hoffset] at htarget
    exact ⟨n, (mem_leaders h).2 ⟨(List.getElem?_eq_some_iff.1 hn).1, .target hmem hn htarget⟩, j, hn, hoffset⟩
  · -- the next instruction: the block ends in front of it
    rw [Option.mem_toList] at he
    obtain ⟨j, hj, hlabel⟩ := Option.bind_eq_some_iff.1 he
    obtain ⟨l, -, rfl⟩ := Option.map_eq_some_iff.1 hlabel
    exact ⟨b.stop, (bounds_of_mem_blocks h hb).2.2.1 (List.getElem?_eq_some_iff.1 hj).1, j, hj, rfl⟩

/-- A block is terminal if its last instruction leaves, or is plain and the last of the code. -/
private theorem isTerminal_iff {i : Instruction} (hi : is[b.stop - 1]? = some i) :
    isTerminal (blockTable (leaders is)) b.stop i = true ↔
      i.kind = .leave ∨ i.kind = .plain ∧ b.stop = is.length := by
  have htransfer := transfer?_of_decode h i (List.mem_of_getElem? hi)
  rw [isTerminal]
  cases ht : transfer? i with
  | none =>
    -- without a transfer the question is whether a block starts behind
    have hkind : i.kind = .plain := (transfer?_eq_none_iff htransfer).1 ht
    have hend : (blockTable (leaders is))[b.stop]? = none ↔ b.stop = is.length := by
      constructor
      · intro hnone
        by_contra hne
        have hle := (bounds_of_mem_blocks h hb).2.1
        obtain ⟨k, hk⟩ := List.getElem?_of_mem ((bounds_of_mem_blocks h hb).2.2.1 (by omega))
        rw [getElem?_blockTable_leaders.2 hk] at hnone
        cases hnone
      · intro heq
        rw [heq, getElem?_blockTable_length h]
    show (!(blockTable (leaders is)).contains b.stop) = true ↔ _
    rw [Bool.not_eq_true', Std.HashMap.contains_eq_isSome_getElem?, Option.isSome_eq_false_iff,
      Option.isNone_iff_eq_none, hend]
    simp [hkind]
  | some t =>
    -- with one it is whether the transfer leaves
    have hkind : i.kind ≠ .plain := by
      rw [Ne, ← transfer?_eq_none_iff htransfer, ht]
      simp
    simp [leaves_iff htransfer ht, hkind]

/-- The last instruction of a block leads where the block's successors start. -/
private theorem exits_of_last : ∃ i, is[b.stop - 1]? = some i ∧
    b.successors.map (landing? is (blocks is)) = (i.exits is[b.stop]?).map some ∧
    (b.terminal = true ↔ i.kind = .leave ∨ i.kind = .plain ∧ b.stop = is.length) := by
  obtain ⟨i, hi, hterminal, hsuccessors⟩ := (spans_of_mem_blocks h hb).last
  have hpos : b.stop - 1 + 1 = b.stop := by
    have := (bounds_of_mem_blocks h hb).1
    omega
  have hexits := successorsOf_eq h (getElem?_blockTable_length h) hi
  rw [hpos, ← hsuccessors] at hexits
  refine ⟨i, hi, ?_, ?_⟩
  · -- each exit is found by `passage?` and led back to by `landing?`, so no successor is lost
    rw [hexits]
    apply map_filterMap_eq_map_some
    intro e he
    obtain ⟨n, hn, j, hj, hoffset⟩ := exists_leader_of_mem_exits h hb hi he
    exact exists_passage h hn hj hoffset
  · rw [hterminal]
    exact isTerminal_iff h hb hi

end

end

/-- The `blocks` of decoded code are exactly its `ControlFlow`. -/
theorem controlFlow_blocks {code : List UInt8} {cap : Int} {is : List Instruction}
    (h : decode code (effectiveLimit cap) = .ok is) : ControlFlow is (blocks is) where
  ids := by
    apply List.ext_getElem (by simp)
    intro k hk _
    rw [List.length_map] at hk
    rw [List.getElem_map, List.getElem_range]
    exact (spans_of_getElem?_blocks h (List.getElem?_eq_getElem hk)).1
  nonempty _ hb := (bounds_of_mem_blocks h hb).1
  -- from the first leader on, the blocks follow each other up to the end
  parts := by
    rw [blocks_eq h, flatMap_numbers_blocksFrom (pairwise_leaders is) (lt_length_of_mem_leaders h),
      head?_leaders h, Nat.sub_zero, List.range_eq_range']
  entry _ hb := entry_iff h hb
  leader _ hb := ((mem_leaders h).1 (List.mem_of_getElem? (spans_of_mem_blocks h hb).start)).2
  transfer_last _ hb _ hn _ hi hkind := stop_of_transfer h hb hn hi hkind
  target_first _ hb _ hn _ hj _ hi ht := eq_start_of_leader h hb hn (.target hi hj ht)
  inner _ hb _ hn hlt := exits_of_inner h hb hn hlt
  last _ hb := exits_of_last h hb

/-- `controlFlow_blocks` on code with two switches, one of them with keys at both ends of the range. -/
theorem controlFlow_blocks_twoSwitches :
    decode (encode twoSwitches) (effectiveLimit 6) = .ok (listing twoSwitches) ∧
      (listing twoSwitches).map Instruction.kind = [.plain, .switch, .leave, .jump, .switch, .leave] ∧
      (listing twoSwitches).map (Instruction.exits · none) =
        [[], [(56, .default), (24, .case (-2147483648)), (31, .case (-2147483647))], [], [(0, .always)],
          [(0, .default), (24, .case (-2147483648)), (31, .case 2147483647)], []] ∧
      ControlFlow (listing twoSwitches) (blocks (listing twoSwitches)) :=
  ⟨decode_twoSwitches, by decide +kernel, by decide +kernel, controlFlow_blocks decode_twoSwitches⟩

end CallAtlas.Bytecode
