import Mathlib.Data.List.Chain
import CallAtlas.Proofs.Bytecode.Encoding
import CallAtlas.Proofs.Bytecode.Tiling

/-!
# Decoded instructions are a listing

What holds of every list that `decode` yields, whatever the bytes: the instructions tile the code, their
jumps lead to instructions, and each has the targets and keys that its operation calls for.

Operations are told apart by their names here (`Kind.ofName`), and `kind_mnemonic` says which codes these
names belong to.
-/

namespace CallAtlas.Bytecode

/-- What an operation does to control. -/
inductive Kind where
  /-- The next instruction follows. -/
  | plain
  /-- Control leaves the method. -/
  | leave
  /-- Control goes elsewhere. -/
  | jump
  /-- A subroutine is entered, behind which the next instruction follows. -/
  | call
  /-- Control goes elsewhere on a condition. -/
  | branch
  | switch
  deriving DecidableEq

namespace Kind

def ofName (name : String) : Kind :=
  if name ∈ ["ireturn", "lreturn", "freturn", "dreturn", "areturn", "return", "athrow", "ret"] then
    .leave
  else if name ∈ ["goto", "goto_w"] then .jump
  else if name ∈ ["jsr", "jsr_w"] then .call
  else if name ∈ ["tableswitch", "lookupswitch"] then .switch
  else if name ∈ ["ifeq", "ifne", "iflt", "ifge", "ifgt", "ifle", "if_icmpeq", "if_icmpne", "if_icmplt",
      "if_icmpge", "if_icmpgt", "if_icmple", "if_acmpeq", "if_acmpne", "ifnull", "ifnonnull"] then
    .branch
  else .plain

/-- The kind of an operation that is not widened. -/
def ofCode (code : Nat) : Kind :=
  if (0xac ≤ code ∧ code ≤ 0xb1) ∨ code = 0xbf ∨ code = 0xa9 then .leave
  else if code = 0xa7 ∨ code = 0xc8 then .jump
  else if code = 0xa8 ∨ code = 0xc9 then .call
  else if (0x99 ≤ code ∧ code ≤ 0xa6) ∨ code = 0xc6 ∨ code = 0xc7 then .branch
  else if code = 0xaa ∨ code = 0xab then .switch
  else .plain

/-- The operation names one place to go to. -/
def isBranch : Kind → Bool
  | .jump => true
  | .call => true
  | .branch => true
  | _ => false

end Kind

def Instruction.kind (i : Instruction) : Kind :=
  .ofName i.mnemonic

/-- An instruction has the targets and keys that its operation calls for. -/
structure Instruction.WellShaped (i : Instruction) : Prop where
  branch : i.kind.isBranch → i.targets.length = 1
  switch : i.kind = .switch → i.targets.length = i.keys.length + 1
  other : ¬ i.kind.isBranch → i.kind ≠ .switch → i.targets = []
  keys : i.kind ≠ .switch → i.keys = []
  table : i.mnemonic = "tableswitch" → i.keys.IsChain fun a b => b = a + 1

/-! ### Names and codes -/

/-- The kind that `Kind.ofName` gives the name of a code is the one that `Kind.ofCode` gives the code. -/
theorem kind_mnemonic {code : Nat} (hcode : code < 202) : Kind.ofName (mnemonic code) = .ofCode code := by
  -- the two are compared over the whole table at once
  have htable : operations.toList.map (fun op => Kind.ofName op.mnemonic) =
      (List.range 202).map Kind.ofCode := by decide +kernel
  have hrow := congrArg (fun kinds => kinds[code]?) htable
  simp only [List.getElem?_map, Array.getElem?_toList, List.getElem?_range hcode,
    Array.getElem?_eq_getElem (show code < operations.size from hcode), Option.map_some,
    Option.some.injEq] at hrow
  rw [mnemonic, operation?, Array.getElem?_eq_getElem (show code < operations.size from hcode)]
  exact hrow

/-- The kinds of operations with operands of a form. -/
def Form.kinds : Form → List Kind
  | .fixed _ => [.plain, .leave]
  | .branch16 => [.jump, .call, .branch]
  | .branch32 => [.jump, .call]
  | .tableSwitch => [.switch]
  | .lookupSwitch => [.switch]
  | _ => [.plain]

/-- The form of a code leaves it only the kinds of `Form.kinds`. -/
private theorem ofCode_mem_kinds {code : Nat} {form : Form} (h : formOf code = some form) :
    Kind.ofCode code ∈ form.kinds := by
  have htable : ∀ code < 202, ∀ form ∈ formOf code, Kind.ofCode code ∈ form.kinds := by decide +kernel
  exact htable code (lt_of_formOf h) form h

/-- Of the codes that can be widened, `ret` leaves the method and all others are plain. -/
theorem ofCode_of_widenedSize? {code n : Nat} (h : widenedSize? code = some n) :
    Kind.ofCode code = if code = 0xa9 then .leave else .plain := by
  have htable : ∀ code < 202, (widenedSize? code).isSome →
      Kind.ofCode code = if code = 0xa9 then .leave else .plain := by decide +kernel
  exact htable code (lt_of_widenedSize? h) (h ▸ rfl)

/-- The only code of form `.lookupSwitch` is 0xab. -/
theorem code_of_lookupSwitch {code : Nat} (h : formOf code = some .lookupSwitch) : code = 0xab := by
  have htable : ∀ code < 202, formOf code = some .lookupSwitch → code = 0xab := by decide +kernel
  exact htable code (lt_of_formOf h) h

/-! ### Shapes -/

namespace Instruction.WellShaped

variable {i : Instruction}

/-- An instruction that neither branches nor switches is `WellShaped` without targets and keys. -/
theorem of_others (hbranch : ¬ i.kind.isBranch) (hswitch : i.kind ≠ .switch) (htargets : i.targets = [])
    (hkeys : i.keys = []) : i.WellShaped where
  branch h := absurd h hbranch
  switch h := absurd h hswitch
  other _ _ := htargets
  keys _ := hkeys
  table _ := hkeys ▸ .nil

/-- An instruction that branches is `WellShaped` with one target and no keys. -/
private theorem of_branch (hbranch : i.kind.isBranch) (htargets : i.targets.length = 1) (hkeys : i.keys = []) :
    i.WellShaped where
  branch _ := htargets
  switch h := by rw [h] at hbranch; cases hbranch
  other h := absurd hbranch h
  keys _ := hkeys
  table _ := hkeys ▸ .nil

/-- A switch is `WellShaped` with one target more than keys, which a `tableswitch` has in a row. -/
private theorem of_switch (hswitch : i.kind = .switch) (htargets : i.targets.length = i.keys.length + 1)
    (htable : i.mnemonic = "tableswitch" → i.keys.IsChain fun a b => b = a + 1) : i.WellShaped where
  branch h := by rw [hswitch] at h; cases h
  switch _ := htargets
  other _ h := absurd hswitch h
  keys h := absurd hswitch h
  table := htable

end Instruction.WellShaped

/-- Numbers counted up from `low` are consecutive. -/
private theorem isChain_map_range (low : Int) (n : Nat) :
    ((List.range n).map fun i => low + (i : Nat)).IsChain fun a b => b = a + 1 := by
  rw [List.isChain_map, List.range_eq_range']
  refine (List.isChain_range' 0 n 1).imp ?_
  rintro a b rfl
  push_cast
  omega

namespace Written

/-- An instruction bears the name of the operation that is widened, or else of its own code. -/
theorem mnemonic_instruction (x : Written) (pos : Nat) :
    (x.instruction pos).mnemonic = mnemonic (x.operand.widened?.getD x.code) := by
  rw [instruction]

/-- An operation that is not widened has the `kind` of its own code. -/
theorem kind_instruction {x : Written} (h : x.operand.widened? = none) (pos : Nat) :
    (x.instruction pos).kind = .ofCode x.code := by
  rw [Instruction.kind, mnemonic_instruction, h, Option.getD_none, kind_mnemonic (lt_of_formOf x.fits)]

/-- Of the operations that are widened only `ret` has to do with control. -/
theorem kind_instruction_wide {x : Written} {n : Nat} {bs : List UInt8}
    {fits : widenedSize? n = some bs.length} (h : x.operand = .wide n bs fits) (pos : Nat) :
    (x.instruction pos).kind = if n = 0xa9 then .leave else .plain := by
  rw [Instruction.kind, mnemonic_instruction, h, Operand.widened?, Option.getD_some,
    kind_mnemonic (lt_of_widenedSize? fits), ofCode_of_widenedSize? fits]

/-- Every `Written` instruction is `WellShaped`. -/
private theorem wellShaped_instruction (x : Written) (pos : Nat) : (x.instruction pos).WellShaped := by
  have hothers : ∀ k ∈ [Kind.plain, .leave], ¬ k.isBranch ∧ k ≠ .switch := by decide
  have hbranches : ∀ k ∈ [Kind.jump, .call, .branch], k.isBranch := by decide
  obtain ⟨code, operand, fits⟩ := x
  -- the form of the operand decides the kind, and with it the shape that is asked for
  have hkinds := ofCode_mem_kinds fits
  have hunwidened := kind_instruction (x := ⟨code, operand, fits⟩)
  -- the operands show how many targets and keys there are
  cases operand with
  | plain bs =>
    rw [← hunwidened rfl pos] at hkinds
    obtain ⟨hbranch, hswitch⟩ := hothers _ hkinds
    exact .of_others hbranch hswitch rfl rfl
  | constant8 index =>
    rw [← hunwidened rfl pos] at hkinds
    obtain ⟨hbranch, hswitch⟩ := hothers _ (List.mem_append_left [Kind.leave] hkinds)
    exact .of_others hbranch hswitch rfl rfl
  | constant16 index more =>
    rw [← hunwidened rfl pos] at hkinds
    obtain ⟨hbranch, hswitch⟩ := hothers _ (List.mem_append_left [Kind.leave] hkinds)
    exact .of_others hbranch hswitch rfl rfl
  | branch16 distance =>
    rw [← hunwidened rfl pos] at hkinds
    exact .of_branch (hbranches _ hkinds) rfl rfl
  | branch32 distance =>
    rw [← hunwidened rfl pos] at hkinds
    exact .of_branch (hbranches _ (List.mem_append_left [Kind.branch] hkinds)) rfl rfl
  | tableSwitch padding default low high jumps low_le count few =>
    rw [← hunwidened rfl pos] at hkinds
    refine .of_switch (List.mem_singleton.1 hkinds) ?_ fun _ => isChain_map_range low.toInt jumps.length
    simp [instruction, Operand.distances, Operand.keys]
  | lookupSwitch padding default pairs few =>
    rw [← hunwidened rfl pos] at hkinds
    refine .of_switch (List.mem_singleton.1 hkinds) ?_ fun hname => ?_
    · simp [instruction, Operand.distances, Operand.keys]
    · -- the name is that of the other switch
      rw [mnemonic_instruction] at hname
      simp only [Operand.widened?, Option.getD_none, code_of_lookupSwitch fits] at hname
      exact absurd hname (by decide +kernel)
  | wide n bs hn =>
    have hmem : (instruction pos ⟨code, .wide n bs hn, fits⟩).kind ∈ [Kind.plain, .leave] := by
      rw [kind_instruction_wide rfl pos]
      split <;> decide
    obtain ⟨hbranch, hswitch⟩ := hothers _ hmem
    exact .of_others hbranch hswitch rfl rfl

end Written

/-- Each instruction of a `listingFrom` is one of the list, written at some position. -/
private theorem exists_of_mem_listingFrom {pos : Nat} {xs : List Written} {i : Instruction}
    (h : i ∈ listingFrom pos xs) : ∃ x ∈ xs, ∃ n, i = x.instruction n := by
  induction xs generalizing pos with
  | nil => cases h
  | cons x xs ih =>
    rcases List.mem_cons.1 h with rfl | h
    · exact ⟨x, List.mem_cons_self, pos, rfl⟩
    · obtain ⟨y, hy, hi⟩ := ih h
      exact ⟨y, List.mem_cons_of_mem x hy, hi⟩

/-- A `listingFrom` is as long as the list that is written. -/
private theorem length_listingFrom (pos : Nat) (xs : List Written) :
    (listingFrom pos xs).length = xs.length := by
  induction xs generalizing pos with
  | nil => rfl
  | cons x xs ih => rw [listingFrom, List.length_cons, List.length_cons, ih]

/-! ### Decoded lists -/

section
variable {code : List UInt8} {limit : Nat} {is : List Instruction} (h : decode code limit = .ok is)
include h

/-- Each decoded instruction is a `Written` one at some position. -/
theorem exists_written_of_decode : ∀ i ∈ is, ∃ (x : Written) (pos : Nat), i = x.instruction pos := by
  obtain ⟨xs, -, rfl, -, -⟩ := decode_eq_ok_iff.1 h
  intro i hi
  obtain ⟨x, -, n, rfl⟩ := exists_of_mem_listingFrom hi
  exact ⟨x, n, rfl⟩

/-- Decoded instructions are `WellShaped`. -/
theorem wellShaped_of_decode : ∀ i ∈ is, i.WellShaped := by
  intro i hi
  obtain ⟨x, pos, rfl⟩ := exists_written_of_decode h i hi
  exact x.wellShaped_instruction pos

/-- The jumps of decoded code lead to its instructions. -/
theorem closed_of_decode : Closed is := by
  obtain ⟨xs, -, -, -, hclosed⟩ := decode_eq_ok_iff.1 h
  exact hclosed

/-- `decode` yields no more instructions than it is allowed. -/
private theorem length_le_of_decode : is.length ≤ limit := by
  obtain ⟨xs, -, rfl, hlength, -⟩ := decode_eq_ok_iff.1 h
  rwa [listing, length_listingFrom]

end

/-- Whatever `decode` yields tiles its code with no more instructions than allowed, jumps to instructions only,
    and is `WellShaped`, with the targets and keys that the operations call for. -/
theorem decode_wellFormed {code : List UInt8} {cap : Int} {is : List Instruction}
    (h : decode code (effectiveLimit cap) = .ok is) :
    Tiles 0 is code.length ∧ is.length ≤ effectiveLimit cap ∧
      (∀ i ∈ is, ∀ t ∈ i.targets, ∃ j ∈ is, j.offset = t) ∧ ∀ i ∈ is, i.WellShaped :=
  ⟨tiles_of_decode h, length_le_of_decode h, closed_of_decode h, wellShaped_of_decode h⟩

/-- `twoSwitches` is read back from its encoding with a limit that it just keeps. -/
theorem decode_twoSwitches : decode (encode twoSwitches) (effectiveLimit 6) = .ok (listing twoSwitches) :=
  decode_eq_ok_iff.2 ⟨twoSwitches, rfl, rfl, by decide, closed_twoSwitches⟩

/-- `decode_wellFormed` on `twoSwitches`, whose six instructions fill 57 bytes. -/
theorem decode_wellFormed_twoSwitches :
    decode (encode twoSwitches) (effectiveLimit 6) = .ok (listing twoSwitches) ∧
      (encode twoSwitches).length = 57 ∧ Tiles 0 (listing twoSwitches) (encode twoSwitches).length ∧
      (listing twoSwitches).length ≤ effectiveLimit 6 ∧
      (∀ i ∈ listing twoSwitches, ∀ t ∈ i.targets, ∃ j ∈ listing twoSwitches, j.offset = t) ∧
      ∀ i ∈ listing twoSwitches, i.WellShaped :=
  ⟨decode_twoSwitches, by decide +kernel, decode_wellFormed decode_twoSwitches⟩

end CallAtlas.Bytecode
