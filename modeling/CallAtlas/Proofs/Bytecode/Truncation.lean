import CallAtlas.Proofs.Bytecode.Listing
import CallAtlas.Proofs.Bytes.Exact

/-!
# Code cut short

Code that ends inside an instruction is not accepted. It is reported as truncated, with one exception: a
switch over listed keys compares the number of its cases with the bytes that are left before it reads the
first of them, so code that ends among its cases is reported for that number instead.

All other operands are read by steps that need the bytes they take (`exact_readOperands`), and so is the
part of such a switch in front of its cases (`exact_readCaseHeader`).
-/

namespace CallAtlas.Bytecode

open Reader

/-- The bytes end too early. -/
def IsShort (p : Problem) : Prop :=
  p = .endOfData

/-- The problem that readers report at the end of the bytes is the one that `IsShort` means. -/
theorem isShort : IsShort EndOfData.endOfData :=
  rfl

/-- Readers of code that need the bytes they take. -/
abbrev ReadsExactly {α : Type} (r : Reader Problem α) : Prop :=
  r.Exact IsShort

/-! ### Operands -/

/-- `readTableSwitch` needs the bytes it takes. -/
private theorem exact_readTableSwitch (start : Nat) : ReadsExactly (readTableSwitch start) := by
  unfold readTableSwitch
  apply (exact_align isShort (show 0 < 4 by decide)).bind
  intro _
  apply (exact_i32 isShort).bind
  intro default
  apply (exact_i32 isShort).bind
  intro low
  apply (exact_i32 isShort).bind
  intro high
  have hjumps : ∀ n, ReadsExactly (times n fun _ => (i32 : Reader Problem Int)) :=
    exact_times fun _ => exact_i32 isShort
  -- bounds that are refused fail before any jump is read
  split
  · exact (exact_fail _ _).bind fun _ => (hjumps _).bind fun _ => exact_pure _ _
  · exact (hjumps _).bind fun _ => exact_pure _ _

/-- `readWide` needs the bytes it takes. -/
private theorem exact_readWide : ReadsExactly readWide := by
  unfold readWide
  apply (exact_word isShort 1).bind
  intro code
  split
  · exact (exact_skip isShort _).bind fun _ => exact_pure _ _
  · exact exact_fail _ _

/-- All operands but those of a `lookupSwitch` are read by steps that need the bytes they take. -/
theorem exact_readOperands (start : Nat) {form : Form} (hform : form ≠ .lookupSwitch) :
    ReadsExactly (readOperands start form) := by
  cases form with
  | fixed n => exact (exact_skip isShort n).bind fun _ => exact_pure _ _
  | constant8 => exact (exact_word isShort 1).bind fun _ => exact_pure _ _
  | constant16 more =>
    exact (exact_word isShort 2).bind fun _ => (exact_skip isShort more).bind fun _ => exact_pure _ _
  | branch16 => exact (exact_i16 isShort).bind fun _ => exact_pure _ _
  | branch32 => exact (exact_i32 isShort).bind fun _ => exact_pure _ _
  | tableSwitch => exact exact_readTableSwitch start
  -- left out, as the number of its cases is compared with what is there before they are read
  | lookupSwitch => exact absurd rfl hform
  | wide => exact exact_readWide

/-! ### Switches over listed keys -/

/-- The default and the number of cases. -/
def readCaseHeader : Reader Problem (Int × Int) := do
  align 4
  let default ← i32
  let count ← i32
  return (default, count)

/-- The cases, if there can be so many. -/
def readCases (start : Nat) (default count : Int) : Reader Problem Operands := do
  let left ← remaining
  if count < 0 ∨ left < count * 8 then fail (.pairCount count)
  let pairs ← times count.toNat fun _ => return (← i32, ← i32)
  return { targets := (default :: pairs.map Prod.snd).map (start + ·), keys := pairs.map Prod.fst }

/-- `readLookupSwitch` is `readCaseHeader` and then `readCases`. -/
private theorem readLookupSwitch_eq (start : Nat) :
    readLookupSwitch start = readCaseHeader >>= fun h => readCases start h.1 h.2 := by
  simp only [readLookupSwitch, readCaseHeader, readCases, bind_assoc, pure_bind]

/-- `readCaseHeader` needs the bytes it takes. -/
theorem exact_readCaseHeader : ReadsExactly readCaseHeader :=
  (exact_align isShort (show 0 < 4 by decide)).bind fun _ => (exact_i32 isShort).bind fun _ =>
    (exact_i32 isShort).bind fun _ => exact_pure _ _

/-- The bytes in front of the cases of a switch whose operands start at a position. -/
def caseHeaderBytes (pos : Nat) (padding : Vector UInt8 3) (default : Int32) (count : Nat) : List UInt8 :=
  padding.toList.take ((4 - pos % 4) % 4) ++ (int32Bytes default ++ bigEndianBytes 4 count)

/-- The bytes of a `lookupSwitch` are those of `caseHeaderBytes` and then its cases. -/
private theorem Operand.bytes_lookupSwitch (pos : Nat) (padding : Vector UInt8 3) (default : Int32)
    (pairs : List (Int32 × Int32)) (few : pairs.length < 2147483648) :
    (Operand.lookupSwitch padding default pairs few).bytes pos =
      caseHeaderBytes pos padding default pairs.length ++ pairs.flatMap pairBytes := by
  simp only [bytes, caseHeaderBytes, List.append_assoc]

/-- The header of the cases takes eight bytes behind the padding. -/
private theorem length_caseHeaderBytes (pos : Nat) (padding : Vector UInt8 3) (default : Int32) (count : Nat) :
    (caseHeaderBytes pos padding default count).length = (4 - pos % 4) % 4 + 8 := by
  simp only [caseHeaderBytes, List.length_append, length_take_padding, length_int32Bytes,
    length_bigEndianBytes]

/-- `readCaseHeader` reads `caseHeaderBytes` back. -/
private theorem readCaseHeader_of_past {padding : Vector UInt8 3} {default : Int32} {count : Nat}
    (hcount : count < 2147483648) {c c' : Cursor}
    (hpast : c.Past (caseHeaderBytes c.pos padding default count) c') :
    readCaseHeader c = .ok ((default.toInt, (count : Int)), c') := by
  obtain ⟨c₁, hpast₁, hpast⟩ := Cursor.past_append.1 hpast
  obtain ⟨c₂, hpast₂, hpast₃⟩ := Cursor.past_append.1 hpast
  obtain ⟨d, hd, hbytes⟩ := exists_int32 hcount
  rw [← hbytes] at hpast₃
  refine bind_eq_ok.2 ⟨(), c₁, ?_, ?_⟩
  · exact (align_eq_ok (by omega)).2 ⟨_, length_take_padding padding c.pos, hpast₁⟩
  refine bind_eq_ok.2 ⟨_, c₂, i32_eq_ok.2 ⟨default, rfl, hpast₂⟩, ?_⟩
  exact bind_eq_ok.2 ⟨_, c', i32_eq_ok.2 ⟨d, hd.symm, hpast₃⟩, pure_eq_ok.2 ⟨rfl, rfl⟩⟩

/-- Fewer bytes than the cases take are noticed by `readCases` before the first case is read. -/
private theorem readCases_of_short (start : Nat) (default : Int) {count : Nat} {c : Cursor}
    (hshort : c.rest.length < count * 8) :
    readCases start default count c = .error ⟨c.pos, .pairCount count⟩ := by
  have hleft : (remaining : Reader Problem Nat) c = .ok (c.rest.length, c) := rfl
  rw [readCases, bind_of_ok hleft, if_pos (by omega)]
  exact bind_of_error rfl

section
variable {padding : Vector UInt8 3} {default : Int32} {pairs : List (Int32 × Int32)}
  {few : pairs.length < 2147483648} {c : Cursor} {b : UInt8} {missing : List UInt8}
  (hcut : (Operand.lookupSwitch padding default pairs few).bytes c.pos = c.rest ++ b :: missing)
include hcut

/-- A switch whose bytes end in front of its cases lacks bytes: `readLookupSwitch` fails with `IsShort`. -/
private theorem readLookupSwitch_of_cut_header (start : Nat)
    (hshort : c.rest.length < (4 - c.pos % 4) % 4 + 8) :
    ∃ e, readLookupSwitch start c = .error e ∧ IsShort e.cause := by
  have hlength := length_caseHeaderBytes c.pos padding default pairs.length
  rw [Operand.bytes_lookupSwitch] at hcut
  -- what is there is a beginning of the header, and not the whole of it
  obtain ⟨rest, hrest⟩ : c.rest <+: caseHeaderBytes c.pos padding default pairs.length :=
    List.prefix_of_prefix_length_le ⟨b :: missing, hcut.symm⟩ ⟨_, rfl⟩ (by omega)
  have hneeds : readCaseHeader.Needs IsShort c.pos (caseHeaderBytes c.pos padding default pairs.length) :=
    exact_readCaseHeader.needs fun d d' hpos hpast => readCaseHeader_of_past few (by rwa [hpos])
  cases rest with
  | nil =>
    rw [← hrest, List.append_nil] at hlength
    omega
  | cons b' rest =>
    obtain ⟨e, he, hcause⟩ := hneeds rfl hrest.symm
    exact ⟨e, by rw [readLookupSwitch_eq, bind_of_error he], hcause⟩

/-- A switch whose bytes end among its cases has too many of them for the bytes that are left, which
    `readLookupSwitch` reports as `pairCount`. -/
private theorem readLookupSwitch_of_cut_cases (start : Nat)
    (hlong : (4 - c.pos % 4) % 4 + 8 ≤ c.rest.length) :
    readLookupSwitch start c =
      .error ⟨c.pos + ((4 - c.pos % 4) % 4 + 8), .pairCount pairs.length⟩ := by
  have hlength := length_caseHeaderBytes c.pos padding default pairs.length
  rw [Operand.bytes_lookupSwitch] at hcut
  -- the header is there, and behind it fewer bytes than the cases take
  obtain ⟨rest, hrest⟩ : caseHeaderBytes c.pos padding default pairs.length <+: c.rest :=
    List.prefix_of_prefix_length_le ⟨_, rfl⟩ ⟨b :: missing, hcut.symm⟩ (by omega)
  obtain ⟨c₁, hpast, hrest₁⟩ := Cursor.exists_past hrest.symm
  have hfew : c₁.rest.length < pairs.length * 8 := by
    rw [← hrest, List.append_assoc, List.append_cancel_left_eq, ← hrest₁] at hcut
    rw [← length_flatMap_pairBytes, hcut, List.length_append, List.length_cons]
    omega
  rw [readLookupSwitch_eq, bind_of_ok (readCaseHeader_of_past few hpast), readCases_of_short start _ hfew,
    hpast.pos_eq, hlength]

end

/-! ### Instructions -/

namespace Instruction

/-- Where the cases of a switch over listed keys start: behind the padding, the default and their number. -/
def casesStart (i : Instruction) : Int :=
  (i.offset + 4) / 4 * 4 + 8

/-- Code of `n` bytes ends among the cases of a switch over listed keys. -/
def EndsInCases (i : Instruction) (n : Nat) : Prop :=
  i.opcode = 0xab ∧ i.casesStart ≤ n

instance (i : Instruction) (n : Nat) : Decidable (i.EndsInCases n) :=
  inferInstanceAs (Decidable (_ ∧ _))

/-- What is reported if code of `n` bytes ends inside an instruction. -/
structure Reports (i : Instruction) (n : Nat) (e : Reader.Failure Problem) : Prop where
  inCases : i.EndsInCases n → (e.position : Int) = i.casesStart ∧ e.cause = .pairCount i.keys.length
  elsewhere : ¬ i.EndsInCases n → IsShort e.cause

end Instruction

private theorem formOf_lookupSwitch : formOf 0xab = some .lookupSwitch :=
  rfl

/-- An operand of form `.lookupSwitch` stands behind the code 0xab, and no other. -/
private theorem lookupSwitch_iff (x : Written) : x.operand.form = .lookupSwitch ↔ x.code = 0xab := by
  constructor
  · intro h
    exact code_of_lookupSwitch (h ▸ x.fits)
  · intro h
    have hfits := x.fits
    rw [h, formOf_lookupSwitch] at hfits
    exact (Option.some.inj hfits).symm

/-- `readOperands` on the operands of an instruction that is cut off behind its operation. -/
private theorem readOperands_of_cut {x : Written} {c : Cursor} {pos : Nat} {b : UInt8} {missing : List UInt8}
    (hpos : c.pos = pos + 1) (hcut : x.operand.bytes (pos + 1) = c.rest ++ b :: missing) :
    ∃ e, readOperands pos x.operand.form c = .error e ∧
      (x.instruction pos).Reports (c.pos + c.rest.length) e := by
  rw [← hpos] at hcut
  -- only a switch over listed keys does not read its bytes one after the other
  by_cases hform : x.operand.form = .lookupSwitch
  · have hcode := (lookupSwitch_iff x).1 hform
    obtain ⟨code, operand, fits⟩ := x
    replace hcode : code = 0xab := hcode
    cases operand with
    | lookupSwitch padding default pairs few =>
      have hkeys : ((⟨code, .lookupSwitch padding default pairs few, fits⟩ : Written).instruction
          pos).keys.length = pairs.length := List.length_map _
      have hstart : (pos + 4) / 4 * 4 + 8 = c.pos + ((4 - c.pos % 4) % 4 + 8) := by omega
      -- where the cut is counted from the operands, and where `EndsInCases` counts it from the instruction
      have hends : ((⟨code, .lookupSwitch padding default pairs few, fits⟩ : Written).instruction
          pos).EndsInCases (c.pos + c.rest.length) ↔ (4 - c.pos % 4) % 4 + 8 ≤ c.rest.length := by
        simp only [Instruction.EndsInCases, Instruction.casesStart, Written.instruction]
        omega
      by_cases hlong : (4 - c.pos % 4) % 4 + 8 ≤ c.rest.length
      · refine ⟨_, readLookupSwitch_of_cut_cases hcut pos hlong, ?_, ?_⟩
        · intro _
          rw [hkeys]
          exact ⟨by simp only [Instruction.casesStart, Written.instruction]; omega, rfl⟩
        · intro h
          exact absurd (hends.2 hlong) h
      · obtain ⟨e, he, hcause⟩ := readLookupSwitch_of_cut_header hcut pos (Nat.lt_of_not_le hlong)
        exact ⟨e, he, fun h => absurd (hends.1 h) hlong, fun _ => hcause⟩
    | _ => cases hform
  · have hneeds : (readOperands pos x.operand.form).Needs IsShort c.pos (x.operand.bytes c.pos) :=
      (exact_readOperands pos hform).needs fun d d' hd hpast =>
        readOperands_eq_ok.2 ⟨x.operand, rfl, rfl, by rwa [hd]⟩
    obtain ⟨e, he, hcause⟩ := hneeds rfl hcut
    exact ⟨e, he, fun h => absurd ((lookupSwitch_iff x).2 h.1) hform, fun _ => hcause⟩

/-- `Instruction.read` fails on an instruction of which some bytes are there, but not all. -/
private theorem read_of_cut {x : Written} {c : Cursor} {b : UInt8} {missing : List UInt8}
    (hcut : x.bytes c.pos = c.rest ++ b :: missing) (hsome : c.rest ≠ []) :
    ∃ e, Instruction.read c = .error e ∧ (x.instruction c.pos).Reports (c.pos + c.rest.length) e := by
  obtain ⟨first, rest, hrest⟩ := List.exists_cons_of_ne_nil hsome
  rw [hrest, Written.bytes, List.cons_append, List.cons.injEq] at hcut
  obtain ⟨rfl, hcut⟩ := hcut
  -- the operation is there, so the cut is among its operands
  obtain ⟨c₁, hpast, hrest₁⟩ := Cursor.exists_past (show c.rest = [UInt8.ofNat x.code] ++ rest from hrest)
  have hpos : c₁.pos = c.pos + 1 := hpast.pos_eq
  have hcode : (UInt8.ofNat x.code).toNat = x.code :=
    Nat.mod_eq_of_lt (Nat.lt_trans (lt_of_formOf x.fits) (by decide))
  have hu8 : (u8 : Reader Problem Nat) c = .ok (x.code, c₁) := u8_eq_ok.2 ⟨_, hcode.symm, hpast⟩
  obtain ⟨e, he, hreports⟩ := readOperands_of_cut hpos (hrest₁.symm ▸ hcut)
  have hlength : c₁.pos + c₁.rest.length = c.pos + c.rest.length := by
    rw [hpos, hrest₁, hrest, List.length_cons]
    omega
  refine ⟨e, ?_, hlength ▸ hreports⟩
  have hposition : (position : Reader Problem Nat) c = .ok (c.pos, c) := rfl
  rw [Instruction.read, bind_of_ok hposition, bind_of_ok hu8, operation?_eq, x.fits]
  exact bind_of_error he

/-! ### Whole codes -/

/-- The encoding of two lists is that of the first, and behind it that of the second. -/
private theorem encodeFrom_append (pos : Nat) (xs ys : List Written) :
    encodeFrom pos (xs ++ ys) = encodeFrom pos xs ++ encodeFrom (pos + (encodeFrom pos xs).length) ys := by
  induction xs generalizing pos with
  | nil => rfl
  | cons x xs ih =>
    rw [List.cons_append, encodeFrom, encodeFrom, ih, List.append_assoc, List.length_append, Nat.add_assoc]

/-- A cut leaves the instructions before it and some bytes of the next one. -/
private theorem take_encode (before after : List Written) {x : Written} {m : Nat}
    (hm : m ≤ (x.bytes (encode before).length).length) :
    (encode (before ++ x :: after)).take ((encode before).length + m) =
      encode before ++ (x.bytes (encode before).length).take m := by
  have hencode : encode (before ++ x :: after) = encode before ++ (x.bytes (encode before).length ++
      encodeFrom ((encode before).length + (x.bytes (encode before).length).length) after) := by
    simp only [encode, encodeFrom_append, encodeFrom, Nat.zero_add]
  rw [hencode, List.take_length_add_append, List.take_append_of_le_length hm]

/-- An instruction of a `listingFrom` stands behind the bytes of those before it. -/
private theorem exists_split_of_mem_listingFrom {pos : Nat} {xs : List Written} {i : Instruction}
    (h : i ∈ listingFrom pos xs) : ∃ before x after, xs = before ++ x :: after ∧
      i = x.instruction (pos + (encodeFrom pos before).length) := by
  induction xs generalizing pos with
  | nil => cases h
  | cons x xs ih =>
    rcases List.mem_cons.1 h with rfl | h
    · exact ⟨[], x, xs, rfl, rfl⟩
    · obtain ⟨before, y, after, rfl, rfl⟩ := ih h
      refine ⟨x :: before, y, after, rfl, ?_⟩
      rw [encodeFrom, List.length_append, Nat.add_assoc]

/-- `readInstructions` reads whole instructions, and then reports the one that is cut off. -/
private theorem readInstructions_of_cut {limit budget : Nat} (done : List Instruction) {c : Cursor}
    {xs : List Written} {x : Written} {part missing : List UInt8} {b : UInt8}
    (hbudget : xs.length < budget) (hrest : c.rest = encodeFrom c.pos xs ++ part)
    (hcut : x.bytes (c.pos + (encodeFrom c.pos xs).length) = part ++ b :: missing) (hsome : part ≠ []) :
    ∃ e, readInstructions limit done c budget = .error (.malformed e.position e.cause) ∧
      (x.instruction (c.pos + (encodeFrom c.pos xs).length)).Reports (c.pos + c.rest.length) e := by
  obtain ⟨budget, rfl⟩ := Nat.exists_eq_add_one_of_ne_zero (Nat.ne_zero_of_lt hbudget)
  have hnil : c.rest ≠ [] := by
    rw [hrest]
    exact List.append_ne_nil_of_right_ne_nil _ hsome
  rw [readInstructions, if_neg hnil]
  -- on the whole instructions in front of the cut
  induction xs generalizing done c budget with
  | nil =>
    obtain rfl : c.rest = part := hrest
    obtain ⟨e, he, hreports⟩ := read_of_cut hcut hsome
    exact ⟨e, by rw [he], hreports⟩
  | cons y ys ih =>
    rw [encodeFrom, List.append_assoc] at hrest
    rw [encodeFrom, List.length_append, ← Nat.add_assoc] at hcut ⊢
    -- the first of them is read, and the cut stays where it is
    obtain ⟨c₁, hpast, hrest₁⟩ := Cursor.exists_past hrest
    rw [← hpast.pos_eq] at hcut hrest₁ ⊢
    have hnil₁ : c₁.rest ≠ [] := by
      rw [hrest₁]
      exact List.append_ne_nil_of_right_ne_nil _ hsome
    have hbudget₁ : ys.length < budget := Nat.lt_of_succ_lt_succ hbudget
    obtain ⟨budget, rfl⟩ := Nat.exists_eq_add_one_of_ne_zero (Nat.ne_zero_of_lt hbudget₁)
    have hlength : c₁.pos + c₁.rest.length = c.pos + c.rest.length := by
      rw [hpast.pos_eq, hpast.rest_eq, List.length_append, Nat.add_assoc]
    obtain ⟨e, he, hreports⟩ := ih (y.instruction c.pos :: done) hrest₁ hcut budget hbudget₁ hnil₁
    refine ⟨e, ?_, hlength ▸ hreports⟩
    rw [read_eq_ok.2 ⟨y, rfl, hpast⟩]
    simp only
    rw [readInstructions, if_neg hnil₁, he]

/-- `decode` fails on whole instructions with a part of one behind them, and reports what `Reports` says. -/
private theorem decode_of_cut {limit : Nat} {before : List Written} {x : Written} {part missing : List UInt8}
    {b : UInt8} (hlimit : before.length < limit)
    (hcut : x.bytes (encode before).length = part ++ b :: missing) (hsome : part ≠ []) :
    ∃ e, decode (encode before ++ part) limit = .error (.malformed e.position e.cause) ∧
      (x.instruction (encode before).length).Reports (encode before ++ part).length e := by
  -- `readInstructions_of_cut` speaks of any start
  have hzero : (encode before).length = 0 + (encodeFrom 0 before).length := (Nat.zero_add _).symm
  rw [hzero] at hcut ⊢
  obtain ⟨e, he, hreports⟩ := readInstructions_of_cut [] (c := .ofBytes (encode before ++ part)) hlimit
    rfl hcut hsome
  refine ⟨e, ?_, ?_⟩
  · rw [decode, he]
    rfl
  · have hlength : (Cursor.ofBytes (encode before ++ part)).pos + (encode before ++ part).length =
      (encode before ++ part).length := Nat.zero_add _
    exact hlength ▸ hreports

/-- Accepted code that is cut inside an instruction is not accepted by `decode`. It is reported as truncated,
    unless the cut is among the cases of a switch over listed keys (`EndsInCases`): then their number is
    reported. -/
theorem decode_take_inside {code : List UInt8} {cap : Int} {is : List Instruction}
    (h : decode code (effectiveLimit cap) = .ok is) {i : Instruction} (hi : i ∈ is) {n : Nat}
    (hstart : i.offset < n) (hstop : n < i.offset + i.size) :
    ∃ f, decode (code.take n) (effectiveLimit cap) = .error f ∧
      (f.failure.kind = .truncatedCode ↔ ¬ i.EndsInCases n) ∧
      (i.EndsInCases n → ∃ p : Nat, p = i.casesStart ∧ f = .malformed p (.pairCount i.keys.length)) := by
  obtain ⟨xs, rfl, rfl, hlimit, -⟩ := decode_eq_ok_iff.1 h
  -- the instruction, with those in front of it and those behind
  obtain ⟨before, x, after, rfl, hx⟩ := exists_split_of_mem_listingFrom hi
  rw [Nat.zero_add] at hx
  have hoffset : i.offset = (encode before).length := by rw [hx]; rfl
  have hsize : i.size = (x.bytes (encode before).length).length := by rw [hx]; rfl
  -- `m` bytes of it are left
  obtain ⟨m, rfl⟩ : ∃ m, n = (encode before).length + m := ⟨n - (encode before).length, by omega⟩
  have hm : m < (x.bytes (encode before).length).length := by omega
  have htake := take_encode before after (Nat.le_of_lt hm)
  have hcut : x.bytes (encode before).length = (x.bytes (encode before).length).take m ++
      (x.bytes (encode before).length)[m] :: (x.bytes (encode before).length).drop (m + 1) := by
    rw [← List.drop_eq_getElem_cons hm, List.take_append_drop]
  have hsome : (x.bytes (encode before).length).take m ≠ [] := by
    rw [Ne, ← List.length_eq_zero_iff, List.length_take]
    omega
  have hbefore : before.length < effectiveLimit cap := by
    rw [List.length_append, List.length_cons] at hlimit
    omega
  obtain ⟨e, he, hreports⟩ := decode_of_cut hbefore hcut hsome
  have hlength : (encode before ++ (x.bytes (encode before).length).take m).length =
      (encode before).length + m := by
    rw [List.length_append, List.length_take]
    omega
  -- back from the written form to the instruction of the listing
  replace hreports : i.Reports ((encode before).length + m) e := by
    rw [hx, ← hlength]
    exact hreports
  refine ⟨_, htake ▸ he, ?_, ?_⟩
  · constructor
    · intro hkind hends
      rw [(hreports.inCases hends).2] at hkind
      cases hkind
    · intro hends
      rw [hreports.elsewhere hends]
      rfl
  · intro hends
    obtain ⟨hposition, hcause⟩ := hreports.inCases hends
    exact ⟨e.position, hposition, by rw [hcause]⟩

/-- `decode_take_inside` at a cut among the jumps of a table, and at one among the cases of the other switch. -/
theorem decode_take_inside_twoSwitches :
    decode (encode twoSwitches) (effectiveLimit 6) = .ok (listing twoSwitches) ∧
      (listing twoSwitches).map (fun i => (i.opcode, i.offset, i.size)) =
        [(0x00, 0, 1), (0xaa, 1, 23), (0xc4, 24, 4), (0xa7, 28, 3), (0xab, 31, 25), (0xb1, 56, 1)] ∧
      (∃ f, decode ((encode twoSwitches).take 20) (effectiveLimit 6) = .error f ∧
        f.failure.kind = .truncatedCode) ∧
      decode ((encode twoSwitches).take 45) (effectiveLimit 6) = .error (.malformed 40 (.pairCount 2)) := by
  refine ⟨decode_twoSwitches, by decide +kernel, ?_, ?_⟩
  · -- the table is cut short
    obtain ⟨f, hf, hkind, -⟩ := decode_take_inside (n := 20) decode_twoSwitches
      (List.getElem_mem (show 1 < (listing twoSwitches).length by decide)) (by decide) (by decide)
    exact ⟨f, hf, hkind.2 (by decide)⟩
  · -- too few bytes are left for two cases, which is found out at their number
    obtain ⟨f, hf, -, hcases⟩ := decode_take_inside (n := 45) decode_twoSwitches
      (List.getElem_mem (show 4 < (listing twoSwitches).length by decide)) (by decide) (by decide)
    obtain ⟨p, hp, rfl⟩ := hcases (by decide)
    obtain rfl : p = 40 := Int.ofNat_inj.1 (hp.trans (by decide))
    exact hf

/-- A switch with one case. -/
def oneCase : List Written :=
  [⟨0xab, .lookupSwitch #v[0, 0, 0] 20 [(0, 20)] (by decide), formOf_lookupSwitch⟩,
   ⟨0xac, .plain [], rfl⟩]

/-- `decode` does not report code as truncated that ends in front of the only case of a switch. -/
theorem missing_case_not_truncated :
    encode oneCase = [0xab, 0, 0, 0, 0, 0, 0, 20, 0, 0, 0, 1, 0, 0, 0, 0, 0, 0, 0, 20, 0xac] ∧
      decode (encode oneCase) (effectiveLimit 0) = .ok (listing oneCase) ∧
      (∃ i ∈ listing oneCase, i.offset < 12 ∧ 12 < i.offset + i.size) ∧
      decode ((encode oneCase).take 12) (effectiveLimit 0) = .error (.malformed 12 (.pairCount 1)) ∧
      (Fault.malformed 12 (.pairCount 1)).failure.kind = .other := by
  have hclosed : Closed (listing oneCase) := by
    unfold Closed
    decide +kernel
  refine ⟨by decide +kernel, decode_eq_ok_iff.2 ⟨oneCase, rfl, rfl, by decide, hclosed⟩, ?_, ?_, rfl⟩
  · decide +kernel
  · decide +kernel

end CallAtlas.Bytecode
