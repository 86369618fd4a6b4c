import CallAtlas.Bytecode.CallSite
import CallAtlas.Proofs.Bytecode.Encoding

/-!
# Instructions tile the code

Decoded instructions stand one behind the other without gaps: each starts where the one before it
ends, the first at the start of the code and the last up to its end (`tiles_of_decode`). Their
positions ascend, and so do those of the calls among them (`offset_callSites_pairwise`).
-/

namespace CallAtlas.Bytecode

/-- The instructions fill the positions from `start` up to `stop`, none of them empty. -/
def Tiles : (start : Nat) → List Instruction → (stop : Nat) → Prop
  | start, [], stop => start = stop
  | start, i :: is, stop => i.offset = start ∧ 0 < i.size ∧ Tiles (start + i.size) is stop

/-- What `encodeFrom` writes one behind the other is tiled by `listingFrom`. -/
private theorem tiles_listingFrom (pos : Nat) (xs : List Written) :
    Tiles pos (listingFrom pos xs) (pos + (encodeFrom pos xs).length) := by
  induction xs generalizing pos with
  | nil => rfl
  | cons x xs ih =>
    refine ⟨rfl, List.length_pos_iff.2 (x.bytes_ne_nil pos), ?_⟩
    rw [encodeFrom, List.length_append, ← Nat.add_assoc]
    exact ih (pos + (x.bytes pos).length)

/-- Decoded instructions tile the code, from its first byte to its last. -/
theorem tiles_of_decode {code : List UInt8} {limit : Nat} {is : List Instruction}
    (h : decode code limit = .ok is) : Tiles 0 is code.length := by
  obtain ⟨xs, rfl, rfl, -, -⟩ := decode_eq_ok_iff.1 h
  have htiles := tiles_listingFrom 0 xs
  rwa [Nat.zero_add] at htiles

/-- Instructions that tile from `start` on have offsets from `start` on. -/
private theorem Tiles.le_offset {start stop : Nat} {is : List Instruction} (h : Tiles start is stop) :
    ∀ i ∈ is, (start : Int) ≤ i.offset := by
  induction is generalizing start with
  | nil => simp
  | cons j js ih =>
    intro i hi
    obtain ⟨hoffset, -, hrest⟩ := h
    rcases List.mem_cons.1 hi with rfl | hi
    · exact Int.le_of_eq hoffset.symm
    · have := ih hrest i hi
      omega

/-- Instructions that tile stand in ascending order. -/
theorem Tiles.pairwise {start stop : Nat} {is : List Instruction} (h : Tiles start is stop) :
    is.Pairwise fun i j => i.offset < j.offset := by
  induction is generalizing start with
  | nil => exact List.Pairwise.nil
  | cons i is ih =>
    obtain ⟨hoffset, hsize, hrest⟩ := h
    refine List.Pairwise.cons ?_ (ih hrest)
    intro j hj
    -- the first is not empty, and all others start where it ends or behind
    have := hrest.le_offset j hj
    omega

/-- Each call of `callSitesFrom` stands at the position of an instruction, in the same order. -/
private theorem offset_callSitesFrom_sublist (lineAt : Int → Nat) (n : Nat) (is : List Instruction) :
    ((callSitesFrom lineAt n is).map CallSite.offset).Sublist (is.map Instruction.offset) := by
  induction is generalizing n with
  | nil => exact List.Sublist.slnil
  | cons i is ih =>
    simp only [callSitesFrom]
    split
    · exact (ih (n + 1)).cons_cons i.offset
    · exact (ih (n + 1)).cons i.offset

/-- Each call of `callSitesFrom` is that of an instruction which `invokeKind?` counts as a call. -/
theorem exists_invoke_of_mem_callSitesFrom {lineAt : Int → Nat} {n : Nat} {is : List Instruction}
    {s : CallSite} (hs : s ∈ callSitesFrom lineAt n is) :
    ∃ i ∈ is, invokeKind? i.opcode = some s.kind ∧ i.offset = s.offset := by
  induction is generalizing n with
  | nil => exact absurd hs List.not_mem_nil
  | cons i is ih =>
    -- a call of the rest is found by induction, whether the first instruction calls or not
    have hrest : s ∈ callSitesFrom lineAt (n + 1) is →
        ∃ j ∈ i :: is, invokeKind? j.opcode = some s.kind ∧ j.offset = s.offset := by
      intro hs
      obtain ⟨j, hj, hcall⟩ := ih hs
      exact ⟨j, List.mem_cons_of_mem i hj, hcall⟩
    cases hkind : invokeKind? i.opcode with
    | none =>
      simp only [callSitesFrom, hkind] at hs
      exact hrest hs
    | some kind =>
      simp only [callSitesFrom, hkind] at hs
      rcases List.mem_cons.1 hs with rfl | hs
      · exact ⟨i, List.mem_cons_self, hkind, rfl⟩
      · exact hrest hs

/-- The `callSites` of decoded code stand in ascending order, none before the start of the code. -/
theorem offset_callSites_pairwise {code : List UInt8} {limit : Nat} {is : List Instruction}
    (lineAt : Int → Nat) (h : decode code limit = .ok is) :
    ((callSites lineAt is).map CallSite.offset).Pairwise (· < ·) ∧
      ∀ s ∈ callSites lineAt is, 0 ≤ s.offset := by
  have htiles := tiles_of_decode h
  have hsub := offset_callSitesFrom_sublist lineAt 0 is
  refine ⟨(List.pairwise_map.2 htiles.pairwise).sublist hsub, ?_⟩
  intro s hs
  obtain ⟨i, hi, hoffset⟩ := List.mem_map.1 (hsub.mem (List.mem_map_of_mem hs))
  have := htiles.le_offset i hi
  omega

end CallAtlas.Bytecode
