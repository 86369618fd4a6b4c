import Mathlib.Data.List.Nodup
import CallAtlas.ClassFile.Basic

/-!
# Lines of instructions

A line table says at which instructions source lines start. Its entries come in any order, several may
start at one instruction, and the tables of a method are put one behind the other. The line of an
instruction is found in one pass that keeps the best entry so far; `IsNearest` says which entry that is
without the pass, and `IsBest` is what the pass keeps.
-/

namespace CallAtlas.ClassFile

variable {lines lines' : List LineEntry} {pc : Nat} {e e' : LineEntry}

/-- Of the entries that do not start behind `pc`, the entry `e` is the first of those that start last. -/
structure IsNearest (lines : List LineEntry) (pc : Nat) (e : LineEntry) : Prop where
  le : e.pc ≤ pc
  greatest : ∀ d ∈ lines, d.pc ≤ pc → d.pc ≤ e.pc
  first : lines.find? (fun d => d.pc == e.pc) = some e

/-- The nearest entry is one of the table. -/
theorem IsNearest.mem (h : IsNearest lines pc e) : e ∈ lines :=
  List.mem_of_find?_eq_some h.first

/-- At most one entry `IsNearest`, since only one is the first to start where it does. -/
theorem IsNearest.unique (h : IsNearest lines pc e) (h' : IsNearest lines pc e') : e = e' := by
  have hpc : e.pc = e'.pc :=
    Nat.le_antisymm (h'.greatest e h.mem h.le) (h.greatest e' h'.mem h'.le)
  have hfirst := h.first
  rw [hpc, h'.first] at hfirst
  exact (Option.some.inj hfirst).symm

/-! ### The pass over the table -/

/-- What is known of the best entry when the entries `seen` have been passed. -/
def IsBest (pc : Nat) (seen : List LineEntry) : Option LineEntry → Prop
  | none => ∀ d ∈ seen, pc < d.pc
  | some e => IsNearest seen pc e

/-- An entry that starts behind all the others up to `pc` `IsNearest` when it comes last. -/
private theorem isNearest_concat (hle : e.pc ≤ pc) (h : ∀ d ∈ lines, d.pc ≤ pc → d.pc < e.pc) :
    IsNearest (lines ++ [e]) pc e := by
  refine ⟨hle, ?_, ?_⟩
  · intro d hd hdpc
    rcases List.mem_append.1 hd with hd | hd
    · exact Nat.le_of_lt (h d hd hdpc)
    · obtain rfl := List.mem_singleton.1 hd
      exact Nat.le_refl d.pc
  · -- no other starts where it does, so it is the first of its kind
    have hnone : lines.find? (fun d => d.pc == e.pc) = none := by
      rw [List.find?_eq_none]
      intro d hd heq
      have hdpc : d.pc = e.pc := beq_iff_eq.1 heq
      have := h d hd (hdpc ▸ hle)
      omega
    rw [List.find?_append, hnone]
    simp

/-- The entry that `IsNearest` stays so in front of one that starts no later, or behind `pc`. -/
theorem IsNearest.concat (h : IsNearest lines pc e) (hd : ¬ (e.pc < e'.pc ∧ e'.pc ≤ pc)) :
    IsNearest (lines ++ [e']) pc e := by
  refine ⟨h.le, ?_, ?_⟩
  · intro d hmem hdpc
    rcases List.mem_append.1 hmem with hmem | hmem
    · exact h.greatest d hmem hdpc
    · rw [List.mem_singleton.1 hmem] at hdpc ⊢
      omega
  · rw [List.find?_append, h.first, Option.some_or]

/-- `IsBest` is kept by one entry more: the step of the pass. -/
theorem IsBest.nearer {seen : List LineEntry} {best : Option LineEntry} (h : IsBest pc seen best)
    (e : LineEntry) : IsBest pc (seen ++ [e]) (lineAt.nearer pc best e) := by
  cases best with
  | none =>
    -- all entries so far start behind `pc`, so any other is nearer
    have habove : ∀ d ∈ seen, pc < d.pc := h
    by_cases hle : e.pc ≤ pc
    · rw [lineAt.nearer, if_pos hle]
      refine isNearest_concat hle fun d hd hdpc => ?_
      have := habove d hd
      omega
    · rw [lineAt.nearer, if_neg hle]
      intro d hd
      rcases List.mem_append.1 hd with hd | hd
      · exact habove d hd
      · rw [List.mem_singleton.1 hd]
        omega
  | some b =>
    -- the comparison is strict: of two entries that start together the first stays
    have hb : IsNearest seen pc b := h
    by_cases hbetter : b.pc < e.pc ∧ e.pc ≤ pc
    · rw [lineAt.nearer, if_pos hbetter]
      refine isNearest_concat hbetter.2 fun d hd hdpc => ?_
      have := hb.greatest d hd hdpc
      omega
    · rw [lineAt.nearer, if_neg hbetter]
      exact hb.concat hbetter

/-- `IsBest` is kept by the rest of the table: the run of the pass. -/
theorem IsBest.foldl {seen : List LineEntry} {best : Option LineEntry} (h : IsBest pc seen best)
    (lines : List LineEntry) :
    IsBest pc (seen ++ lines) (lines.foldl (lineAt.nearer pc) best) := by
  -- by induction on what is left of the table, for every beginning that is behind
  induction lines generalizing seen best with
  | nil => rwa [List.append_nil, List.foldl_nil]
  | cons e lines ih =>
    rw [List.foldl_cons, List.append_cons]
    exact ih (h.nearer e)

/-- After the whole table the pass holds the best of its entries. -/
private theorem isBest_foldl (lines : List LineEntry) (pc : Nat) :
    IsBest pc lines (lines.foldl (lineAt.nearer pc) none) := by
  have hstart : IsBest pc [] none := by simp [IsBest]
  exact hstart.foldl lines

/-! ### What is found -/

/-- `lineAt` gives the line of an entry that `IsNearest`, or zero where all entries start behind `pc`. -/
theorem lineAt_cases (lines : List LineEntry) (pc : Nat) :
    (∃ e, IsNearest lines pc e ∧ lineAt lines pc = e.line) ∨
      (∀ e ∈ lines, pc < e.pc) ∧ lineAt lines pc = 0 := by
  have hbest := isBest_foldl lines pc
  rw [lineAt, if_neg (Int.not_lt.2 (Int.natCast_nonneg pc)), Int.toNat_natCast]
  -- the pass has found nothing, or an entry that is the nearest of the whole table
  cases hfold : lines.foldl (lineAt.nearer pc) none with
  | none =>
    rw [hfold] at hbest
    exact .inr ⟨hbest, rfl⟩
  | some e =>
    rw [hfold] at hbest
    exact .inl ⟨e, hbest, rfl⟩

/-- The entry that `IsNearest` gives the line. -/
private theorem lineAt_of_isNearest (h : IsNearest lines pc e) : lineAt lines pc = e.line := by
  rcases lineAt_cases lines pc with ⟨b, hb, hline⟩ | ⟨habove, -⟩
  · rw [hline, h.unique hb]
  · exact absurd h.le (Nat.not_le.2 (habove e h.mem))

/-- Where all entries start behind `pc`, `lineAt` is zero. -/
private theorem lineAt_of_forall_lt (h : ∀ e ∈ lines, pc < e.pc) : lineAt lines pc = 0 := by
  rcases lineAt_cases lines pc with ⟨b, hb, -⟩ | ⟨-, hline⟩
  · exact absurd hb.le (Nat.not_le.2 (h b hb.mem))
  · exact hline

/-- `IsNearest` does not depend on the order of entries that all start at different instructions, since every
    one of them is the first of its kind. -/
theorem IsNearest.perm (hdistinct : (lines.map LineEntry.pc).Nodup) (hperm : lines.Perm lines')
    (h : IsNearest lines pc e) : IsNearest lines' pc e := by
  refine ⟨h.le, fun d hd => h.greatest d (hperm.mem_iff.2 hd), ?_⟩
  have hmem : e ∈ lines' := hperm.mem_iff.1 h.mem
  cases hfind : lines'.find? (fun d => d.pc == e.pc) with
  | none =>
    rw [List.find?_eq_none] at hfind
    exact absurd (beq_self_eq_true e.pc) (hfind e hmem)
  | some d =>
    -- the first entry there starts where `e` does, so that it is `e`
    have hd : d ∈ lines := hperm.mem_iff.2 (List.mem_of_find?_eq_some hfind)
    have hpc : d.pc = e.pc := by simpa using List.find?_some hfind
    rw [List.inj_on_of_nodup_map hdistinct hd h.mem hpc]

/-- `lineAt` does not depend on the order of entries that all start at different instructions. -/
private theorem lineAt_perm (hdistinct : (lines.map LineEntry.pc).Nodup) (hperm : lines.Perm lines')
    (pc : Nat) : lineAt lines' pc = lineAt lines pc := by
  rcases lineAt_cases lines pc with ⟨e, he, hline⟩ | ⟨habove, hline⟩
  · rw [hline, lineAt_of_isNearest (he.perm hdistinct hperm)]
  · rw [hline, lineAt_of_forall_lt fun d hd => habove d (hperm.mem_iff.2 hd)]

/-- `lineAt` is the line of the entry that `IsNearest`, whatever the order of the table, and zero if all entries
    start behind the instruction. A table whose entries start at different instructions may be put in any
    order. -/
theorem lineAt_nearest_preceding (lines : List LineEntry) (pc : Nat) :
    (∀ line, lineAt lines pc = line ↔
      (∃ e, IsNearest lines pc e ∧ e.line = line) ∨ (∀ e ∈ lines, pc < e.pc) ∧ line = 0) ∧
    ((lines.map LineEntry.pc).Nodup →
      ∀ lines', lines.Perm lines' → lineAt lines' pc = lineAt lines pc) := by
  refine ⟨fun line => ⟨?_, ?_⟩, fun hdistinct lines' hperm => lineAt_perm hdistinct hperm pc⟩
  · rintro rfl
    rcases lineAt_cases lines pc with ⟨e, he, hline⟩ | hnone
    · exact .inl ⟨e, he, hline.symm⟩
    · exact .inr hnone
  · rintro (⟨e, he, rfl⟩ | ⟨habove, rfl⟩)
    · exact lineAt_of_isNearest he
    · exact lineAt_of_forall_lt habove

/-- `lineAt_nearest_preceding` on a table out of order in which two entries start at byte 8: for byte 9 the
    first of the two counts. Without the second the table may be turned round. -/
theorem lineAt_unordered :
    lineAt [⟨12, 9⟩, ⟨8, 12⟩, ⟨0, 10⟩, ⟨8, 13⟩] (9 : Nat) = 12 ∧
      lineAt [⟨0, 10⟩, ⟨8, 12⟩, ⟨12, 9⟩] (9 : Nat) = lineAt [⟨12, 9⟩, ⟨8, 12⟩, ⟨0, 10⟩] (9 : Nat) := by
  constructor
  · refine ((lineAt_nearest_preceding _ 9).1 12).2 (.inl ⟨⟨8, 12⟩, ⟨by decide, ?_, rfl⟩, rfl⟩)
    simp
  · exact (lineAt_nearest_preceding [⟨12, 9⟩, ⟨8, 12⟩, ⟨0, 10⟩] 9).2 (by decide)
      [⟨0, 10⟩, ⟨8, 12⟩, ⟨12, 9⟩] (by decide)

end CallAtlas.ClassFile
