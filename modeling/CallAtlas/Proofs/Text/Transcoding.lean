import CallAtlas.Proofs.Text.ModifiedUtf8

/-!
# Modified UTF-8, there and back

A character is written as one or two units of 16 bits, and each unit as one to three bytes (`encode`).
Reading undoes the two steps one after the other: `units?` finds the units again, and `join` the characters.
Bytes are refused exactly if they do not fall into groups with the leading bits of a unit (`IsSequence`).
-/

namespace CallAtlas.Text.ModifiedUtf8

/-! ### Characters as units -/

/-- The units of a character: itself, or the two surrogates that share out the ten high and the ten low bits of
    its distance from the basic plane. -/
def charUnits (c : Char) : List Nat :=
  if c.toNat < 0x10000 then [c.toNat]
  else [0xd800 + (c.toNat - 0x10000) / 1024, 0xdc00 + (c.toNat - 0x10000) % 1024]

/-- The bytes of a text. -/
def encode (cs : List Char) : List UInt8 :=
  (cs.flatMap charUnits).flatMap unitBytes

/-- The number of a character is below `0x110000`. -/
theorem toNat_lt (c : Char) : c.toNat < 0x110000 := by
  have hvalid : c.toNat < 0xd800 ∨ 0xdfff < c.toNat ∧ c.toNat < 0x110000 := c.valid
  omega

/-- The units of a character have 16 bits. -/
private theorem lt_of_mem_charUnits {c : Char} {u : Nat} (hu : u ∈ charUnits c) : u < 0x10000 := by
  have hc := toNat_lt c
  unfold charUnits at hu
  split at hu
  · next hlt => exact List.mem_singleton.1 hu ▸ hlt
  · simp only [List.mem_cons, List.not_mem_nil, or_false] at hu
    omega

/-- `joinFrom` reads the `charUnits` of a character as that character. -/
private theorem joinFrom_charUnits (c : Char) (before : List Char) (us : List Nat) :
    joinFrom before (charUnits c ++ us) = joinFrom (c :: before) us := by
  unfold charUnits
  split
  · rw [List.singleton_append, joinFrom_cons (isHigh_toNat c).1, single_toNat]
  · next hbasic =>
    have hc := toNat_lt c
    -- the two units are a high and a low surrogate, which no other unit is
    have hpair : (isHigh (0xd800 + (c.toNat - 0x10000) / 1024) &&
        isLow (0xdc00 + (c.toNat - 0x10000) % 1024)) = true := by
      simp only [isHigh, isLow, Bool.and_eq_true, decide_eq_true_eq]
      omega
    have hvalue : 0x10000 + (0xd800 + (c.toNat - 0x10000) / 1024 - 0xd800) * 1024 +
        (0xdc00 + (c.toNat - 0x10000) % 1024 - 0xdc00) = c.toNat := by omega
    rw [List.cons_append, List.singleton_append, joinFrom, if_pos hpair, hvalue, Char.ofNat_toNat]

/-- `joinFrom` reads the units of a text as that text. -/
private theorem joinFrom_flatMap_charUnits (cs before : List Char) :
    joinFrom before (cs.flatMap charUnits) = before.reverse ++ cs := by
  induction cs generalizing before with
  | nil => simp [joinFrom]
  | cons c cs ih =>
    rw [List.flatMap_cons, joinFrom_charUnits, ih]
    simp

/-- `decode?` reads every text back from its bytes. -/
theorem decode?_encode (cs : List Char) : decode? (encode cs) = some cs := by
  have hunits : units? (encode cs) = some (cs.flatMap charUnits) := by
    refine unitsFrom_flatMap_unitBytes (fun u hu => ?_) []
    obtain ⟨c, -, hc⟩ := List.mem_flatMap.1 hu
    exact lt_of_mem_charUnits hc
  rw [decode?_eq, hunits, Option.map_some, join, joinFrom_flatMap_charUnits, List.reverse_nil,
    List.nil_append]

/-! ### Which bytes are refused -/

/-- The bytes of one unit, by their leading bits. -/
inductive IsForm : List UInt8 → Prop
  | one {a : UInt8} (hpos : 0 < a) (hlt : a < 0x80) : IsForm [a]
  | two {a b : UInt8} (ha : a >>> 5 = 0b110) (hb : b >>> 6 = 0b10) : IsForm [a, b]
  | three {a b c : UInt8} (ha : a >>> 4 = 0b1110) (hb : b >>> 6 = 0b10) (hc : c >>> 6 = 0b10) :
    IsForm [a, b, c]

/-- The bytes fall into forms of units, one behind the other. -/
def IsSequence (bs : List UInt8) : Prop :=
  ∃ forms : List (List UInt8), forms.flatten = bs ∧ ∀ f ∈ forms, IsForm f

/-- One form more in front is still an `IsSequence`. -/
theorem IsSequence.append {f bs : List UInt8} (hf : IsForm f) (h : IsSequence bs) :
    IsSequence (f ++ bs) := by
  obtain ⟨forms, rfl, hforms⟩ := h
  exact ⟨f :: forms, List.flatten_cons, List.forall_mem_cons.2 ⟨hf, hforms⟩⟩

/-- What holds of the bytes with numbers below 256 holds of all. -/
theorem forall_byte {p : UInt8 → Prop} (h : ∀ k < 256, p (UInt8.ofNat k)) (a : UInt8) : p a := by
  have ha := h a.toNat a.toNat_lt
  rwa [UInt8.ofNat_toNat] at ha

/-- The leading bits of two bytes, as `unitsFrom` asks for them. -/
private theorem lead_two_iff (a : UInt8) : a >>> 5 = 0b110 ↔ a ≠ 0 ∧ ¬ a < 0x80 ∧ a &&& 0xe0 = 0xc0 :=
  forall_byte (p := fun a => a >>> 5 = 0b110 ↔ a ≠ 0 ∧ ¬ a < 0x80 ∧ a &&& 0xe0 = 0xc0)
    (by decide +kernel) a

/-- The leading bits of three bytes, as `unitsFrom` asks for them. -/
private theorem lead_three_iff (a : UInt8) :
    a >>> 4 = 0b1110 ↔ a ≠ 0 ∧ ¬ a < 0x80 ∧ a &&& 0xe0 ≠ 0xc0 ∧ a &&& 0xf0 = 0xe0 :=
  forall_byte (p := fun a => a >>> 4 = 0b1110 ↔
    a ≠ 0 ∧ ¬ a < 0x80 ∧ a &&& 0xe0 ≠ 0xc0 ∧ a &&& 0xf0 = 0xe0) (by decide +kernel) a

/-- The leading bits of a byte that continues a unit. -/
theorem isContinuation_iff (b : UInt8) : b >>> 6 = 0b10 ↔ isContinuation b = true :=
  forall_byte (p := fun b => b >>> 6 = 0b10 ↔ isContinuation b = true) (by decide +kernel) b

/-- An `IsForm` is read by `unitsFrom` as one unit. -/
private theorem IsForm.exists_unit {f : List UInt8} (hf : IsForm f) :
    ∃ u, ∀ before rest, unitsFrom before (f ++ rest) = unitsFrom (u :: before) rest := by
  -- the first byte tells how many follow
  cases hf with
  | one hpos hlt =>
    have hzero := UInt8.ne_of_lt hpos
    exact ⟨_, unitsFrom_one hzero.symm hlt⟩
  | two ha hb =>
    obtain ⟨hzero, hone, htwo⟩ := (lead_two_iff _).1 ha
    exact ⟨_, unitsFrom_two hzero hone htwo ((isContinuation_iff _).1 hb)⟩
  | three ha hb hc =>
    obtain ⟨hzero, hone, htwo, hthree⟩ := (lead_three_iff _).1 ha
    exact ⟨_, unitsFrom_three hzero hone htwo hthree ((isContinuation_iff _).1 hb)
      ((isContinuation_iff _).1 hc)⟩

/-- Forms one behind the other are read by `unitsFrom`. -/
private theorem isSome_unitsFrom_flatten {forms : List (List UInt8)} (h : ∀ f ∈ forms, IsForm f)
    (before : List Nat) : (unitsFrom before forms.flatten).isSome := by
  induction forms generalizing before with
  | nil => rfl
  | cons f forms ih =>
    obtain ⟨u, hu⟩ := (h f List.mem_cons_self).exists_unit
    rw [List.flatten_cons, hu]
    exact ih (fun g hg => h g (List.mem_cons_of_mem f hg)) (u :: before)

/-- Bytes that `unitsFrom` reads fall into forms: each step of the reader takes one off. -/
private theorem isSequence_of_isSome (before : List Nat) (bs : List UInt8)
    (h : (unitsFrom before bs).isSome) : IsSequence bs := by
  fun_induction unitsFrom before bs with
  | case1 before => exact ⟨[], rfl, List.forall_mem_nil _⟩
  -- the three steps that go on, each with the tests that it has passed
  | case3 before a r hzero hone ih => exact (ih h).append (.one (UInt8.pos_iff_ne_zero.2 hzero) hone)
  | case4 before a hzero hone htwo b r hb ih =>
    exact (ih h).append (.two ((lead_two_iff a).2 ⟨hzero, hone, htwo⟩) ((isContinuation_iff b).2 hb))
  | case7 before a hzero hone htwo hthree b c r hbc ih =>
    rw [Bool.and_eq_true] at hbc
    exact (ih h).append (.three ((lead_three_iff a).2 ⟨hzero, hone, htwo, hthree⟩)
      ((isContinuation_iff b).2 hbc.1) ((isContinuation_iff c).2 hbc.2))
  | _ => cases h

/-- `decode?` refuses exactly the bytes that are no `IsSequence`. -/
theorem decode?_eq_none_iff (bs : List UInt8) : decode? bs = none ↔ ¬ IsSequence bs := by
  rw [decode?_eq, Option.map_eq_none_iff, ← Option.not_isSome_iff_eq_none]
  refine not_congr ⟨isSequence_of_isSome [] bs, ?_⟩
  rintro ⟨forms, rfl, hforms⟩
  exact isSome_unitsFrom_flatten hforms []

/-- `decode?` undoes `encode`, the way for plain bytes leads where the long one does, and what is refused are
    the bytes that do not fall into forms of units. -/
theorem decoding_inverts_encoding :
    (∀ cs, decode? (encode cs) = some cs) ∧
    (∀ bs, bs.all isPlain = true → decode? bs = some (bs.map fun b => Char.ofNat b.toNat) ∧
      (units? bs).map join = some (bs.map fun b => Char.ofNat b.toNat)) ∧
    ∀ bs, decode? bs = none ↔ ¬ IsSequence bs := by
  refine ⟨decode?_encode, fun bs hplain => ?_, decode?_eq_none_iff⟩
  have hshort : decode? bs = some (bs.map fun b => Char.ofNat b.toNat) := if_pos hplain
  exact ⟨hshort, (decode?_eq bs).symm.trans hshort⟩

/-- `decoding_inverts_encoding` on a text with a character of every length, two plain bytes, and a zero byte,
    which is refused. -/
theorem decoding_inverts_encoding_mixed :
    encode ['A', Char.ofNat 0, 'é', '€', '😀'] = [0x41, 0xc0, 0x80, 0xc3, 0xa9, 0xe2, 0x82, 0xac,
      0xed, 0xa0, 0xbd, 0xed, 0xb8, 0x80] ∧
    decode? (encode ['A', Char.ofNat 0, 'é', '€', '😀']) = some ['A', Char.ofNat 0, 'é', '€', '😀'] ∧
    (units? [0x4f, 0x6b]).map join = some ['O', 'k'] ∧ ¬ IsSequence [0x4f, 0] := by
  obtain ⟨hinverse, hplain, hrefused⟩ := decoding_inverts_encoding
  exact ⟨by decide, hinverse _, (hplain [0x4f, 0x6b] (by decide)).2, (hrefused [0x4f, 0]).1 (by decide)⟩

end CallAtlas.Text.ModifiedUtf8
