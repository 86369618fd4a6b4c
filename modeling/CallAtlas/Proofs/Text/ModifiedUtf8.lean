import CallAtlas.Text.ModifiedUtf8
import CallAtlas.Text.Utf8

/-!
# Where modified UTF-8 is UTF-8

Units of 16 bits are read back from their bytes (`unitsFrom_flatMap_unitBytes`). Texts of the basic plane
without the character zero have the same bytes in UTF-8, so they are read back from these.
-/

namespace CallAtlas.Text

/-- The bytes of `toBytes` are as many as `byteSize` adds up over the characters. -/
theorem length_toBytes (s : String) : (toBytes s).length = byteSize s.toList := by
  unfold toBytes byteSize
  induction s.toList with
  | nil => rfl
  | cons c cs ih =>
    rw [List.flatMap_cons, List.length_append, String.length_utf8EncodeChar, ih, List.foldr_cons]

namespace ModifiedUtf8

/-- A character of the basic plane other than zero. -/
def isBasic (c : Char) : Bool :=
  0 < c.toNat && c.toNat < 0x10000

/-! ### Bytes -/

/-- The mask for two bytes, over all that five bits can hold. -/
private theorem mask_two : ∀ k < 32, UInt8.ofNat (k + 0xc0) &&& 0xe0 = 0xc0 := by decide

/-- The masks for three bytes, over all that four bits can hold. -/
private theorem mask_three : ∀ k < 16, UInt8.ofNat (k + 0xe0) &&& 0xe0 ≠ 0xc0 ∧
    UInt8.ofNat (k + 0xe0) &&& 0xf0 = 0xe0 := by decide

/-- Six bits behind the mark make a byte that continues. -/
theorem isContinuation_ofNat : ∀ k < 64, isContinuation (UInt8.ofNat (k + 0x80)) = true := by decide

theorem toNat_ofNat_of_lt {n : Nat} (h : n < 256) : (UInt8.ofNat n).toNat = n :=
  Nat.mod_eq_of_lt h

/-- A byte is plain if its number is below 128. -/
theorem ofNat_lt_iff {n : Nat} (h : n < 256) : UInt8.ofNat n < 0x80 ↔ n < 128 := by
  rw [UInt8.lt_iff_toNat_lt, toNat_ofNat_of_lt h]
  rfl

theorem ofNat_ne_zero {n : Nat} (hpos : 0 < n) (hlt : n < 256) : UInt8.ofNat n ≠ 0 := by
  intro h
  have := congrArg UInt8.toNat h
  rw [toNat_ofNat_of_lt hlt] at this
  exact absurd this (Nat.ne_of_gt hpos)

/-! ### Units as bytes -/

/-- `unitsFrom` reads a plain byte as a unit. -/
theorem unitsFrom_one {a : UInt8} (hzero : a ≠ 0) (ha : a < 0x80) (before : List Nat)
    (r : List UInt8) : unitsFrom before (a :: r) = unitsFrom (a.toNat :: before) r := by
  rw [unitsFrom.eq_def]
  simp only [if_neg hzero, if_pos ha]

/-- `unitsFrom` reads two bytes with the marks of such a unit as one unit. -/
theorem unitsFrom_two {a b : UInt8} (hzero : a ≠ 0) (hone : ¬ a < 0x80) (htwo : a &&& 0xe0 = 0xc0)
    (hb : isContinuation b = true) (before : List Nat) (r : List UInt8) :
    unitsFrom before (a :: b :: r) = unitsFrom ((a.toNat % 32 * 64 + payload b) :: before) r := by
  rw [unitsFrom.eq_def]
  simp only [if_neg hzero, if_neg hone, if_pos htwo, hb, if_true]

/-- `unitsFrom` reads three bytes with the marks of such a unit as one unit. -/
theorem unitsFrom_three {a b c : UInt8} (hzero : a ≠ 0) (hone : ¬ a < 0x80)
    (htwo : a &&& 0xe0 ≠ 0xc0) (hthree : a &&& 0xf0 = 0xe0) (hb : isContinuation b = true)
    (hc : isContinuation c = true) (before : List Nat) (r : List UInt8) :
    unitsFrom before (a :: b :: c :: r) =
      unitsFrom ((a.toNat % 16 * 4096 + payload b * 64 + payload c) :: before) r := by
  rw [unitsFrom.eq_def]
  simp only [if_neg hzero, if_neg hone, if_neg htwo, if_pos hthree, hb, hc, Bool.and_self, if_true]

/-- The bytes of a unit of 16 bits. Zero takes two, so that no byte is zero. -/
def unitBytes (u : Nat) : List UInt8 :=
  if u = 0 then [0xc0, 0x80]
  else if u < 0x80 then [UInt8.ofNat u]
  else if u < 0x800 then [UInt8.ofNat (u / 64 + 0xc0), UInt8.ofNat (u % 64 + 0x80)]
  else [UInt8.ofNat (u / 4096 + 0xe0), UInt8.ofNat (u / 64 % 64 + 0x80), UInt8.ofNat (u % 64 + 0x80)]

/-- `unitsFrom` reads the `unitBytes` of a unit as that unit. -/
private theorem unitsFrom_unitBytes {u : Nat} (hu : u < 0x10000) (before : List Nat) (rest : List UInt8) :
    unitsFrom before (unitBytes u ++ rest) = unitsFrom (u :: before) rest := by
  unfold unitBytes
  split
  · -- zero takes two bytes, so that the reader does not stop at it
    next hzero =>
    subst hzero
    exact unitsFrom_two (by decide) (by decide) (by decide) (by decide) before rest
  split
  · next hzero hlt =>
    have hplain := (ofNat_lt_iff (show u < 256 by omega)).2 hlt
    rw [List.singleton_append, unitsFrom_one (ofNat_ne_zero (by omega) (by omega)) hplain,
      toNat_ofNat_of_lt (by omega)]
  split
  · have hone : ¬ UInt8.ofNat (u / 64 + 0xc0) < 0x80 := by
      rw [ofNat_lt_iff (by omega)]
      omega
    -- the marks are taken off again, in the same places
    have hvalue : (u / 64 + 0xc0) % 32 * 64 + (u % 64 + 0x80) % 64 = u := by omega
    rw [List.cons_append, List.singleton_append, unitsFrom_two
      (ofNat_ne_zero (by omega) (by omega)) hone (mask_two _ (by omega))
      (isContinuation_ofNat _ (by omega)), payload, toNat_ofNat_of_lt (by omega),
      toNat_ofNat_of_lt (by omega), hvalue]
  · have hone : ¬ UInt8.ofNat (u / 4096 + 0xe0) < 0x80 := by
      rw [ofNat_lt_iff (by omega)]
      omega
    have hvalue : (u / 4096 + 0xe0) % 16 * 4096 + (u / 64 % 64 + 0x80) % 64 * 64 +
        (u % 64 + 0x80) % 64 = u := by omega
    obtain ⟨htwo, hthree⟩ := mask_three (u / 4096) (by omega)
    rw [List.cons_append, List.cons_append, List.singleton_append, unitsFrom_three
      (ofNat_ne_zero (by omega) (by omega)) hone htwo hthree
      (isContinuation_ofNat _ (by omega)) (isContinuation_ofNat _ (by omega)), payload, payload,
      toNat_ofNat_of_lt (by omega), toNat_ofNat_of_lt (by omega), toNat_ofNat_of_lt (by omega),
      hvalue]

/-- A character of the basic plane has the `unitBytes` of its number in UTF-8. -/
private theorem utf8EncodeChar_eq_unitBytes {c : Char} (hc : isBasic c) :
    String.utf8EncodeChar c = unitBytes c.toNat := by
  simp only [isBasic, Bool.and_eq_true, decide_eq_true_eq] at hc
  obtain ⟨hpos, hlt⟩ := hc
  have hval : c.val.toNat = c.toNat := rfl
  unfold String.utf8EncodeChar unitBytes
  simp only [hval]
  generalize c.toNat = v at hpos hlt
  rw [if_neg (show ¬ v = 0 by omega)]
  -- the bounds of both encodings are the same numbers, in one written as powers of two
  by_cases hone : v < 0x80
  · rw [if_pos (by omega), if_pos hone]
  rw [if_neg (by omega), if_neg hone]
  by_cases htwo : v < 0x800
  · rw [if_pos (by omega), if_pos htwo, Nat.mod_eq_of_lt (show v / 64 < 32 by omega)]
  rw [if_neg (by omega), if_neg htwo, if_pos (by omega), Nat.mod_eq_of_lt (show v / 4096 < 16 by omega)]

/-- `unitsFrom` reads the `unitBytes` of units as these units. -/
theorem unitsFrom_flatMap_unitBytes {us : List Nat} (hus : ∀ u ∈ us, u < 0x10000)
    (before : List Nat) : unitsFrom before (us.flatMap unitBytes) = some (before.reverse ++ us) := by
  induction us generalizing before with
  | nil => simp [unitsFrom]
  | cons u us ih =>
    rw [List.flatMap_cons, unitsFrom_unitBytes (hus u List.mem_cons_self),
      ih fun v hv => hus v (List.mem_cons_of_mem u hv)]
    simp

/-- `units?` reads the bytes of a text of the basic plane as its characters. -/
private theorem units?_toBytes {s : String} (hs : ∀ c ∈ s.toList, isBasic c) :
    units? (toBytes s) = some (s.toList.map Char.toNat) := by
  -- each character of the basic plane is one unit
  have hbytes : toBytes s = (s.toList.map Char.toNat).flatMap unitBytes := by
    rw [toBytes, List.flatMap_map, List.flatMap_def, List.flatMap_def]
    exact congrArg List.flatten (List.map_congr_left fun c hc => utf8EncodeChar_eq_unitBytes (hs c hc))
  rw [hbytes, units?, unitsFrom_flatMap_unitBytes, List.reverse_nil, List.nil_append]
  intro u hu
  obtain ⟨c, hc, rfl⟩ := List.mem_map.1 hu
  have hbasic := hs c hc
  simp only [isBasic, Bool.and_eq_true, decide_eq_true_eq] at hbasic
  exact hbasic.2

/-! ### Units as characters -/

/-- `joinFrom` reads a unit on its own that starts no pair. -/
theorem joinFrom_cons {u : Nat} (hu : isHigh u = false) (before : List Char) (us : List Nat) :
    joinFrom before (u :: us) = joinFrom (single u :: before) us := by
  cases us with
  | nil => rw [joinFrom, joinFrom]
  | cons v us => rw [joinFrom, hu, Bool.false_and, if_neg Bool.false_ne_true]

/-- `joinFrom` reads units that start no pairs one by one. -/
private theorem joinFrom_eq_map {us : List Nat} (hus : ∀ u ∈ us, isHigh u = false) (before : List Char) :
    joinFrom before us = before.reverse ++ us.map single := by
  induction us generalizing before with
  | nil => simp [joinFrom]
  | cons u us ih =>
    rw [joinFrom_cons (hus u List.mem_cons_self), ih fun w hw => hus w (List.mem_cons_of_mem u hw)]
    simp

/-- No character is one of the units of a pair. -/
theorem isHigh_toNat (c : Char) : isHigh c.toNat = false ∧ isLow c.toNat = false := by
  have hvalid : c.toNat < 0xd800 ∨ 0xdfff < c.toNat ∧ c.toNat < 0x110000 := c.valid
  simp only [isHigh, isLow, Bool.and_eq_false_iff, decide_eq_false_iff_not]
  omega

/-- `single` of the number of a character is that character. -/
theorem single_toNat (c : Char) : single c.toNat = c := by
  rw [single, (isHigh_toNat c).1, (isHigh_toNat c).2]
  exact Char.ofNat_toNat c

/-- Plain bytes are units of their own. -/
private theorem units?_of_isPlain {bs : List UInt8} (hbs : bs.all isPlain) (before : List Nat) :
    unitsFrom before bs = some (before.reverse ++ bs.map UInt8.toNat) := by
  induction bs generalizing before with
  | nil => simp [unitsFrom]
  | cons b bs ih =>
    simp only [List.all_cons, Bool.and_eq_true, isPlain, bne_iff_ne, decide_eq_true_eq] at hbs
    rw [unitsFrom_one hbs.1.1 hbs.1.2, ih (by simpa [isPlain] using hbs.2)]
    simp

/-- A plain byte is a unit that belongs to no pair. -/
theorem isHigh_of_isPlain {b : UInt8} (hb : isPlain b) :
    isHigh b.toNat = false ∧ isLow b.toNat = false := by
  simp only [isPlain, Bool.and_eq_true, decide_eq_true_eq, UInt8.lt_iff_toNat_lt] at hb
  have hlt : b.toNat < 128 := hb.2
  simp only [isHigh, isLow, Bool.and_eq_false_iff, decide_eq_false_iff_not]
  omega

/-- `decode?` reads plain bytes one for one, which is what the long way would do. -/
theorem decode?_eq (bs : List UInt8) : decode? bs = (units? bs).map join := by
  unfold decode?
  split
  · -- plain bytes are units by themselves, and none is half of a pair
    next hplain =>
    have hbs := List.all_eq_true.1 hplain
    rw [units?, units?_of_isPlain hplain, Option.map_some, join, joinFrom_eq_map]
    · simp only [List.reverse_nil, List.nil_append, List.map_map, Option.some.injEq]
      refine List.map_congr_left fun b hb => ?_
      rw [Function.comp_apply, single, (isHigh_of_isPlain (hbs b hb)).1,
        (isHigh_of_isPlain (hbs b hb)).2]
      rfl
    · intro u hu
      obtain ⟨b, hb, rfl⟩ := List.mem_map.1 hu
      exact (isHigh_of_isPlain (hbs b hb)).1
  · rfl

/-- `decode?` reads texts of the basic plane without zero back from their `toBytes`. -/
theorem decode?_toBytes {s : String} (hs : ∀ c ∈ s.toList, isBasic c) :
    decode? (toBytes s) = some s.toList := by
  rw [decode?_eq, units?_toBytes hs, Option.map_some, join, joinFrom_eq_map]
  · have hsingle : single ∘ Char.toNat = id := funext single_toNat
    simp only [List.reverse_nil, List.nil_append, List.map_map, hsingle, List.map_id]
  · intro u hu
    obtain ⟨c, -, rfl⟩ := List.mem_map.1 hu
    exact (isHigh_toNat c).1

end ModifiedUtf8
end CallAtlas.Text
