import Mathlib.Data.List.Infix
import Mathlib.Logic.Relation
import CallAtlas.Drawing.Dot
import CallAtlas.Proofs.Facts.Key

/-!
# Names as identifiers

An identifier keeps letters, digits and underscores of a name. Any other character is written as an underscore
and its number, in at least four hexadecimal digits. What is written stands for itself in a name: the name
`p_002eA` has the identifier of `p.A`. So two names have one identifier exactly if they become the same name
when characters are spelled out (`identifier_eq_iff_spelledTo`), and a name is the only one with its identifier
exactly if it has no other characters and spells out none (`eq_of_identifier_eq_iff`).

Names in which nothing is spelled out, and in which no character has a number of more than four digits, are told
apart by their identifiers (`spelled_inj`).
-/

namespace CallAtlas

namespace Text

/-! ### Hexadecimal digits -/

/-- The digits of a number in base sixteen are such digits. -/
private theorem exists_digitChar_of_mem_toDigits {n : Nat} {c : Char} (h : c ∈ Nat.toDigits 16 n) :
    ∃ d < 16, c = d.digitChar := by
  -- the digits in front are those of the number divided by sixteen
  induction n using Nat.strongRecOn with
  | ind n ih =>
    rw [Nat.toDigits_eq_if (by decide)] at h
    split at h
    · next hsmall => exact ⟨n, hsmall, List.mem_singleton.1 h⟩
    · next hlarge =>
      rcases List.mem_append.1 h with hfront | hlast
      · exact ih (n / 16) (by omega) hfront
      · exact ⟨n % 16, Nat.mod_lt n (by decide), List.mem_singleton.1 hlast⟩

/-- The value of hexadecimal digits, anything else counting as zero. -/
def hexValue (cs : List Char) : Nat :=
  cs.foldl (fun n c => n * 16 + (hexDigit? c).getD 0) 0

/-- `hexDigit?` reads a digit back. -/
private theorem hexDigit?_digitChar : ∀ d < 16, hexDigit? d.digitChar = some d := by
  decide

/-- `hexValue` reads a number back from its digits. -/
private theorem hexValue_toDigits (n : Nat) : hexValue (Nat.toDigits 16 n) = n := by
  induction n using Nat.strongRecOn with
  | ind n ih =>
    rw [Nat.toDigits_eq_if (by decide)]
    split
    · next hsmall => simp [hexValue, hexDigit?_digitChar n hsmall]
    · next hlarge =>
      -- the last digit is added to sixteen times what stands in front
      have hfront := ih (n / 16) (by omega)
      have hlast := hexDigit?_digitChar (n % 16) (Nat.mod_lt n (by decide))
      unfold hexValue at hfront ⊢
      rw [List.foldl_append, hfront, List.foldl_cons, hlast, List.foldl_nil, Option.getD_some]
      omega

/-- Zeros in front do not change the `hexValue`. -/
private theorem hexValue_zeros_append (k : Nat) (cs : List Char) :
    hexValue (List.replicate k '0' ++ cs) = hexValue cs := by
  induction k with
  | zero => rfl
  | succ k ih => exact ih

/-- `hexFill` writes the digits of a number behind as many zeros as are missing. -/
theorem toList_hexFill (w n : Nat) : (hexFill w n).toList =
    List.replicate (w - (Nat.toDigits 16 n).length) '0' ++ Nat.toDigits 16 n := by
  simp [hexFill, padLeft, hex]

/-- A number can be read off `hexFill`, whatever the width. -/
private theorem hexFill_inj {w m n : Nat} (h : (hexFill w m).toList = (hexFill w n).toList) : m = n := by
  rw [← hexValue_toDigits m, ← hexValue_zeros_append (w - (Nat.toDigits 16 m).length), ← toList_hexFill, h,
    toList_hexFill, hexValue_zeros_append, hexValue_toDigits]

/-- `hexFill` writes numbers of at most sixteen bits in four digits. -/
private theorem length_hexFill_four {n : Nat} (hn : n < 0x10000) : (hexFill 4 n).toList.length = 4 := by
  have hdigits := (Nat.length_toDigits_le_iff (b := 16) (k := 4) (by decide) (by decide)).2 hn
  rw [toList_hexFill, List.length_append, List.length_replicate]
  omega

/-- `hexFill` writes nothing but hexadecimal digits. -/
private theorem exists_digitChar_of_mem_hexFill {w n : Nat} {c : Char} (h : c ∈ (hexFill w n).toList) :
    ∃ d < 16, c = d.digitChar := by
  rw [toList_hexFill] at h
  rcases List.mem_append.1 h with hzero | hdigit
  · exact ⟨0, by decide, (List.mem_replicate.1 hzero).2⟩
  · exact exists_digitChar_of_mem_toDigits hdigit

end Text

namespace Drawing

/-! ### What is written for a name -/

/-- Hexadecimal digits are plain (`isPlainChar`). -/
private theorem isPlainChar_digitChar : ∀ d < 16, isPlainChar d.digitChar = true := by
  decide

/-- No hexadecimal digit is an underscore. -/
private theorem digitChar_ne_underscore : ∀ d < 16, d.digitChar ≠ '_' := by
  decide

/-- `hexFill` writes no underscore. -/
private theorem underscore_notMem_hexFill (w n : Nat) : '_' ∉ (Text.hexFill w n).toList := by
  intro hmem
  obtain ⟨d, hd, heq⟩ := Text.exists_digitChar_of_mem_hexFill hmem
  exact digitChar_ne_underscore d hd heq.symm

/-- `identifierChar` keeps a plain character. -/
theorem identifierChar_of_plain {c : Char} (h : isPlainChar c = true) : (identifierChar c).toList = [c] := by
  rw [identifierChar, if_pos h]
  exact String.toList_singleton c

/-- `identifierChar` writes any other character as an underscore and its number. -/
theorem identifierChar_of_other {c : Char} (h : isPlainChar c = false) :
    (identifierChar c).toList = '_' :: (Text.hexFill 4 c.toNat).toList := by
  rw [identifierChar, h, if_neg Bool.false_ne_true, String.toList_append]
  rfl

/-- Whatever a character is, `identifierChar` writes plain characters for it. -/
private theorem isPlainChar_of_mem_identifierChar {c d : Char} (h : d ∈ (identifierChar c).toList) :
    isPlainChar d = true := by
  cases hc : isPlainChar c with
  | true =>
    rw [identifierChar_of_plain hc, List.mem_singleton] at h
    rwa [h]
  | false =>
    rw [identifierChar_of_other hc, List.mem_cons] at h
    -- an underscore, or a digit behind it
    rcases h with rfl | hdigit
    · rfl
    · obtain ⟨n, hn, rfl⟩ := Text.exists_digitChar_of_mem_hexFill hdigit
      exact isPlainChar_digitChar n hn

/-- A name as it stands in its identifier. -/
def spelled (cs : List Char) : List Char :=
  cs.flatMap fun c => (identifierChar c).toList

/-- An `identifier` is the `spelled` name behind `n_`. -/
theorem toList_identifier (name : String) : (identifier name).toList = 'n' :: '_' :: spelled name.toList := by
  simp [identifier, spelled, String.toList_join, List.flatMap_def, Function.comp_def]

/-- Names share their `identifier` exactly if they are `spelled` alike. -/
theorem identifier_eq_iff {a b : String} :
    identifier a = identifier b ↔ spelled a.toList = spelled b.toList := by
  rw [← String.toList_inj, toList_identifier, toList_identifier]
  simp

/-- Two names in a row are `spelled` one after the other. -/
theorem spelled_append (cs ds : List Char) : spelled (cs ++ ds) = spelled cs ++ spelled ds :=
  List.flatMap_append

/-- The first character of a name is `spelled` first. -/
theorem spelled_cons (c : Char) (cs : List Char) :
    spelled (c :: cs) = (identifierChar c).toList ++ spelled cs :=
  List.flatMap_cons

/-- A plain character in front stands for itself. -/
theorem spelled_cons_of_plain {c : Char} (h : isPlainChar c = true) (cs : List Char) :
    spelled (c :: cs) = c :: spelled cs := by
  rw [spelled_cons, identifierChar_of_plain h, List.singleton_append]

/-- Any other character in front is written as an underscore and its number. -/
theorem spelled_cons_of_other {c : Char} (h : isPlainChar c = false) (cs : List Char) :
    spelled (c :: cs) = '_' :: ((Text.hexFill 4 c.toNat).toList ++ spelled cs) := by
  rw [spelled_cons, identifierChar_of_other h, List.cons_append]

/-- A name is `spelled` in plain characters. -/
theorem isPlainChar_of_mem_spelled {cs : List Char} {d : Char} (h : d ∈ spelled cs) : isPlainChar d = true := by
  obtain ⟨c, -, hc⟩ := List.mem_flatMap.1 h
  exact isPlainChar_of_mem_identifierChar hc

/-- Plain characters are `spelled` as they stand. -/
theorem spelled_of_plain {cs : List Char} (h : ∀ c ∈ cs, isPlainChar c = true) : spelled cs = cs :=
  (List.flatMap_congr fun c hc => identifierChar_of_plain (h c hc)).trans (List.flatMap_singleton' cs)

/-! ### Names with one identifier -/

/-- In a name stands what is written for a character that is not plain. -/
def SpellsOut (cs : List Char) (c : Char) : Prop :=
  isPlainChar c = false ∧ (identifierChar c).toList <:+: cs

/-- A character and what `identifierChar` writes for it are `spelled` alike. -/
private theorem spelled_insert (before : List Char) (c : Char) (behind : List Char) :
    spelled (before ++ c :: behind) = spelled (before ++ (identifierChar c).toList ++ behind) := by
  have hself : spelled (identifierChar c).toList = (identifierChar c).toList :=
    spelled_of_plain fun d => isPlainChar_of_mem_identifierChar
  rw [spelled_append, spelled_cons, spelled_append, spelled_append, hself, List.append_assoc]

/-- One name becomes another if one of its characters is spelled out. -/
def SpellsTo (cs ds : List Char) : Prop :=
  ∃ before c behind, isPlainChar c = false ∧ cs = before ++ c :: behind ∧
    ds = before ++ (identifierChar c).toList ++ behind

/-- One name becomes another if some of its characters are spelled out, one after the other. -/
def SpelledTo : List Char → List Char → Prop :=
  Relation.ReflTransGen SpellsTo

/-- What a name is `SpelledTo` is `spelled` as the name itself. -/
private theorem SpelledTo.spelled_eq {cs ds : List Char} (h : SpelledTo cs ds) : spelled cs = spelled ds := by
  -- each step spells out one character
  induction h with
  | refl => rfl
  | tail _ hstep ih =>
    obtain ⟨before, c, behind, -, rfl, rfl⟩ := hstep
    rw [ih, spelled_insert]

/-- What is spelled out behind other characters (`SpelledTo`) leaves these alone. -/
theorem SpelledTo.append_left {cs ds : List Char} (h : SpelledTo cs ds) (front : List Char) :
    SpelledTo (front ++ cs) (front ++ ds) := by
  refine Relation.ReflTransGen.lift (front ++ ·) ?_ _ _ h
  rintro _ _ ⟨before, c, behind, hc, rfl, rfl⟩
  exact ⟨front ++ before, c, behind, hc, by simp, by simp⟩

/-- Character by character, a name is `SpelledTo` what stands in its identifier. -/
private theorem spelledTo_spelled (cs : List Char) : SpelledTo cs (spelled cs) := by
  induction cs with
  | nil => exact .refl
  | cons c cs ih =>
    cases hc : isPlainChar c with
    | true =>
      rw [spelled_cons_of_plain hc]
      exact ih.append_left [c]
    | false =>
      rw [spelled_cons]
      -- the first character is spelled out, then those behind it
      exact .head ⟨[], c, cs, hc, rfl, rfl⟩ (ih.append_left _)

/-- Two names have one `identifier` exactly if both are `SpelledTo` one name. -/
theorem identifier_eq_iff_spelledTo {a b : String} :
    identifier a = identifier b ↔ ∃ cs, SpelledTo a.toList cs ∧ SpelledTo b.toList cs := by
  rw [identifier_eq_iff]
  constructor
  · exact fun h => ⟨_, spelledTo_spelled a.toList, h ▸ spelledTo_spelled b.toList⟩
  · rintro ⟨cs, ha, hb⟩
    exact ha.spelled_eq.trans hb.spelled_eq.symm

/-- `identifierChar` writes several characters for one that is not plain. -/
private theorem one_lt_length_identifierChar {c : Char} (h : isPlainChar c = false) :
    1 < (identifierChar c).toList.length := by
  have hdigits : 0 < (Text.hexFill 4 c.toNat).toList.length := by
    rw [Text.toList_hexFill, List.length_append]
    have := Nat.length_toDigits_pos (b := 16) (n := c.toNat)
    omega
  rw [identifierChar_of_other h, List.length_cons]
  omega

/-- No other name has the `identifier` of a name exactly if its characters are plain, and it `SpellsOut` none
    that is not. -/
theorem eq_of_identifier_eq_iff (a : String) : (∀ b, identifier b = identifier a → b = a) ↔
    (∀ c ∈ a.toList, isPlainChar c = true) ∧ ∀ c, ¬ SpellsOut a.toList c := by
  constructor
  · intro hunique
    -- what is written for the name is a name of its own, with the same identifier
    have hself : String.ofList (spelled a.toList) = a := by
      apply hunique
      rw [identifier_eq_iff, String.toList_ofList]
      exact spelled_of_plain fun c => isPlainChar_of_mem_spelled
    refine ⟨fun c hc => ?_, ?_⟩
    · rw [← hself, String.toList_ofList] at hc
      exact isPlainChar_of_mem_spelled hc
    · rintro c ⟨hc, before, behind, hspells⟩
      -- the character that is spelled out can be put in its place, which makes the name shorter
      have hother : String.ofList (before ++ c :: behind) = a := by
        apply hunique
        rw [identifier_eq_iff, String.toList_ofList, spelled_insert, hspells]
      have hlength := congrArg (fun t => t.toList.length) hother
      simp only [String.toList_ofList, ← hspells, List.length_append, List.length_cons] at hlength
      have := one_lt_length_identifierChar hc
      omega
  · rintro ⟨hplain, hspells⟩ b hb
    rw [identifier_eq_iff, spelled_of_plain hplain] at hb
    -- any other character of the second name would be spelled out in the first
    have hplain' : ∀ c ∈ b.toList, isPlainChar c = true := by
      intro c hc
      cases hother : isPlainChar c with
      | true => rfl
      | false =>
        obtain ⟨before, behind, hcut⟩ := List.append_of_mem hc
        rw [hcut, spelled_append, spelled_cons, ← List.append_assoc] at hb
        exact absurd ⟨hother, _, _, hb⟩ (hspells c)
    rw [spelled_of_plain hplain'] at hb
    exact String.toList_inj.1 hb

/-! ### Names that are told apart -/

/-- In a name nothing is spelled out, and all numbers of characters have four digits. -/
structure IsClear (cs : List Char) : Prop where
  spells : ∀ c, ¬ SpellsOut cs c
  /-- A fifth digit could be taken for a character of the name. -/
  small : ∀ c ∈ cs, isPlainChar c = false → c.toNat < 0x10000

/-- The end of a name that `IsClear` is clear as well. -/
theorem IsClear.tail {c : Char} {cs : List Char} (h : IsClear (c :: cs)) : IsClear cs where
  spells d hd := h.spells d ⟨hd.1, List.infix_cons hd.2⟩
  small d hd := h.small d (List.mem_cons_of_mem c hd)

/-- A name without underscores `IsClear`, as it spells out nothing. -/
private theorem isClear_of_notMem {cs : List Char} (hunderscore : '_' ∉ cs)
    (hsmall : ∀ c ∈ cs, c.toNat < 0x10000) : IsClear cs where
  spells := by
    rintro c ⟨hc, hspells⟩
    rw [identifierChar_of_other hc] at hspells
    exact hunderscore (hspells.subset List.mem_cons_self)
  small c hc _ := hsmall c hc

/-- Digits at the beginning of what is `spelled` are those of the name. -/
private theorem exists_append_of_spelled_eq {cs digits rest : List Char} (hdigits : '_' ∉ digits)
    (h : spelled cs = digits ++ rest) : ∃ behind, cs = digits ++ behind := by
  -- by the digits: none is an underscore, so each is a plain character of the name
  induction digits generalizing cs with
  | nil => exact ⟨cs, rfl⟩
  | cons d digits ih =>
    rw [List.mem_cons, not_or] at hdigits
    obtain ⟨hd, hrest⟩ := hdigits
    cases cs with
    | nil => cases h
    | cons c cs =>
      cases hc : isPlainChar c with
      | true =>
        rw [spelled_cons_of_plain hc] at h
        obtain ⟨rfl, htail⟩ := List.cons.inj h
        obtain ⟨behind, rfl⟩ := ih hrest htail
        exact ⟨behind, rfl⟩
      | false =>
        rw [spelled_cons_of_other hc] at h
        exact absurd (List.cons.inj h).1 hd

/-- If a plain character stands where another name has one that is not, it begins what is written for that: the
    first name `SpellsOut` the character. -/
private theorem spellsOut_of_spelled_eq {c d : Char} {cs ds : List Char} (hc : isPlainChar c = true)
    (hd : isPlainChar d = false) (h : spelled (c :: cs) = spelled (d :: ds)) : SpellsOut (c :: cs) d := by
  rw [spelled_cons_of_plain hc, spelled_cons_of_other hd] at h
  obtain ⟨rfl, htail⟩ := List.cons.inj h
  obtain ⟨behind, hbehind⟩ := exists_append_of_spelled_eq (underscore_notMem_hexFill 4 d.toNat) htail
  refine ⟨hd, [], behind, ?_⟩
  rw [identifierChar_of_other hd, hbehind, List.nil_append, List.cons_append]

/-- Names that are clear and `spelled` alike start with the same character and go on alike. -/
private theorem spelled_cons_inj {c d : Char} {cs ds : List Char} (hcs : IsClear (c :: cs))
    (hds : IsClear (d :: ds))
    (h : spelled (c :: cs) = spelled (d :: ds)) : c = d ∧ spelled cs = spelled ds := by
  -- where one character is plain and the other is not, the first name would spell out the second character
  cases hc : isPlainChar c with
  | true =>
    cases hd : isPlainChar d with
    | true =>
      rw [spelled_cons_of_plain hc, spelled_cons_of_plain hd] at h
      exact List.cons.inj h
    | false => exact absurd (spellsOut_of_spelled_eq hc hd h) (hcs.spells d)
  | false =>
    cases hd : isPlainChar d with
    | true => exact absurd (spellsOut_of_spelled_eq hd hc h.symm) (hds.spells c)
    | false =>
      rw [spelled_cons_of_other hc, spelled_cons_of_other hd] at h
      -- both numbers have four digits, so they end at the same place
      have hlength := Text.length_hexFill_four (hcs.small c List.mem_cons_self hc)
      have hlength' := Text.length_hexFill_four (hds.small d List.mem_cons_self hd)
      obtain ⟨hdigits, hrest⟩ := List.append_inj (List.cons.inj h).2 (hlength.trans hlength'.symm)
      exact ⟨Char.toNat_inj.1 (Text.hexFill_inj hdigits), hrest⟩

/-- Every character is `spelled` somehow. -/
private theorem spelled_cons_ne_nil (c : Char) (cs : List Char) : spelled (c :: cs) ≠ [] := by
  cases hc : isPlainChar c with
  | true =>
    rw [spelled_cons_of_plain hc]
    exact List.cons_ne_nil _ _
  | false =>
    rw [spelled_cons_of_other hc]
    exact List.cons_ne_nil _ _

/-- Clear names are told apart by how they are `spelled`. -/
theorem spelled_inj {cs ds : List Char} (hcs : IsClear cs) (hds : IsClear ds) (h : spelled cs = spelled ds) :
    cs = ds := by
  -- both names are read from the front, one character of each at a time
  induction cs generalizing ds with
  | nil =>
    cases ds with
    | nil => rfl
    | cons d ds => exact absurd h.symm (spelled_cons_ne_nil d ds)
  | cons c cs ih =>
    cases ds with
    | nil => exact absurd h (spelled_cons_ne_nil c cs)
    | cons d ds =>
      obtain ⟨rfl, hrest⟩ := spelled_cons_inj hcs hds h
      rw [ih hcs.tail hds.tail hrest]

/-! ### Nodes in the text of a drawing -/

namespace Key

/-- The name of the node, if it has one, is clear. -/
def IsClear : Key → Prop
  | .named name => Drawing.IsClear name.toList
  | .api name => Drawing.IsClear name.toList
  | .block _ => True
  | .methodBlock _ _ => True

/-- The characters of a key. The first one tells its kind. -/
def chars : Key → List Char
  | .named name => 'n' :: '_' :: spelled name.toList
  | .api name => 'a' :: 'p' :: 'i' :: '_' :: 'n' :: '_' :: spelled name.toList
  | .block id => 'b' :: 'b' :: Nat.toDigits 10 id
  | .methodBlock method id => 'f' :: (Nat.toDigits 10 method ++ '_' :: 'b' :: Nat.toDigits 10 id)

/-- The text of a key has its `chars`. -/
theorem toList_text (k : Key) : k.text.toList = k.chars := by
  cases k with
  | named name => exact toList_identifier name
  | api name => simp [text, chars, toList_identifier]
  | block id => simp [text, chars, toString]
  | methodBlock method id => simp [text, chars, toString]

/-- Nodes of clear names do not share their `text`. -/
theorem text_inj {k l : Key} (hk : k.IsClear) (hl : l.IsClear) (h : k.text = l.text) : k = l := by
  -- keys of different kinds differ in their first character
  have hchars : k.chars = l.chars := by rw [← toList_text, h, toList_text]
  cases k <;> cases l <;>
    simp only [chars, List.cons.injEq, Char.reduceEq, false_and, true_and] at hchars
  · next a b => rw [String.toList_inj.1 (spelled_inj hk hl hchars)]
  · next a b => rw [String.toList_inj.1 (spelled_inj hk hl hchars)]
  · next i j => rw [Location.toDigits_inj hchars]
  · next m i n j =>
    -- the first underscore stands behind the number of the method
    obtain ⟨hmethod, hid⟩ := Text.cut_first (Location.notMem_toDigits (by decide) m)
      (Location.notMem_toDigits (by decide) n) hchars
    rw [Location.toDigits_inj hmethod, Location.toDigits_inj (List.cons.inj hid).2]

end Key

/-- An `identifier` has plain characters only. -/
private theorem isPlainChar_of_mem_identifier {name : String} {c : Char} (h : c ∈ (identifier name).toList) :
    isPlainChar c = true := by
  rw [toList_identifier] at h
  rcases List.mem_cons.1 h with rfl | h
  · decide
  · rcases List.mem_cons.1 h with rfl | h
    · decide
    · exact isPlainChar_of_mem_spelled h

/-- An `identifier` consists of letters, digits and underscores. Two names share one exactly if both are
    `SpelledTo` one name. Names that are clear (`IsClear`) do not, and are drawn as nodes of their own. A name
    that shares its identifier with no other at all is plain and `SpellsOut` nothing. -/
theorem identifiers_kept_apart (a b : String) :
    (∀ c ∈ (identifier a).toList, c.isAlphanum = true ∨ c = '_') ∧
    (identifier a = identifier b ↔ ∃ cs, SpelledTo a.toList cs ∧ SpelledTo b.toList cs) ∧
    (IsClear a.toList → IsClear b.toList → identifier a = identifier b → a = b) ∧
    (∀ k l : Key, k.IsClear → l.IsClear → k.text = l.text → k = l) ∧
    ((∀ b, identifier b = identifier a → b = a) ↔
      (∀ c ∈ a.toList, c.isAlphanum = true ∨ c = '_') ∧ ∀ c, ¬ SpellsOut a.toList c) := by
  have hplain : ∀ c, isPlainChar c = true ↔ c.isAlphanum = true ∨ c = '_' := by
    intro c
    rw [isPlainChar, Bool.or_eq_true, beq_iff_eq]
  refine ⟨fun c hc => ?_, identifier_eq_iff_spelledTo, fun ha hb h => ?_, fun k l => Key.text_inj, ?_⟩
  · exact (hplain c).1 (isPlainChar_of_mem_identifier hc)
  · exact String.toList_inj.1 (spelled_inj ha hb (identifier_eq_iff.1 h))
  · simp only [eq_of_identifier_eq_iff, hplain]

/-- `identifiers_kept_apart` on two names without underscores: they are told apart, by their identifiers and as
    nodes. But as they have dots, each shares its identifier with some other name. -/
theorem identifiers_kept_apart_dotted :
    (IsClear "p.A$B.f".toList ∧ IsClear "p.A.f".toList ∧ identifier "p.A$B.f" ≠ identifier "p.A.f") ∧
    (Key.named "p.A$B.f").text ≠ (Key.named "p.A.f").text ∧
    ¬ ∀ b, identifier b = identifier "p.A$B.f" → b = "p.A$B.f" := by
  obtain ⟨-, -, hnames, hkeys, hunique⟩ := identifiers_kept_apart "p.A$B.f" "p.A.f"
  have hinner : IsClear "p.A$B.f".toList := isClear_of_notMem (by decide) (by simp)
  have houter : IsClear "p.A.f".toList := isClear_of_notMem (by decide) (by simp)
  refine ⟨⟨hinner, houter, fun h => ?_⟩, fun h => ?_, fun h => ?_⟩
  · exact absurd (hnames hinner houter h) (by decide)
  · exact absurd (hkeys (.named _) (.named _) hinner houter h) (by decide)
  · exact absurd ((hunique.1 h).1 '.' (by decide)) (by decide)

/-- A class in a package and one that is called as the former is `spelled` have methods with one
    `identifier`. -/
theorem identifier_spelled_name :
    identifier "p.A.f" = identifier "p_002eA.f" ∧ "p.A.f" ≠ "p_002eA.f" := by
  decide

end Drawing
end CallAtlas
