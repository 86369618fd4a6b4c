import Mathlib.Data.List.Basic
import CallAtlas.Text.Entity

/-!
# Entities are written for characters

Markup is escaped by one pass over the text for each character that has an entity. A pass leaves alone what an
earlier one wrote if its character is in none of the texts written so far. Then all passes together do what one
pass does that writes the entity of each character at once (`foldl_replaceChar`). The ampersand is in every
entity, so its pass has to come first.

An ampersand is left only where an entity begins, and no entity is the beginning of another. So the text can
be read back (`flatMap_entityOf_inj`).
-/

namespace CallAtlas.Text

/-! ### Passes one after the other -/

/-- What a character becomes if all replacements are made at once. -/
def replacementOf (table : List (Char × String)) (c : Char) : List Char :=
  (table.lookup c).elim [c] String.toList

/-- `replacementOf` takes the first entry of the table for a character. -/
theorem replacementOf_cons (e : Char × String) (table : List (Char × String)) (c : Char) :
    replacementOf (e :: table) c = if c = e.1 then e.2.toList else replacementOf table c := by
  unfold replacementOf
  rw [List.lookup_cons]
  by_cases h : c = e.1
  · simp [h]
  · rw [beq_eq_false_iff_ne.2 h, if_neg h]

/-- A character has an entry in the table, or stays as it is. -/
private theorem replacementOf_cases (table : List (Char × String)) (c : Char) :
    (∃ e ∈ table, e.1 = c ∧ replacementOf table c = e.2.toList) ∨
      (∀ e ∈ table, e.1 ≠ c) ∧ replacementOf table c = [c] := by
  induction table with
  | nil => exact .inr ⟨by simp, rfl⟩
  | cons e table ih =>
    rw [replacementOf_cons]
    by_cases hc : c = e.1
    · exact .inl ⟨e, List.mem_cons_self, hc.symm, if_pos hc⟩
    · rw [if_neg hc]
      refine ih.imp ?_ ?_
      · rintro ⟨d, hd, hwritten⟩
        exact ⟨d, List.mem_cons_of_mem e hd, hwritten⟩
      · rintro ⟨hother, hwritten⟩
        exact ⟨List.forall_mem_cons.2 ⟨Ne.symm hc, hother⟩, hwritten⟩

/-- A text without any of the characters stays as it is. -/
private theorem flatMap_replacementOf_eq_self {table : List (Char × String)} {cs : List Char}
    (h : ∀ e ∈ table, e.1 ∉ cs) : cs.flatMap (replacementOf table) = cs := by
  induction table with
  | nil => exact List.flatMap_singleton' cs
  | cons e table ih =>
    obtain ⟨he, htable⟩ := List.forall_mem_cons.1 h
    refine Eq.trans (List.flatMap_congr fun c hc => ?_) (ih htable)
    rw [replacementOf_cons, if_neg]
    exact fun heq => he (heq ▸ hc)

/-- `replaceChar` for one character after the other is replacing all at once, as long as no replacement writes a
    character that is replaced later. -/
theorem foldl_replaceChar {table : List (Char × String)}
    (h : table.Pairwise fun e later => later.1 ∉ e.2.toList) (cs : List Char) :
    table.foldl (fun text e => replaceChar e.1 e.2 text) cs = cs.flatMap (replacementOf table) := by
  induction table generalizing cs with
  | nil => exact (List.flatMap_singleton' cs).symm
  | cons e table ih =>
    obtain ⟨hwritten, hrest⟩ := List.pairwise_cons.1 h
    rw [List.foldl_cons, ih hrest, replaceChar, List.flatMap_assoc]
    refine List.flatMap_congr fun c _ => ?_
    rw [replacementOf_cons]
    -- what is written for the first character passes the others unchanged
    by_cases hc : c = e.1
    · rw [if_pos hc, if_pos (beq_iff_eq.2 hc)]
      exact flatMap_replacementOf_eq_self hwritten
    · rw [if_neg hc, if_neg (mt beq_iff_eq.1 hc), List.flatMap_singleton]

/-! ### The four entities -/

/-- The characters that have an entity, the ampersand first. -/
def entities : List (Char × String) :=
  [('&', "&amp;"), ('<', "&lt;"), ('>', "&gt;"), ('"', "&quot;")]

/-- A character as it stands in markup: its entity, or the character itself. -/
def entityOf (c : Char) : List Char :=
  replacementOf entities c

/-- `escapeChars` writes `entityOf` for each character. -/
private theorem escapeChars_eq_flatMap (cs : List Char) : escapeChars cs = cs.flatMap entityOf :=
  foldl_replaceChar (show entities.Pairwise fun e later => later.1 ∉ e.2.toList by decide) cs

/-- `entityOf` writes a character as its entity, or it is none of the four. -/
theorem entityOf_cases (c : Char) : (∃ e ∈ entities, e.1 = c ∧ entityOf c = e.2.toList) ∨
    (c ≠ '&' ∧ c ≠ '<' ∧ c ≠ '>' ∧ c ≠ '"') ∧ entityOf c = [c] := by
  refine (replacementOf_cases entities c).imp_right fun h => ⟨?_, h.2⟩
  simpa [entities, eq_comm (b := c)] using h.1

/-- An entity begins with an ampersand, and holds no other character that has an entity. -/
theorem exists_entity_eq {e : Char × String} (he : e ∈ entities) :
    ∃ name, e.2.toList = '&' :: name ∧ '&' ∉ name ∧ '<' ∉ name ∧ '>' ∉ name ∧ '"' ∉ name := by
  simp only [entities, List.mem_cons, List.not_mem_nil, or_false] at he
  rcases he with rfl | rfl | rfl | rfl
  · exact ⟨"amp;".toList, by decide⟩
  · exact ⟨"lt;".toList, by decide⟩
  · exact ⟨"gt;".toList, by decide⟩
  · exact ⟨"quot;".toList, by decide⟩

/-- No entity is the beginning of another. -/
private theorem entity_append_inj {e e' : Char × String} (he : e ∈ entities) (he' : e' ∈ entities)
    {rest rest' : List Char} (h : e.2.toList ++ rest = e'.2.toList ++ rest') : e = e' ∧ rest = rest' := by
  simp only [entities, List.mem_cons, List.not_mem_nil, or_false] at he he'
  -- different entities differ in their second character
  rcases he with rfl | rfl | rfl | rfl <;> rcases he' with rfl | rfl | rfl | rfl <;> simp at h
  all_goals exact ⟨rfl, h⟩

/-! ### What the result tells -/

/-- Brackets and quotes are gone when `entityOf` has been written for all characters. -/
theorem notMem_flatMap_entityOf {c : Char} (hc : c = '<' ∨ c = '>' ∨ c = '"') (cs : List Char) :
    c ∉ cs.flatMap entityOf := by
  intro hmem
  obtain ⟨d, -, hd⟩ := List.mem_flatMap.1 hmem
  rcases entityOf_cases d with ⟨e, he, -, hentity⟩ | ⟨hplain, hentity⟩
  · -- in an entity none of them follows the ampersand
    obtain ⟨name, hname, -, hlt, hgt, hquote⟩ := exists_entity_eq he
    rw [hentity, hname, List.mem_cons] at hd
    rcases hc with rfl | rfl | rfl
    · exact hlt (hd.resolve_left (by decide))
    · exact hgt (hd.resolve_left (by decide))
    · exact hquote (hd.resolve_left (by decide))
  · obtain ⟨-, hlt, hgt, hquote⟩ := hplain
    rw [hentity, List.mem_singleton] at hd
    rcases hc with rfl | rfl | rfl
    · exact hlt hd.symm
    · exact hgt hd.symm
    · exact hquote hd.symm

/-- What begins with one of the entities. -/
def StartsEntity (cs : List Char) : Prop :=
  ∃ e ∈ entities, e.2.toList <+: cs

/-- Inside `entityOf` a character, an ampersand can only be the first character of an entity. -/
private theorem startsEntity_of_entityOf {c : Char} {before behind : List Char}
    (h : entityOf c = before ++ '&' :: behind) (rest : List Char) :
    StartsEntity ('&' :: behind ++ rest) := by
  rcases entityOf_cases c with ⟨e, he, -, hentity⟩ | ⟨hplain, hentity⟩
  · obtain ⟨name, hname, hampersand, -⟩ := exists_entity_eq he
    rw [hentity] at h
    cases before with
    | nil => exact ⟨e, he, by rw [h]; exact List.prefix_append _ rest⟩
    | cons d before =>
      -- the name of an entity has no ampersand
      rw [hname] at h
      have hmem : '&' ∈ name := by rw [(List.cons.inj h).2]; simp
      exact absurd hmem hampersand
  · rw [hentity] at h
    cases before with
    | nil => exact absurd (List.cons.inj h).1 hplain.1
    | cons d before => simp at h

/-- Every ampersand that is left begins an entity. -/
private theorem startsEntity_of_flatMap {cs before behind : List Char}
    (h : cs.flatMap entityOf = before ++ '&' :: behind) : StartsEntity ('&' :: behind) := by
  induction cs generalizing before with
  | nil => simp at h
  | cons c cs ih =>
    rw [List.flatMap_cons, List.append_eq_append_iff] at h
    -- the ampersand stands behind what is written for the first character, or in it
    obtain ⟨as, -, hrest⟩ | ⟨bs, hentity, hrest⟩ := h
    · exact ih hrest
    · cases bs with
      | nil => exact @ih [] hrest.symm
      | cons b bs =>
        obtain ⟨rfl, hbehind⟩ := List.cons.inj hrest
        rw [hbehind]
        exact startsEntity_of_entityOf hentity _

/-- The first character can be told from what `entityOf` writes. -/
private theorem entityOf_append_inj {c d : Char} {rest rest' : List Char}
    (h : entityOf c ++ rest = entityOf d ++ rest') : c = d ∧ rest = rest' := by
  -- an entity starts with an ampersand, and a character without an entity is none
  rcases entityOf_cases c with ⟨e, he, hc, hentity⟩ | ⟨hplain, hentity⟩
  · rcases entityOf_cases d with ⟨e', he', hd, hentity'⟩ | ⟨hplain', hentity'⟩
    · rw [hentity, hentity'] at h
      obtain ⟨rfl, hrest⟩ := entity_append_inj he he' h
      exact ⟨hc.symm.trans hd, hrest⟩
    · obtain ⟨name, hname, -⟩ := exists_entity_eq he
      rw [hentity, hentity', hname] at h
      exact absurd (List.cons.inj h).1.symm hplain'.1
  · rcases entityOf_cases d with ⟨e', he', hd, hentity'⟩ | ⟨hplain', hentity'⟩
    · obtain ⟨name, hname, -⟩ := exists_entity_eq he'
      rw [hentity, hentity', hname] at h
      exact absurd (List.cons.inj h).1 hplain.1
    · rw [hentity, hentity'] at h
      exact List.cons.inj h

private theorem entityOf_ne_nil (c : Char) : entityOf c ≠ [] := by
  rcases entityOf_cases c with ⟨e, he, -, hentity⟩ | ⟨-, hentity⟩
  · obtain ⟨name, hname, -⟩ := exists_entity_eq he
    rw [hentity, hname]
    exact List.cons_ne_nil _ _
  · rw [hentity]
    exact List.cons_ne_nil _ _

/-- A text can be read back from what `entityOf` writes. -/
theorem flatMap_entityOf_inj {cs ds : List Char} (h : cs.flatMap entityOf = ds.flatMap entityOf) : cs = ds := by
  induction cs generalizing ds with
  | nil =>
    cases ds with
    | nil => rfl
    | cons d ds => exact absurd (List.append_eq_nil_iff.1 h.symm).1 (entityOf_ne_nil d)
  | cons c cs ih =>
    cases ds with
    | nil => exact absurd (List.append_eq_nil_iff.1 h).1 (entityOf_ne_nil c)
    | cons d ds =>
      -- no entity is the beginning of another one
      obtain ⟨rfl, hrest⟩ := entityOf_append_inj h
      rw [ih hrest]

/-- `escaped` writes the entity of each character that has one, all at once. What it leaves of these characters
    are the ampersands at the beginnings of entities, and no two texts are escaped alike. -/
theorem escaped_faithful (s : String) :
    escaped s = String.ofList (s.toList.flatMap entityOf) ∧
    ('<' ∉ (escaped s).toList ∧ '>' ∉ (escaped s).toList ∧ '"' ∉ (escaped s).toList) ∧
    (∀ before behind, (escaped s).toList = before ++ '&' :: behind → StartsEntity ('&' :: behind)) ∧
    ∀ t, escaped t = escaped s → t = s := by
  -- all is said of characters, written one by one
  have hescaped : ∀ t, (escaped t).toList = t.toList.flatMap entityOf := by
    intro t
    rw [escaped, String.toList_ofList, escapeChars_eq_flatMap]
  refine ⟨by rw [escaped, escapeChars_eq_flatMap], ?_, ?_, ?_⟩
  · rw [hescaped]
    exact ⟨notMem_flatMap_entityOf (.inl rfl) _, notMem_flatMap_entityOf (.inr (.inl rfl)) _,
      notMem_flatMap_entityOf (.inr (.inr rfl)) _⟩
  · intro before behind h
    rw [hescaped] at h
    exact startsEntity_of_flatMap h
  · intro t h
    have hchars := congrArg String.toList h
    rw [hescaped, hescaped] at hchars
    exact String.toList_inj.1 (flatMap_entityOf_inj hchars)

/-- `escaped_faithful` on a text that looks like an entity, which is not taken for one. -/
theorem escaped_faithful_entity : escaped "<" = "&lt;" ∧ escaped "&lt;" = "&amp;lt;" ∧
    escaped "&lt;" ≠ escaped "<" ∧ StartsEntity "&amp;lt;".toList := by
  obtain ⟨-, -, hstarts, hinj⟩ := escaped_faithful "&lt;"
  have hwritten : escaped "&lt;" = "&amp;lt;" := by decide
  refine ⟨by decide, hwritten, fun heq => absurd (hinj "<" heq.symm) (by decide), ?_⟩
  exact hstarts [] "amp;lt;".toList (by rw [hwritten]; rfl)

end CallAtlas.Text
