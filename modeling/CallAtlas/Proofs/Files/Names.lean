import CallAtlas.Files.Path
import Mathlib.Data.List.TakeWhile

/-!
# Names in paths

What stands behind the last slash of a path is its last name if the path is clean, and then the extension of
the path is that of the name (`extension_baseName`). A name can be put behind any path, and different names make
different paths (`joinPath_inj`).

Paths are bytes and not texts. Texts are told apart by their bytes (`toBytes_inj`), and a byte below 128 is
there only for the character that it encodes (`notMem_toBytes`).
-/

namespace CallAtlas

namespace Text

variable {α : Type} [BEq α] {c : α}

private theorem splitOn_ne_nil (cs : List α) : splitOn c cs ≠ [] := by
  cases cs with
  | nil => simp [splitOn]
  | cons x xs =>
    unfold splitOn
    split
    · simp
    · split <;> simp

variable [LawfulBEq α]

/-- A text that is put together around a character is split there by `splitOn`. -/
private theorem splitOn_append (as bs : List α) : splitOn c (as ++ c :: bs) = splitOn c as ++ splitOn c bs := by
  induction as with
  | nil => simp [splitOn]
  | cons a as ih =>
    rw [List.cons_append, splitOn, splitOn, ih]
    by_cases hac : a == c
    · rw [if_pos hac, if_pos hac, List.cons_append]
    · rw [if_neg hac, if_neg hac]
      -- the first part goes on, and there is always one
      cases hsplit : splitOn c as with
      | nil => exact absurd hsplit (splitOn_ne_nil as)
      | cons p ps => rfl

/-- `afterLast` keeps what is added without a `c`. -/
theorem afterLast_append_of_notMem (as : List α) {bs : List α} (h : c ∉ bs) :
    afterLast c (as ++ bs) = afterLast c as ++ bs := by
  have hall : ∀ b ∈ bs.reverse, (b != c) = true := by
    intro b hb
    have hne : b ≠ c := fun heq => h (heq ▸ List.mem_reverse.1 hb)
    simpa using hne
  rw [afterLast, afterLast, List.reverse_append, List.takeWhile_append_of_pos hall, List.reverse_append,
    List.reverse_reverse]

/-- `afterLast` is the whole text where there is no `c`. -/
private theorem afterLast_of_notMem {bs : List α} (h : c ∉ bs) : afterLast c bs = bs :=
  afterLast_append_of_notMem [] h

/-- `afterLast` has no `c`. -/
theorem notMem_afterLast (cs : List α) : c ∉ afterLast c cs := by
  intro hmem
  have hne := List.mem_takeWhile_imp (List.mem_reverse.1 hmem)
  simp at hne

/-- `afterLast` gives back what was put behind the last `c`. -/
private theorem afterLast_append_cons (as : List α) {bs : List α} (h : c ∉ bs) :
    afterLast c (as ++ c :: bs) = bs := by
  rw [List.append_cons, afterLast_append_of_notMem _ h]
  simp [afterLast]

/-! ### Bytes of texts -/

theorem RawText.bytes_append (s t : RawText) : (s ++ t).bytes = s.bytes ++ t.bytes := rfl

theorem toBytes_append (s t : String) : toBytes (s ++ t) = toBytes s ++ toBytes t := by
  simp [toBytes]

/-- Texts are told apart by their `toBytes`. -/
theorem toBytes_inj {s t : String} (h : toBytes s = toBytes t) : s = t := by
  have hbytes : ∀ u : String, u.toByteArray = (toBytes u).toByteArray := by
    intro u
    conv => lhs; rw [← String.ofList_toList (s := u), String.toByteArray_ofList]
    rfl
  rw [← String.toByteArray_inj, hbytes s, hbytes t, h]

/-- A byte below 128 stands for one character only, and for no part of another. -/
private theorem notMem_utf8EncodeChar {b : UInt8} (hb : b.toNat < 128) {c : Char} (hc : c.toNat ≠ b.toNat) :
    b ∉ String.utf8EncodeChar c := by
  have hbyte : ∀ n < 256, n ≠ b.toNat → b ≠ UInt8.ofNat n := by
    rintro n hn hne rfl
    exact hne (UInt8.toNat_ofNat_of_lt' hn).symm
  have hval : c.val.toNat = c.toNat := rfl
  unfold String.utf8EncodeChar
  simp only [hval]
  -- all bytes of a longer code are at least 128
  split
  · simpa using hbyte c.toNat (by omega) hc
  · split
    · simp only [List.mem_cons, List.not_mem_nil, or_false, not_or]
      exact ⟨hbyte _ (by omega) (by omega), hbyte _ (by omega) (by omega)⟩
    · split
      · simp only [List.mem_cons, List.not_mem_nil, or_false, not_or]
        exact ⟨hbyte _ (by omega) (by omega), hbyte _ (by omega) (by omega),
          hbyte _ (by omega) (by omega)⟩
      · simp only [List.mem_cons, List.not_mem_nil, or_false, not_or]
        exact ⟨hbyte _ (by omega) (by omega), hbyte _ (by omega) (by omega),
          hbyte _ (by omega) (by omega), hbyte _ (by omega) (by omega)⟩

/-- `toBytes` has the byte of a character below 128 only if the text has the character. -/
theorem notMem_toBytes {b : UInt8} (hb : b.toNat < 128) {s : String}
    (h : ∀ c ∈ s.toList, c.toNat ≠ b.toNat) : b ∉ toBytes s := by
  rw [toBytes, List.mem_flatMap]
  rintro ⟨c, hc, hmem⟩
  exact notMem_utf8EncodeChar hb (h c hc) hmem

end Text

namespace Files

open Text (RawText)

/-- A path of names that all count. -/
def IsClean (path : RawText) : Prop :=
  ∀ name ∈ pathNames path, isIdle name = false ∧ name ≠ up

instance (path : RawText) : Decidable (IsClean path) :=
  inferInstanceAs (Decidable (∀ name ∈ pathNames path, isIdle name = false ∧ name ≠ up))

/-- A clean path ends in something other than a slash. -/
private theorem IsClean.exists_eq_append {path : RawText} (h : IsClean path) :
    ∃ start b, path.bytes = start ++ [b] ∧ b ≠ slash := by
  have hnames : [] ∉ Text.splitOn slash path.bytes := by
    intro hmem
    have hidle := (h ⟨[]⟩ (List.mem_map.2 ⟨[], hmem, rfl⟩)).1
    cases hidle
  -- an empty path, and one that ends in a slash, both have an empty name
  rcases List.eq_nil_or_concat path.bytes with hnil | ⟨start, b, hbytes⟩
  · rw [hnil] at hnames
    exact absurd (List.mem_singleton_self _) hnames
  · rw [List.concat_eq_append] at hbytes
    refine ⟨start, b, hbytes, ?_⟩
    rintro rfl
    rw [hbytes, Text.splitOn_append] at hnames
    exact absurd (List.mem_append_right _ (List.mem_singleton_self _)) hnames

/-- `baseName` of a clean path is what stands behind its last slash. -/
private theorem IsClean.baseName_eq {path : RawText} (h : IsClean path) :
    baseName path = ⟨Text.afterLast slash path.bytes⟩ := by
  obtain ⟨start, b, hbytes, hb⟩ := h.exists_eq_append
  have hdrop : dropSlashes path = path := by
    obtain ⟨bytes⟩ := path
    subst hbytes
    simp [dropSlashes, hb]
  have hname : Text.afterLast slash (start ++ [b]) = Text.afterLast slash start ++ [b] :=
    Text.afterLast_append_of_notMem start (by simpa using Ne.symm hb)
  simp [baseName, hdrop, RawText.isEmpty, hbytes, hname]

/-- `baseName` of a clean path has the `extension` of the path. -/
theorem IsClean.extension_baseName {path : RawText} (h : IsClean path) :
    extension (baseName path) = extension path := by
  rw [h.baseName_eq]
  unfold extension
  rw [Text.afterLast_of_notMem (Text.notMem_afterLast path.bytes)]

/-- What stands behind a point is the `extension` if it has neither a slash nor a further point. -/
theorem extension_of_append {path : RawText} {start stop : List UInt8}
    (hpath : path.bytes = start ++ point :: stop) (hslash : slash ∉ stop) (hpoint : point ∉ stop) :
    extension path = ⟨point :: stop⟩ := by
  have hname : Text.afterLast slash path.bytes = Text.afterLast slash start ++ point :: stop := by
    rw [hpath, Text.afterLast_append_of_notMem]
    exact fun hmem => (List.mem_cons.1 hmem).elim (by decide) hslash
  simp [extension, hname, Text.afterLast_append_cons _ hpoint]

/-! ### Paths that are joined -/

/-- A name without a slash that leads somewhere. -/
structure IsName (n : RawText) : Prop where
  slash : slash ∉ n.bytes
  idle : isIdle n = false
  up : n ≠ up

/-- A name without a slash is not split. -/
private theorem splitOn_of_notMem {bs : List UInt8} (h : slash ∉ bs) : Text.splitOn slash bs = [bs] := by
  induction bs with
  | nil => rfl
  | cons b bs ih =>
    rw [List.mem_cons, not_or] at h
    have hb : ¬ (b == slash) = true := fun heq => h.1 (eq_of_beq heq).symm
    rw [Text.splitOn, if_neg hb, ih h.2]

private theorem IsName.pathNames_eq {n : RawText} (h : IsName n) : pathNames n = [n] := by
  rw [pathNames, splitOn_of_notMem h.slash]
  rfl

/-- A name that is joined to a path is the last of its `pathNames`. -/
private theorem pathNames_append {n : RawText} (h : IsName n) (path : RawText) :
    pathNames (path ++ "/" ++ n) = pathNames path ++ [n] := by
  have hbytes : (path ++ "/" ++ n).bytes = path.bytes ++ slash :: n.bytes := by
    show path.bytes ++ [slash] ++ n.bytes = _
    rw [List.append_assoc]
    rfl
  rw [pathNames, hbytes, Text.splitOn_append, splitOn_of_notMem h.slash, List.map_append]
  rfl

/-- `cleanNames` keeps a name at the end that leads somewhere. -/
private theorem cleanNames_append {n : RawText} (h : IsName n) (rooted : Bool) (done ns : List RawText) :
    cleanNames rooted done (ns ++ [n]) = cleanNames rooted done ns ++ [n] := by
  -- on the names in front of it; those that are done change as `up` takes them back
  induction ns generalizing done with
  | nil => simp [cleanNames, h.idle, h.up]
  | cons m ns ih =>
    simp only [List.cons_append, cleanNames]
    by_cases hidle : isIdle m = true
    · simp [hidle, ih]
    · by_cases hup : m = up
      · subst hup
        cases done with
        | nil => simp [hidle, ih]
        | cons d rest => by_cases hd : d = up <;> simp [hidle, hd, ih]
      · simp [hidle, hup, ih]

/-- `pathOf` puts a slash between names. -/
private theorem pathOf_cons (n : RawText) {ns : List RawText} (h : ns ≠ []) :
    (pathOf (n :: ns)).bytes = n.bytes ++ slash :: (pathOf ns).bytes := by
  have hslash : (RawText.ofString "/").bytes = [slash] := rfl
  cases ns with
  | nil => exact absurd rfl h
  | cons m ns => simp [pathOf, RawText.joinWith, List.intercalate_cons_cons, hslash]

/-- The last name of a path stands at its end, behind what the other names make. -/
private theorem exists_pathOf_append (ns : List RawText) :
    ∃ start, ∀ n, (pathOf (ns ++ [n])).bytes = start ++ n.bytes := by
  induction ns with
  | nil => exact ⟨[], fun n => by simp [pathOf, RawText.joinWith]⟩
  | cons m ns ih =>
    obtain ⟨start, hstart⟩ := ih
    refine ⟨m.bytes ++ slash :: start, fun n => ?_⟩
    rw [List.cons_append, pathOf_cons m (by simp), hstart n]
    simp

private theorem IsName.isEmpty_eq {n : RawText} (h : IsName n) : n.isEmpty = false := by
  have hidle := h.idle
  rw [isIdle, Bool.or_eq_false_iff] at hidle
  exact hidle.1

private theorem IsName.isRooted_eq {n : RawText} (h : IsName n) : isRooted n = false := by
  rw [isRooted, decide_eq_false_iff_not]
  intro hhead
  exact h.slash (List.mem_of_mem_head? hhead)

/-- Whether a path that is not empty is rooted is settled by its start. -/
private theorem isRooted_append {path : RawText} (h : path.isEmpty = false) (n : RawText) :
    isRooted (path ++ n) = isRooted path := by
  obtain ⟨bytes⟩ := path
  cases bytes with
  | nil => exact nomatch h
  | cons b bytes => rfl

/-- `joinPath` starts in one way below a directory, whatever the name. -/
private theorem exists_joinPath (path : RawText) :
    ∃ start, ∀ n, IsName n → (joinPath path n).bytes = start ++ n.bytes := by
  -- below no directory the name stands alone
  by_cases hpath : path.isEmpty = true
  · refine ⟨[], fun n hn => ?_⟩
    have hnames : cleanNames false [] [n] = [n] := cleanNames_append hn false [] []
    simp [joinPath, hpath, hn.isEmpty_eq, cleanPath, hn.isRooted_eq, hn.pathNames_eq, hnames, pathOf,
      RawText.joinWith]
  · rw [Bool.not_eq_true] at hpath
    obtain ⟨start, hstart⟩ := exists_pathOf_append (cleanNames (isRooted path) [] (pathNames path))
    refine ⟨if isRooted path then slash :: start else start, fun n hn => ?_⟩
    have hassoc : path ++ "/" ++ n = path ++ ("/" ++ n) := congrArg RawText.mk (List.append_assoc ..)
    have hrooted : isRooted (path ++ "/" ++ n) = isRooted path := by
      rw [hassoc, isRooted_append hpath]
    have hjoin : joinPath path n = cleanPath (path ++ "/" ++ n) := by
      simp [joinPath, hpath, hn.isEmpty_eq]
    -- the name comes last and is kept when the path is cleaned
    have hlast := cleanNames_append hn (isRooted path) [] (pathNames path)
    rw [hjoin, cleanPath, hrooted, pathNames_append hn, hlast]
    split
    · show slash :: (pathOf _).bytes = _
      rw [hstart n]
      rfl
    · rw [if_neg (by simp), hstart n]

/-- Below one directory `joinPath` tells names apart. -/
theorem joinPath_inj {path m n : RawText} (hm : IsName m) (hn : IsName n)
    (h : joinPath path m = joinPath path n) : m = n := by
  obtain ⟨start, hstart⟩ := exists_joinPath path
  have hbytes := congrArg RawText.bytes h
  rw [hstart m hm, hstart n hn] at hbytes
  obtain ⟨_⟩ := m
  obtain ⟨_⟩ := n
  exact congrArg RawText.mk (List.append_cancel_left hbytes)

end Files

end CallAtlas
