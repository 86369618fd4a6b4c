import Mathlib.Data.List.Nodup
import CallAtlas.Drawing.Methods
import CallAtlas.Files.Path
import CallAtlas.Proofs.Facts.Key
import CallAtlas.Proofs.Files.Names

/-!
# The files of methods

Methods whose names come to the same file name are told apart by numbers: the second one has `_2` at the
end, and so on. A name with its number can be read back (`numbered_cases`), so two methods with numbers
never share a file. What remains is that a name without a number already ends in one: then two methods
share a file exactly if that number is given out (`nodup_fileNames_iff`).
-/

namespace CallAtlas

namespace Drawing

open Text (RawText)
open Program (Body)

/-! ### Names with numbers -/

/-- What stands between a file name and its number. -/
def underscore : UInt8 := 0x5f

/-- The ending of a number: the bytes of its digits behind an `underscore`. -/
private theorem toBytes_ending (n : Nat) :
    Text.toBytes s!"_{n}" = underscore :: Text.toBytes (toString n) := by
  have htext : s!"_{n}" = "_" ++ toString n := rfl
  rw [htext, Text.toBytes_append]
  rfl

/-- A number is written in digits alone, so that no other character `d` has a byte in it. -/
private theorem notMem_toBytes_toString {b : UInt8} {d : Char} (hb : b.toNat = d.toNat) (hlow : d.toNat < 128)
    (hd : d.isDigit = false) (n : Nat) : b ∉ Text.toBytes (toString n) := by
  apply Text.notMem_toBytes (by omega)
  intro c hc heq
  have hdigits : c ∈ Nat.toDigits 10 n := by
    rw [← Nat.toList_repr]
    exact hc
  have hcd : c = d := Char.toNat_inj.1 (heq.trans hb)
  exact Location.notMem_toDigits hd n (hcd ▸ hdigits)

/-- No `underscore` stands among the digits of a number. -/
private theorem underscore_notMem (n : Nat) : underscore ∉ Text.toBytes (toString n) :=
  notMem_toBytes_toString (d := '_') (by decide) (by decide) (by decide) n

/-- From two on, `numbered` puts an `underscore` and the digits behind the name. -/
theorem bytes_numbered {n : Nat} (h : 1 < n) (f : RawText) :
    (numbered f n).bytes = f.bytes ++ underscore :: Text.toBytes (toString n) := by
  rw [numbered, if_pos h, RawText.bytes_append, ← toBytes_ending]
  rfl

/-- The first one has no number: `numbered` leaves its name as it stands. -/
theorem numbered_of_not_one_lt {n : Nat} (h : ¬ 1 < n) (f : RawText) : numbered f n = f := by
  rw [numbered, if_neg h]

/-- Two names that `numbered` makes are equal if they are made of the same name and number, or if one of them
    has a number and the other one is that name as it stands. -/
theorem numbered_cases {f g : RawText} {m n : Nat} (h : numbered f m = numbered g n) :
    f = g ∧ (m = n ∨ ¬ 1 < m ∧ ¬ 1 < n) ∨
      ¬ 1 < m ∧ 1 < n ∧ f = numbered g n ∨ ¬ 1 < n ∧ 1 < m ∧ g = numbered f m := by
  by_cases hm : 1 < m
  · by_cases hn : 1 < n
    · -- digits have no underscore, so the last one in both names is the one before the number
      have hbytes := congrArg RawText.bytes h
      rw [bytes_numbered hm, bytes_numbered hn] at hbytes
      obtain ⟨hname, hdigits⟩ :=
        Text.cut_last (underscore_notMem m) (underscore_notMem n) hbytes
      have hdigits' : Nat.toDigits 10 m = Nat.toDigits 10 n := by
        rw [← Nat.toList_repr, ← Nat.toList_repr]
        exact congrArg String.toList (Text.toBytes_inj hdigits)
      have hfg : f = g := by
        -- a `RawText` is its bytes
        obtain ⟨_⟩ := f
        obtain ⟨_⟩ := g
        exact congrArg RawText.mk hname
      exact .inl ⟨hfg, .inl (Location.toDigits_inj hdigits')⟩
    · rw [numbered_of_not_one_lt hn] at h
      exact .inr (.inr ⟨hn, hm, h.symm⟩)
  · rw [numbered_of_not_one_lt hm] at h
    by_cases hn : 1 < n
    · exact .inr (.inl ⟨hm, hn, h⟩)
    · rw [numbered_of_not_one_lt hn] at h
      exact .inl ⟨h, .inr ⟨hm, hn⟩⟩

/-! ### Which numbers are given out -/

/-- The file names of some names with their numbers, where names before made use of some file names. -/
def placesAfter (used : List RawText) : List String → List (RawText × Nat)
  | [] => []
  | name :: names =>
    (fileName name, used.count (fileName name) + 1) :: placesAfter (fileName name :: used) names

/-- `fileNamesAfter` are the names of `placesAfter`, each with its number. -/
private theorem fileNamesAfter_eq (used : List RawText) (names : List String) :
    fileNamesAfter used names = (placesAfter used names).map fun p => numbered p.1 p.2 := by
  induction names generalizing used with
  | nil => rfl
  | cons name names ih =>
    rw [fileNamesAfter, placesAfter, List.map_cons, ih]

/-- Under each file name, the numbers of `placesAfter` go on from those used before, one for each method. -/
theorem mem_placesAfter {used : List RawText} {names : List String} {f : RawText} {n : Nat} :
    (f, n) ∈ placesAfter used names ↔
      used.count f < n ∧ n ≤ used.count f + (names.map fileName).count f := by
  induction names generalizing used with
  | nil =>
    simp only [placesAfter, List.not_mem_nil, List.map_nil, List.count_nil, false_iff]
    omega
  | cons name names ih =>
    rw [placesAfter, List.mem_cons, Prod.mk.injEq, ih, List.map_cons]
    -- the first name takes the next number under its own file name and leaves the others alone
    by_cases hf : fileName name = f
    · subst hf
      simp only [true_and, List.count_cons_self]
      omega
    · have hne : ¬ f = fileName name := fun h => hf h.symm
      simp only [hne, false_and, false_or, List.count_cons_of_ne hf]

/-- `placesAfter` gives no place twice: the numbers behind are greater. -/
private theorem nodup_placesAfter (used : List RawText) (names : List String) :
    (placesAfter used names).Nodup := by
  induction names generalizing used with
  | nil => exact List.nodup_nil
  | cons name names ih =>
    rw [placesAfter, List.nodup_cons, mem_placesAfter, List.count_cons_self]
    exact ⟨by omega, ih _⟩

/-- No file name of the list stands for another one of them with a number that is given out under that one. -/
def NoneTaken (files : List RawText) : Prop :=
  ∀ f ∈ files, ∀ g ∈ files, ∀ n, 2 ≤ n → n ≤ files.count g → f ≠ g ++ s!"_{n}"

/-- `fileNames` are all different exactly if none of the numbered names is taken (`NoneTaken`). -/
theorem nodup_fileNames_iff (names : List String) :
    (fileNames names).Nodup ↔ NoneTaken (names.map fileName) := by
  have hplace : ∀ {f n}, (f, n) ∈ placesAfter [] names ↔ 0 < n ∧ n ≤ (names.map fileName).count f := by
    intro f n
    rw [mem_placesAfter, List.count_nil, Nat.zero_add]
  rw [fileNames, fileNamesAfter_eq, List.nodup_map_iff_inj_on (nodup_placesAfter [] names)]
  constructor
  · -- a name as it stands is the first one under itself
    intro hinj f hf g hg n htwo hle heq
    have hfirst : (f, 1) ∈ placesAfter [] names :=
      hplace.2 ⟨Nat.one_pos, List.count_pos_iff.2 hf⟩
    have hother : (g, n) ∈ placesAfter [] names := hplace.2 ⟨by omega, hle⟩
    have hsame : numbered f 1 = numbered g n := by
      rw [numbered_of_not_one_lt (by omega), numbered, if_pos (by omega)]
      exact heq
    have hnumber : 1 = n := congrArg Prod.snd (hinj _ hfirst _ hother hsame)
    omega
  · rintro hnone ⟨f, m⟩ hf ⟨g, n⟩ hg hsame
    obtain ⟨hmpos, hm⟩ := hplace.1 hf
    obtain ⟨hnpos, hn⟩ := hplace.1 hg
    have hfmem : f ∈ names.map fileName := List.count_pos_iff.1 (by omega)
    have hgmem : g ∈ names.map fileName := List.count_pos_iff.1 (by omega)
    -- one file name with one number, or a number that is taken, in either direction
    rcases numbered_cases hsame with ⟨rfl, hmn⟩ | ⟨-, hnumber, htaken⟩ | ⟨-, hnumber, htaken⟩
    · have hmn : m = n := by omega
      rw [hmn]
    · rw [numbered, if_pos hnumber] at htaken
      exact absurd htaken (hnone f hfmem g hgmem n hnumber hn)
    · rw [numbered, if_pos hnumber] at htaken
      exact absurd htaken (hnone g hgmem f hfmem m hnumber hm)

/-! ### Methods and their files -/

/-- `fileName` has no slash, as slashes are reserved. -/
private theorem slash_notMem_fileName (name : String) : Files.slash ∉ (fileName name).bytes := by
  have hwhole : Files.slash ∉
      Text.toBytes (String.ofList (name.toList.map fun c => if isReserved c then '_' else c)) := by
    apply Text.notMem_toBytes (by decide)
    intro c hc heq
    rw [String.toList_ofList, List.mem_map] at hc
    obtain ⟨d, -, rfl⟩ := hc
    -- a reserved character becomes an underscore, and a slash is reserved
    have hslash : (if isReserved d = true then '_' else d) = '/' := Char.toNat_inj.1 heq
    split at hslash
    · exact absurd hslash (by decide)
    · rename_i hfree
      subst hslash
      exact hfree (by decide)
  simp only [fileName, RawText.take, RawText.ofString]
  exact fun hmem => hwhole (List.mem_of_mem_take hmem)

/-- The name of a drawing in its directory. -/
def drawingName (file : RawText) : RawText :=
  file ++ ".dot"

/-- Where the drawing of a method is saved, given the directory for results. -/
def methodPath (directory file : RawText) : RawText :=
  Files.joinPath (Files.joinPath directory "cfg") (drawingName file)

/-- `drawingName` of a file name without slashes is a proper name in a directory (`IsName`). -/
private theorem isName_drawingName {file : RawText} (h : Files.slash ∉ file.bytes) :
    Files.IsName (drawingName file) := by
  have hbytes : (drawingName file).bytes = file.bytes ++ Text.toBytes ".dot" := rfl
  -- it is longer than the names that lead nowhere
  have hlong : ∀ name : RawText, name.size < 4 → drawingName file ≠ name := by
    rintro name hshort rfl
    rw [RawText.size, hbytes, List.length_append] at hshort
    have hdot : (Text.toBytes ".dot").length = 4 := by decide
    omega
  refine ⟨?_, ?_, hlong _ (by decide)⟩
  · rw [hbytes, List.mem_append, not_or]
    exact ⟨h, by decide⟩
  · rw [Files.isIdle, Bool.or_eq_false_iff, decide_eq_false_iff_not]
    refine ⟨Bool.eq_false_iff.2 fun hempty => ?_, hlong _ (by decide)⟩
    exact hlong ⟨[]⟩ (by decide) (congrArg RawText.mk (List.isEmpty_iff.1 hempty))

/-- `numbered` brings in no slash. -/
private theorem slash_notMem_numbered {file : RawText} (h : Files.slash ∉ file.bytes) (n : Nat) :
    Files.slash ∉ (numbered file n).bytes := by
  by_cases hn : 1 < n
  · rw [bytes_numbered hn, List.mem_append, List.mem_cons, not_or, not_or]
    exact ⟨h, by decide, notMem_toBytes_toString (d := '/') (by decide) (by decide) (by decide) n⟩
  · rw [numbered_of_not_one_lt hn]
    exact h

/-- Each of `fileNames` gives a drawing a proper name in its directory (`IsName`). -/
private theorem isName_of_mem_fileNames {names : List String} {file : RawText} (h : file ∈ fileNames names) :
    Files.IsName (drawingName file) := by
  rw [fileNames, fileNamesAfter_eq, List.mem_map] at h
  obtain ⟨⟨f, n⟩, hplace, rfl⟩ := h
  have hcount : f ∈ names.map fileName := List.count_pos_iff.1 (by have := mem_placesAfter.1 hplace; omega)
  obtain ⟨name, -, rfl⟩ := List.mem_map.1 hcount
  exact isName_drawingName (slash_notMem_numbered (slash_notMem_fileName name) n)

/-- Files of different names have different paths (`methodPath`), whatever the directory. -/
private theorem nodup_paths_iff (directory : RawText) (names : List String) :
    ((fileNames names).map (methodPath directory)).Nodup ↔ (fileNames names).Nodup := by
  refine ⟨List.Nodup.of_map _, fun h => h.map_on fun f hf g hg heq => ?_⟩
  have hname := Files.joinPath_inj (isName_of_mem_fileNames hf) (isName_of_mem_fileNames hg) heq
  obtain ⟨_⟩ := f
  obtain ⟨_⟩ := g
  exact congrArg RawText.mk (List.append_cancel_right (congrArg RawText.bytes hname))

/-- There is one of `fileNames` for each name. -/
private theorem length_fileNames (names : List String) : (fileNames names).length = names.length := by
  have hlength : ∀ used, (fileNamesAfter used names).length = names.length := by
    induction names with
    | nil => exact fun _ => rfl
    | cons name names ih => intro used; rw [fileNamesAfter, List.length_cons, ih, List.length_cons]
  exact hlength []

namespace MethodChoice

/-- The file names that the methods to be drawn ask for. -/
def wanted (c : MethodChoice) (bodies : List Body) : List RawText :=
  (bodies.filter c.admits).map fun b => fileName (c.naming.name b.declaration)

/-- `files` are called by `fileNames` of the methods to be drawn. -/
theorem map_file_files (c : MethodChoice) (bodies : List Body) :
    (c.files bodies).map MethodFile.file =
      fileNames ((bodies.filter c.admits).map fun b => c.naming.name b.declaration) := by
  have hlength := length_fileNames ((bodies.filter c.admits).map fun b => c.naming.name b.declaration)
  simp only [files, List.map_map]
  show List.map (Prod.snd ∘ Prod.snd) _ = _
  rw [← List.map_map, List.map_snd_zip, List.map_snd_zip]
  · omega
  · simp [hlength]

/-- There is one of `files` for each method to be drawn. -/
private theorem length_files (c : MethodChoice) (bodies : List Body) :
    (c.files bodies).length = (bodies.filter c.admits).length := by
  rw [← List.length_map MethodFile.file, map_file_files, length_fileNames, List.length_map]

/-- There is one of `files` for each method to be drawn. They have file names of their own, and with them paths
    of their own (`methodPath`), exactly if no file name that is `wanted` stands for another one with a number
    that is given out (`NoneTaken`). -/
theorem files_nodup_iff (c : MethodChoice) (directory : RawText) (bodies : List Body) :
    (c.files bodies).length = (bodies.filter c.admits).length ∧
    (((c.files bodies).map MethodFile.file).Nodup ↔ NoneTaken (c.wanted bodies)) ∧
    (((c.files bodies).map fun m => methodPath directory m.file).Nodup ↔ NoneTaken (c.wanted bodies)) := by
  have hnames := nodup_fileNames_iff ((bodies.filter c.admits).map fun b => c.naming.name b.declaration)
  rw [List.map_map] at hnames
  have hpaths : (c.files bodies).map (fun m => methodPath directory m.file) =
      ((c.files bodies).map MethodFile.file).map (methodPath directory) := by
    rw [List.map_map]
    rfl
  rw [hpaths, map_file_files, nodup_paths_iff]
  exact ⟨c.length_files bodies, hnames, hnames⟩

end MethodChoice

/-- A method of class `A` that returns at once. -/
def returningBody (name : String) (params : List String) : Body :=
  { declaration := .ofMethod "A" name params
    instructions := [⟨0, 0xb1, 1, "return", 0, [], [], false⟩]
    sites := [] }

/-- A `returningBody` has one block, which is enough to be drawn where nothing else is asked for. -/
private theorem admits_returningBody (name : String) (params : List String) :
    MethodChoice.admits { naming := .short } (returningBody name params) = true := by
  have hpart : ∀ cs, hasPart [] cs = true := by
    intro cs
    cases cs <;> rfl
  -- no jump leads anywhere, so that only the first instruction leads a block
  have hleaders : Bytecode.leaders (returningBody name params).instructions = [0] := by
    simp [Bytecode.leaders, returningBody, Bytecode.cutsFrom, Bytecode.cutsOf, Bytecode.transfer?,
      Bytecode.Transfer.targets, dropRepeats, dropRepeats.go]
  have hblocks : (Bytecode.blocks (returningBody name params).instructions).length = 1 := by
    rw [Bytecode.blocks, hleaders]
    rfl
  simp only [MethodChoice.admits, hblocks]
  simp [returningBody, hpart]

/-- Of three `returningBody` methods, the second `f` has the number two, and there is a method `f_2`: both are
    drawn into one file. -/
theorem file_of_overload_taken :
    ((MethodChoice.files { naming := .short }
      [returningBody "f" [], returningBody "f" ["int"], returningBody "f_2" []]).map MethodFile.file =
        ["A.f", "A.f_2", "A.f_2"]) ∧
    ¬ ((MethodChoice.files { naming := .short }
      [returningBody "f" [], returningBody "f" ["int"], returningBody "f_2" []]).map
        MethodFile.file).Nodup := by
  have hfiles : (MethodChoice.files { naming := .short }
      [returningBody "f" [], returningBody "f" ["int"], returningBody "f_2" []]).map MethodFile.file =
        ["A.f", "A.f_2", "A.f_2"] := by
    rw [MethodChoice.map_file_files]
    simp only [List.filter_cons, admits_returningBody, if_true, List.filter_nil]
    decide +kernel
  refine ⟨hfiles, ?_⟩
  rw [hfiles]
  decide

end Drawing
end CallAtlas
