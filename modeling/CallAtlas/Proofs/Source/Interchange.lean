import CallAtlas.Source.Resolve
import CallAtlas.Proofs.Files.Names
import CallAtlas.Proofs.Orders
import CallAtlas.Proofs.Result

/-!
# Sources that hold the same files

An archive, a directory and a part of a bucket that hold the same files yield the same class files in the
same order (`classes_interchangeable`). There is one exception. To see that an entry of an archive keeps the
limit, one byte more than the limit is asked for, and one more than the largest number is a negative one. So
an archive yields empty class files under the largest limit (`archive_empty_at_largest_limit`).
-/

namespace CallAtlas.Source

open Program
open Text (RawText)

/-- A path and the content of the file there. -/
abbrev File := RawText × List UInt8

/-- Files under paths of their own, none of which is the path of an archive. -/
structure FileMap where
  files : List File
  distinct : (files.map Prod.fst).Nodup
  clean : ∀ f ∈ files, Files.IsClean f.1
  notArchive : ∀ f ∈ files, isArchiveName f.1 = false

/-- A file as a source yields it. -/
def entryOfFile (f : File) : ClassEntry :=
  entryOf f.1 (.ok f.2)

namespace FileMap

/-- A walk below the directory at a path finds these files. -/
def InTree (m : FileMap) (tree : Files.Tree) (root : RawText) : Prop :=
  ((directoryFiles tree root).map fun f => (Files.pathOf f.1, f.2)).Perm m.files

/-- The objects of a part of a bucket are these files, and can be fetched by whoever asks for enough. -/
def InBucket (m : FileMap) (b : Bucket) : Prop :=
  ∃ objects : List (String × List UInt8), b.keys = objects.map (fun f => b.start ++ f.1) ∧
    (objects.map fun f => (RawText.ofString f.1, f.2)).Perm m.files ∧
    ∀ f ∈ objects, ∀ limit, f.2.length ≤ limit →
      b.store.fetch b.bucket (b.start ++ f.1) limit = some (.ok f.2)

/-- The entries of an archive, directories aside, are these files, and can be read. -/
def InArchive (m : FileMap) (a : Zip.Archive) : Prop :=
  ∃ content : Zip.Entry → List UInt8,
    ((a.entries.filter fun e => !e.isDirectory).map fun e => (e.name, content e)).Perm m.files ∧
    ∀ e ∈ a.entries, e.isDirectory = false →
      ∃ opened, a.openEntry e = .ok opened ∧ a.checkContent e opened = .ok (content e)

/-- The files that count as classes, in the order of their paths. -/
def classFiles (m : FileMap) (filter : Filter) : List File :=
  (m.files.filter fun f => filter.isClass f.1).mergeSort fun f g => f.1.le g.1

variable {m : FileMap} {filter : Filter}

/-- Paths order files totally. -/
theorem totalPreorder_path : TotalPreorder fun f g : File => f.1.le g.1 :=
  RawText.totalPreorder_le.comap Prod.fst

/-- `classFiles` are the files that `isClass` counts. -/
private theorem mem_classFiles {f : File} :
    f ∈ m.classFiles filter ↔ f ∈ m.files ∧ filter.isClass f.1 = true := by
  rw [classFiles, List.mem_mergeSort, List.mem_filter]

/-- The files of a map have paths of their own. -/
private theorem pairwise_ne : m.files.Pairwise fun f g => f.1 ≠ g.1 :=
  List.pairwise_map.1 m.distinct

/-- `classFiles` are listed in ascending order of their paths. -/
private theorem pairwise_classFiles : (m.classFiles filter).Pairwise fun f g => f.1 < g.1 := by
  have hne := m.pairwise_ne.filter fun f => filter.isClass f.1
  refine (totalPreorder_path.pairwise_mergeSort_of_pairwise hne).imp fun {f g} hfg => ?_
  refine RawText.lt_of_le_of_ne hfg.1 fun heq => ?_
  exact hfg.2 (heq ▸ RawText.totalPreorder_le.refl f.1) heq

/-- `sortByPath` gives `classFiles` in whatever order the files are found. -/
theorem sortByPath_eq {found : List File} (hfound : found.Perm m.files) {g : File → ClassEntry}
    (hg : ∀ f, (g f).path = f.1) :
    sortByPath ((found.filter fun f => filter.isClass f.1).map g) = (m.classFiles filter).map g := by
  have hsort : (found.filter fun f => filter.isClass f.1).mergeSort (fun f g => f.1.le g.1) =
      m.classFiles filter := by
    -- no two files are tied, so sorting forgets the order they were found in
    refine totalPreorder_path.mergeSort_eq_of_tied fun f => ?_
    refine (totalPreorder_path.filter_tied_eq_of_perm ?_ (hfound.filter _).symm f).symm
    exact (m.pairwise_ne.filter _).imp fun hne => RawText.tied_eq_false hne
  rw [← hsort, sortByPath]
  refine (List.map_mergeSort fun f _ g' _ => ?_).symm
  rw [hg, hg]

end FileMap

/-! ### One file -/

section
variable {filter : Filter} {o : Options}

/-- `isArchiveName` looks at the last name of a clean path only. -/
private theorem isArchiveName_baseName {path : RawText} (h : Files.IsClean path) :
    isArchiveName (Files.baseName path) = isArchiveName path := by
  rw [isArchiveName, h.extension_baseName, isArchiveName]

/-- `isLibrary` counts only archives, by their names. -/
private theorem isArchiveName_of_isLibrary {path : RawText} (h : filter.isLibrary path = true) :
    isArchiveName path = true := by
  simp only [Filter.isLibrary, Bool.and_eq_true] at h
  obtain ⟨start, hpath⟩ := List.isSuffixOf_iff_suffix.1 h.1.1
  -- the bytes of `.jar`
  have hextension : Files.extension path = ⟨Files.point :: [0x6a, 0x61, 0x72]⟩ :=
    Files.extension_of_append hpath.symm (by decide) (by decide)
  rw [isArchiveName, hextension]
  decide

/-- A source puts a file among the class files if it is one, and passes over others. -/
def classesOf (filter : Filter) (f : File) : List ClassEntry :=
  if filter.isClass f.1 then [entryOfFile f] else []

/-- `classesOf` file by file gives the files that `isClass` counts. -/
private theorem flatten_classesOf (filter : Filter) (fs : List File) :
    (fs.map (classesOf filter)).flatten = (fs.filter fun f => filter.isClass f.1).map entryOfFile := by
  induction fs with
  | nil => rfl
  | cons f fs ih =>
    rw [List.map_cons, List.flatten_cons, ih, classesOf, List.filter_cons]
    split <;> rfl

/-- `fileClasses` of a file within the limit that is no archive are its `classesOf`. -/
private theorem fileClasses_eq (root : RawText) (file : Files.Trail × List UInt8)
    (harchive : isArchiveName (Files.pathOf file.1) = false) (hfits : file.2.length ≤ o.limit) :
    fileClasses filter o root file = .ok (classesOf filter (Files.pathOf file.1, file.2)) := by
  have hcontent : fileContent o.limit (Files.joinPath root (Files.pathOf file.1)) file.2 = .ok file.2 :=
    if_neg (Nat.not_lt.2 hfits)
  simp only [fileClasses, classesOf, hcontent, harchive]
  split
  · rfl
  · simp

/-- `objectClasses` of an object that can be fetched and is no archive are its `classesOf`. -/
private theorem objectClasses_eq {b : Bucket} (f : String × List UInt8) (hclean : Files.IsClean f.1)
    (harchive : isArchiveName f.1 = false)
    (hfetch : b.store.fetch b.bucket (b.start ++ f.1) o.limit = some (.ok f.2)) :
    objectClasses false filter o b (b.start ++ f.1) =
      .ok (classesOf filter (RawText.ofString f.1, f.2)) := by
  have hpath : Text.dropPrefix? b.start.toList (b.start ++ f.1).toList = some f.1.toList := by
    simp [Text.dropPrefix?]
  simp only [objectClasses, hpath, Option.getD_some, String.ofList_toList, isArchiveName_baseName hclean,
    harchive, hfetch, classesOf]
  cases filter.isClass f.1 <;> rfl

end

/-! ### One entry of an archive -/

/-- An entry that `checkContent` accepts is as large as its content. -/
private theorem size_of_checkContent {a : Zip.Archive} {e : Zip.Entry}
    {opened : List UInt8 × Option Zip.InflateFault} {content : List UInt8}
    (h : a.checkContent e opened = .ok content) : e.size = content.length := by
  unfold Zip.Archive.checkContent at h
  dsimp only at h
  -- the refusals, one after the other: too long, faulty, too short
  by_cases hlong : e.size < opened.1.length
  · rw [if_pos hlong] at h
    cases h
  rw [if_neg hlong] at h
  cases hfault : opened.2 with
  | some fault =>
    rw [hfault] at h
    cases h
  | none =>
    rw [hfault] at h
    by_cases hshort : opened.1.length < e.size
    · simp only [if_pos hshort] at h
      cases h
    simp only [if_neg hshort] at h
    -- the checks of the checksum do not change what is returned
    have hcontent : content = opened.1 := by
      by_cases hdescriptor : e.hasDescriptor = true
      · rw [if_pos hdescriptor] at h
        obtain ⟨-, -, h⟩ := Result.bind_eq_ok.1 h
        split at h
        · cases h
        · exact (Result.pure_eq_ok.1 h).symm
      · rw [if_neg hdescriptor] at h
        split at h
        · cases h
        · exact (Result.pure_eq_ok.1 h).symm
    rw [hcontent]
    omega

/-- `askedFor` is more than nothing unless the limit is the largest number of 64 bits with a sign. -/
private theorem askedFor_pos_iff {limit : Nat} (h : limit < Nat.pow 2 63) :
    0 < askedFor limit ↔ limit + 1 < Nat.pow 2 63 := by
  unfold askedFor
  simp only [Nat.pow_eq] at h ⊢
  rw [Int.bmod_def]
  split <;> omega

/-- `askedFor` is nothing or less under the largest limit. -/
private theorem askedFor_nonpos {limit : Nat} (h : limit + 1 = Nat.pow 2 63) : askedFor limit ≤ 0 := by
  refine Int.not_lt.1 fun hpos => ?_
  have hsmall := (askedFor_pos_iff (by omega)).1 hpos
  omega

/-- `entryContent` of an entry that can be read is its content, or nothing if nothing is asked for. -/
private theorem entryContent_eq {limit : Nat} {a : Zip.Archive} {e : Zip.Entry}
    {opened : List UInt8 × Option Zip.InflateFault} {content : List UInt8}
    (hopened : a.openEntry e = .ok opened) (hcontent : a.checkContent e opened = .ok content)
    (hfits : content.length ≤ limit) :
    entryContent limit a e = .ok (if askedFor limit ≤ 0 then [] else content) := by
  -- the size that the entry gives is that of its content
  have hsize : ¬ limit < e.size := by
    rw [size_of_checkContent hcontent]
    omega
  unfold entryContent
  dsimp only
  rw [if_neg hsize, hopened, Result.mapError_ok, Result.ok_bind, hcontent, Result.mapError_ok]
  split
  · rfl
  · rfl

/-- `collectEntries` gives the entries that count, if the others yield nothing. -/
private theorem collectEntries_eq {filter : Filter} {limit : Nat} {a : Zip.Archive} {place : RawText}
    {library : Zip.Entry → Except Problem (List ClassEntry)} {es : List Zip.Entry}
    (hlibrary : ∀ e ∈ es, e.isDirectory = false → filter.isClass e.name = false → library e = .ok []) :
    collectEntries false filter limit a place library es =
      .ok (((es.filter fun e => !e.isDirectory).filter fun e => filter.isClass e.name).map
        fun e => entryOf (place ++ e.name) (entryContent limit a e)) := by
  induction es with
  | nil => rfl
  | cons e es ih =>
    have hrest := ih fun e' he' => hlibrary e' (List.mem_cons_of_mem e he')
    have hfirst := hlibrary e List.mem_cons_self
    rw [collectEntries, hrest]
    -- a directory, a class, or an entry that might be a library
    cases hdirectory : e.isDirectory with
    | true => simp [hdirectory]
    | false =>
      cases hclass : filter.isClass e.name with
      | true => simp [hdirectory, hclass]
      | false => simp [hdirectory, hclass, hfirst hdirectory hclass, Result.ok_bind]

/-! ### The three kinds of sources -/

section
variable {m : FileMap} {filter : Filter} {o : Options} (hfits : ∀ f ∈ m.files, f.2.length ≤ o.limit)
include hfits

/-- `directoryClasses` of a directory that holds the files are their `classFiles`. -/
theorem directoryClasses_eq {tree : Files.Tree} {root : RawText} (h : m.InTree tree root) :
    directoryClasses false filter o tree root = .ok ((m.classFiles filter).map entryOfFile) := by
  -- no file is an archive or too large, so that none fails
  have hfile : ∀ f ∈ directoryFiles tree root,
      fileClasses filter o root f = .ok (classesOf filter (Files.pathOf f.1, f.2)) := by
    intro f hf
    have hfile : (Files.pathOf f.1, f.2) ∈
        (directoryFiles tree root).map fun f => (Files.pathOf f.1, f.2) := List.mem_map.2 ⟨f, hf, rfl⟩
    have hmem := (List.Perm.mem_iff h).1 hfile
    have harchive : isArchiveName (Files.pathOf f.1) = false := m.notArchive (Files.pathOf f.1, f.2) hmem
    exact fileClasses_eq root f harchive (hfits _ hmem)
  have hfound := flatten_classesOf filter ((directoryFiles tree root).map fun f => (Files.pathOf f.1, f.2))
  rw [List.map_map] at hfound
  simp only [directoryClasses, Result.mapM_eq_ok hfile]
  show Except.ok (sortByPath _) = _
  -- the order in which files are found is forgotten
  rw [← FileMap.sortByPath_eq h fun _ => rfl, ← hfound]
  rfl

/-- `bucketClasses` of a part of a bucket that holds the files are their `classFiles`. -/
private theorem bucketClasses_eq {b : Bucket} (h : m.InBucket b) :
    bucketClasses false filter o b = .ok ((m.classFiles filter).map entryOfFile) := by
  obtain ⟨objects, hkeys, hobjects, hfetch⟩ := h
  -- each object can be fetched, and none is an archive
  have hobject : ∀ f ∈ objects, objectClasses false filter o b (b.start ++ f.1) =
      .ok (classesOf filter (RawText.ofString f.1, f.2)) := by
    intro f hf
    have hfile : (RawText.ofString f.1, f.2) ∈ objects.map fun f => (RawText.ofString f.1, f.2) :=
      List.mem_map.2 ⟨f, hf, rfl⟩
    have hmem := hobjects.mem_iff.1 hfile
    have hclean : Files.IsClean f.1 := m.clean (RawText.ofString f.1, f.2) hmem
    have harchive : isArchiveName f.1 = false := m.notArchive (RawText.ofString f.1, f.2) hmem
    exact objectClasses_eq f hclean harchive (hfetch f hf o.limit (hfits _ hmem))
  have hfound := flatten_classesOf filter (objects.map fun f => (RawText.ofString f.1, f.2))
  rw [List.map_map] at hfound
  simp only [bucketClasses, hkeys, List.mapM_map, Function.comp_def, Result.mapM_eq_ok hobject]
  show Except.ok (sortByPath _) = _
  rw [← FileMap.sortByPath_eq hobjects fun _ => rfl, ← hfound]
  rfl

/-- `archiveClasses` of an archive that holds the files are their `classFiles`, without contents if nothing is
    asked for. -/
private theorem archiveClasses_eq {a : Zip.Archive} (h : m.InArchive a) :
    archiveClasses false filter o a = .ok ((m.classFiles filter).map fun f =>
      entryOfFile (f.1, if askedFor o.limit ≤ 0 then [] else f.2)) := by
  obtain ⟨content, hentries, hread⟩ := h
  have hmem (e : Zip.Entry) (he : e ∈ a.entries.filter fun e => !e.isDirectory) :
      (e.name, content e) ∈ m.files :=
    hentries.mem_iff.1 (List.mem_map.2 ⟨e, he, rfl⟩)
  -- none of the entries is the archive of a library
  have hlibrary : ∀ e ∈ a.entries, e.isDirectory = false → filter.isLibrary e.name = false := by
    intro e he hdirectory
    have harchive : isArchiveName e.name = false :=
      m.notArchive (e.name, content e) (hmem e (List.mem_filter.2 ⟨he, by rw [hdirectory]; rfl⟩))
    rw [Bool.eq_false_iff]
    intro hlibrary
    rw [isArchiveName_of_isLibrary hlibrary] at harchive
    cases harchive
  -- the checks on reading an entry pass, as it holds the file
  have hcontent : ∀ e ∈ a.entries.filter fun e => !e.isDirectory,
      entryOf (("" : RawText) ++ e.name) (entryContent o.limit a e) =
        entryOfFile (e.name, if askedFor o.limit ≤ 0 then [] else content e) := by
    intro e he
    obtain ⟨hentry, hdirectory⟩ := List.mem_filter.1 he
    obtain ⟨opened, hopened, hchecked⟩ := hread e hentry (by simpa using hdirectory)
    rw [entryContent_eq hopened hchecked (hfits _ (hmem e he))]
    generalize (if askedFor o.limit ≤ 0 then [] else content e) = bytes
    rfl
  rw [archiveClasses, collect, collectEntries_eq fun e he hdirectory _ => by
    rw [hlibrary e he hdirectory, Bool.and_false]
    rfl]
  show Except.ok (sortByPath _) = _
  rw [← FileMap.sortByPath_eq hentries fun _ => rfl, List.filter_map, List.map_map]
  congr 2
  refine List.map_congr_left fun e he => ?_
  exact hcontent e (List.mem_filter.1 he).1

end

/-- Of files within the limit, a directory, a part of a bucket and an archive that hold them (`InTree`,
    `InBucket`, `InArchive`) yield the same `Opened.classes`, in the order of their paths. Only under the
    largest limit an archive yields them without their contents. -/
theorem classes_interchangeable (m : FileMap) (filter : Filter) (o : Options)
    (hbits : o.limit < Nat.pow 2 63) (hfits : ∀ f ∈ m.files, f.2.length ≤ o.limit) :
    ∃ list : List File, list.Pairwise (fun f g => f.1 < g.1) ∧
      (∀ f, f ∈ list ↔ f ∈ m.files ∧ filter.isClass f.1 = true) ∧
      (∀ tree (root : String), m.InTree tree root →
        Opened.classes tree false o ⟨.directory root, filter⟩ = .ok (list.map entryOfFile)) ∧
      (∀ tree b, m.InBucket b →
        Opened.classes tree false o ⟨.bucket b, filter⟩ = .ok (list.map entryOfFile)) ∧
      ∀ tree name a, m.InArchive a →
        (o.limit + 1 < Nat.pow 2 63 →
          Opened.classes tree false o ⟨.archive name a, filter⟩ = .ok (list.map entryOfFile)) ∧
        (o.limit + 1 = Nat.pow 2 63 →
          Opened.classes tree false o ⟨.archive name a, filter⟩ =
            .ok (list.map fun f => entryOfFile (f.1, []))) := by
  refine ⟨m.classFiles filter, FileMap.pairwise_classFiles, fun _ => FileMap.mem_classFiles, ?_, ?_, ?_⟩
  · exact fun tree root h => directoryClasses_eq hfits h
  · exact fun tree b h => bucketClasses_eq hfits h
  · intro tree name a h
    -- archives differ by what is asked for
    have hclasses : archiveClasses false filter o a = _ := archiveClasses_eq hfits h
    constructor
    · intro hsmall
      simp only [if_neg (Int.not_le.2 ((askedFor_pos_iff hbits).2 hsmall))] at hclasses
      exact hclasses
    · intro hlargest
      simp only [if_pos (askedFor_nonpos hlargest)] at hclasses
      exact hclasses

/-! ### Two files in a directory, in a bucket and in an archive -/

/-- Two class files of one byte each. -/
def twoFiles : FileMap where
  files := [(.ofString "b/B.class", [2]), (.ofString "A.class", [1])]
  distinct := by decide
  clean := by decide
  notArchive := by decide

/-- A tree with the two files at the top. -/
def twoInTree : Files.Tree :=
  ⟨[([.ofString "A.class"], .file [1]), ([.ofString "b"], .directory),
    ([.ofString "b", .ofString "B.class"], .file [2])]⟩

/-- A bucket with the two files under the name `p`. -/
def twoInBucket : Bucket where
  store := .ofObjects [("p/A.class", [1]), ("p/b/B.class", [2])]
  bucket := "c"
  start := "p/"
  keys := ["p/A.class", "p/b/B.class"]

/-- The start of an entry whose name is not repeated there. -/
def entryStart : List UInt8 :=
  [0x50, 0x4b, 3, 4] ++ List.replicate 26 0

/-- An archive with the two files, neither of them compressed. -/
def twoInArchive : Zip.Archive where
  file := none
  data := (entryStart ++ [2] ++ entryStart ++ [1]).toArray
  entries := [⟨.ofString "b/B.class", false, false, 0, 0, 1, 1, 0⟩,
    ⟨.ofString "A.class", false, false, 0, 0, 1, 1, 31⟩]

/-- `findAt` the path of one point is the top of a tree, whatever is done about links. -/
private theorem findAt_here (tree : Files.Tree) (atEnd : Files.Tree.AtEnd) :
    tree.findAt atEnd (.ofString ".") = .ok ([], .directory) := by
  have hnames : Files.pathNames (.ofString ".") = [.ofString "."] := by decide
  have hcheck : Files.Tree.checkPath (.ofString ".") = .ok () := rfl
  have hstart : Files.Tree.startOf (.ofString ".") [] = [] := rfl
  have hidle : Files.isIdle (.ofString ".") = true := by decide
  rw [Files.Tree.findAt, Files.Tree.trace, hcheck, hstart, hnames]
  simp [Files.Tree.walk, Files.Tree.node?, hidle, Result.ok_bind]
  rfl

/-- `directoryFiles` at the path of one point are all files of the tree. -/
theorem directoryFiles_here (tree : Files.Tree) :
    directoryFiles tree (.ofString ".") = tree.filesBelow [] := by
  rw [directoryFiles, Files.Tree.findLink, findAt_here]

/-- `twoInTree` holds `twoFiles`. -/
private theorem inTree_twoFiles : twoFiles.InTree twoInTree (.ofString ".") := by
  rw [FileMap.InTree, directoryFiles_here]
  refine ((List.mergeSort_perm _ _).map _).trans ?_
  decide

/-- `twoInBucket` holds `twoFiles`. -/
private theorem inBucket_twoFiles : twoFiles.InBucket twoInBucket := by
  refine ⟨[("A.class", [1]), ("b/B.class", [2])], by decide, by decide, ?_⟩
  intro f hf limit hfits
  have hlookup : ∀ f ∈ [("A.class", [(1 : UInt8)]), ("b/B.class", [2])],
      [("p/A.class", [(1 : UInt8)]), ("p/b/B.class", [2])].lookup ("p/" ++ f.1) = some f.2 := by decide
  simp only [twoInBucket, ObjectStore.ofObjects, hlookup f hf, if_neg (Nat.not_lt.2 hfits)]

/-- `twoInArchive` holds `twoFiles`. -/
private theorem inArchive_twoFiles : twoFiles.InArchive twoInArchive := by
  refine ⟨fun e => twoInArchive.slice (e.position.toNat + 30) e.packedSize, by decide, ?_⟩
  intro e he _
  simp only [twoInArchive, List.mem_cons, List.not_mem_nil, or_false] at he
  rcases he with rfl | rfl
  · exact ⟨([2], none), by decide, by decide⟩
  · exact ⟨([1], none), by decide, by decide⟩

/-- All classes count. -/
def allClasses : Filter := ⟨.ofLines [], false⟩

/-- `classes_interchangeable` on `twoFiles` in a directory, a bucket and an archive. -/
theorem classes_interchangeable_twoFiles : ∃ es, entryOfFile (.ofString "A.class", [1]) ∈ es ∧
    Opened.classes twoInTree false {} ⟨.directory ".", allClasses⟩ = .ok es ∧
    Opened.classes twoInTree false {} ⟨.bucket twoInBucket, allClasses⟩ = .ok es ∧
    Opened.classes twoInTree false {} ⟨.archive "two.jar" twoInArchive, allClasses⟩ = .ok es := by
  -- the standard limit is not the largest
  have hlimit : ({} : Options).limit + 1 < Nat.pow 2 63 := by
    rw [Nat.pow_eq]
    decide
  obtain ⟨list, -, hmem, htree, hbucket, harchive⟩ :=
    classes_interchangeable twoFiles allClasses {} (by omega) (by decide)
  refine ⟨list.map entryOfFile, List.mem_map_of_mem ((hmem _).2 ⟨by decide, by decide⟩), ?_, ?_, ?_⟩
  · exact htree _ _ inTree_twoFiles
  · exact hbucket _ _ inBucket_twoFiles
  · exact (harchive _ _ _ inArchive_twoFiles).1 hlimit

/-- The options with the largest limit. -/
def largestLimit : Options := { maxEntry := 9223372036854775807 }

/-- The limit of `largestLimit` is the largest number of 64 bits with a sign. -/
private theorem limit_largestLimit : largestLimit.limit + 1 = Nat.pow 2 63 := by
  rw [Nat.pow_eq]
  rfl

/-- Under `largestLimit` the archive yields other class files than the directory and the bucket. -/
theorem archive_empty_at_largest_limit : (∀ f ∈ twoFiles.files, f.2.length ≤ largestLimit.limit) ∧
    ∃ es es', Opened.classes twoInTree false largestLimit ⟨.directory ".", allClasses⟩ = .ok es ∧
      Opened.classes twoInTree false largestLimit ⟨.bucket twoInBucket, allClasses⟩ = .ok es ∧
      Opened.classes twoInTree false largestLimit ⟨.archive "two.jar" twoInArchive, allClasses⟩ = .ok es' ∧
      es ≠ es' := by
  have hfits : ∀ f ∈ twoFiles.files, f.2.length ≤ largestLimit.limit := by
    intro f hf
    have hbyte : ∀ f ∈ twoFiles.files, f.2.length = 1 := by decide
    have hlimit : largestLimit.limit = 9223372036854775807 := rfl
    rw [hbyte f hf]
    omega
  have harchive : archiveClasses false allClasses largestLimit twoInArchive = _ :=
    archiveClasses_eq hfits inArchive_twoFiles
  simp only [if_pos (askedFor_nonpos limit_largestLimit)] at harchive
  refine ⟨hfits, _, _, directoryClasses_eq hfits inTree_twoFiles,
    bucketClasses_eq hfits inBucket_twoFiles, harchive, fun heq => ?_⟩
  -- the first byte of `A.class` is missing
  have hmem : (RawText.ofString "A.class", [1]) ∈ twoFiles.classFiles allClasses :=
    FileMap.mem_classFiles.2 ⟨by decide, by decide⟩
  have hcontent := congrArg ClassEntry.content (List.map_inj_left.1 heq _ hmem)
  cases hcontent

end CallAtlas.Source
