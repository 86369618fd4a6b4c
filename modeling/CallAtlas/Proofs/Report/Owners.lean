import CallAtlas.Drawing.Classes
import CallAtlas.Proofs.CallGraph.EntryPoints
import CallAtlas.Proofs.Facts.MethodIdentity
import CallAtlas.Proofs.Signal.Choices

/-!
# The class of a method

A report finds the class of a method by walking back from the parameters in its name, and a drawing by cutting
the name twice. Both come to the same for any text (`ownerOf_eq_ownerInName`). Surveys and signal graphs do not
look at names: they take the class from the location of the declaration.

Which part of a name is its class is said without either search (`OwnerStands`), and that part is unique. All
agree on a method whose class can be told from its name (`ownerInName_name`). No dot may stand in the name of
the method, nor in the last part of the name of its class, as constructors are called after that. Dots in
parameter types do no harm, because the search starts in front of them.
-/

namespace CallAtlas

namespace Report

/-- `beforeDot` walks back over the first characters to the last dot among them. -/
private theorem beforeDot_eq (cs : List Char) (n : Nat) : beforeDot cs n = Text.beforeLast '.' (cs.take n) := by
  induction n with
  | zero => rfl
  | succ n ih =>
    rw [beforeDot, List.take_add_one, ih]
    cases cs[n]? with
    | none => simp
    | some c => simp [Text.beforeLast_concat]

/-- `ownerOf` and `ownerInName` find the same in every text. -/
theorem ownerOf_eq_ownerInName (name : String) : ownerOf name = Drawing.ClassChart.ownerInName name := by
  rw [ownerOf, Drawing.ClassChart.ownerInName, beforeDot_eq, ← Text.beforeFirst_eq_take]

/-- The text before the last dot in front of the first parenthesis, empty if there is no such dot. -/
def ownerPrefix (name : String) : String :=
  String.ofList ((name.toList.takeWhile (· != '(')).reverse.dropWhile (· != '.')).tail.reverse

/-- `ownerInName` is the `ownerPrefix`. -/
theorem ownerInName_eq_ownerPrefix (name : String) :
    Drawing.ClassChart.ownerInName name = ownerPrefix name := by
  rw [Drawing.ClassChart.ownerInName, Text.beforeLast, Text.throughLast, List.dropLast_reverse]
  rfl

/-- `ownerOf` is the `ownerPrefix`. -/
private theorem ownerOf_eq_ownerPrefix (name : String) : ownerOf name = ownerPrefix name :=
  (ownerOf_eq_ownerInName name).trans (ownerInName_eq_ownerPrefix name)

/-- `owner` stands in `name` in front of a dot. What is left up to the end, or to the parenthesis that opens the
    parameters, has no other dot. -/
def OwnerStands (owner name : String) : Prop :=
  ∃ member params, name.toList = (owner.toList ++ '.' :: member) ++ params ∧ '.' ∉ member ∧
    '(' ∉ owner.toList ++ '.' :: member ∧ (params = [] ∨ ∃ behind, params = '(' :: behind)

/-- Whether or not there are parameters, the search for the dot starts in front of them. -/
private theorem OwnerStands.exists_beforeFirst {owner name : String} (h : OwnerStands owner name) :
    ∃ member, Text.beforeFirst '(' name.toList = owner.toList ++ '.' :: member ∧ '.' ∉ member := by
  obtain ⟨member, params, hname, hdot, hopen, hparams⟩ := h
  refine ⟨member, ?_, hdot⟩
  rw [hname]
  rcases hparams with rfl | ⟨behind, rfl⟩
  · rw [List.append_nil, Text.beforeFirst_of_notMem hopen]
  · exact Text.beforeFirst_append_cons hopen behind

/-- The owner that stands in a name is its `ownerPrefix`. -/
private theorem OwnerStands.ownerPrefix_eq {owner name : String} (h : OwnerStands owner name) :
    ownerPrefix name = owner := by
  obtain ⟨member, hfront, hdot⟩ := h.exists_beforeFirst
  rw [← ownerInName_eq_ownerPrefix, Drawing.ClassChart.ownerInName, hfront, Text.beforeLast_append_cons _ hdot,
    String.ofList_toList]

/-- An owner stands in a name (`OwnerStands`) if it has a dot in front of its parameters, and the owner is its
    `ownerPrefix`. -/
theorem ownerStands_iff {owner name : String} :
    OwnerStands owner name ↔ '.' ∈ Text.beforeFirst '(' name.toList ∧ ownerPrefix name = owner := by
  refine ⟨fun h => ⟨?_, h.ownerPrefix_eq⟩, ?_⟩
  · obtain ⟨member, hfront, -⟩ := h.exists_beforeFirst
    rw [hfront]
    exact List.mem_append_right _ List.mem_cons_self
  · rintro ⟨hmem, howner⟩
    obtain ⟨member, hfront, hdot⟩ := Text.exists_eq_beforeLast_append hmem
    -- `ownerPrefix` cuts at the last dot in front of the parameters
    have hcut : Text.beforeLast '.' (Text.beforeFirst '(' name.toList) = owner.toList := by
      rw [← howner, ← ownerInName_eq_ownerPrefix, Drawing.ClassChart.ownerInName, String.toList_ofList]
    rw [hcut] at hfront
    have hopen : '(' ∉ owner.toList ++ '.' :: member := hfront ▸ Text.notMem_beforeFirst _
    -- without parameters the name ends there, else it goes on with them
    cases hrest : Text.fromFirst '(' name.toList with
    | nil =>
      have hname : Text.beforeFirst '(' name.toList ++ Text.fromFirst '(' name.toList = name.toList :=
        List.takeWhile_append_dropWhile
      rw [hrest, hfront] at hname
      exact ⟨member, [], hname.symm, hdot, hopen, .inl rfl⟩
    | cons c behind =>
      have hname := Text.eq_append_of_fromFirst hrest
      rw [hfront] at hname
      exact ⟨member, '(' :: behind, hname, hdot, hopen, .inr ⟨behind, rfl⟩⟩

instance (owner name : String) : Decidable (OwnerStands owner name) :=
  decidable_of_iff _ ownerStands_iff.symm

/-- What `ownerOf` finds in a name, unless it finds nothing, is the owner that stands in it (`OwnerStands`). -/
theorem ownerOf_eq_iff {owner name : String} (h : owner ≠ "") :
    ownerOf name = owner ↔ OwnerStands owner name := by
  rw [ownerStands_iff, ownerOf_eq_ownerPrefix]
  refine ⟨fun heq => ⟨?_, heq⟩, fun hstands => hstands.2⟩
  by_contra hnone
  rw [← ownerInName_eq_ownerPrefix, Drawing.ClassChart.ownerInName, Text.beforeLast_of_notMem hnone] at heq
  exact h heq.symm

end Report

namespace Location

/-! ### Names of methods -/

/-- The name of a method can be cut where that of its class ends. -/
structure Splits (owner name : String) : Prop where
  owner_open : '(' ∉ owner.toList
  /-- Constructors have the last part of the name of the class. -/
  owner_dot : '.' ∉ Text.afterLast '/' owner.toList
  name_slash : '/' ∉ name.toList
  name_dot : '.' ∉ name.toList
  name_open : '(' ∉ name.toList

/-- `simpleName` is the last part of the name of the class, or less. -/
private theorem mem_afterLast_of_mem_simpleName {owner : String} {c : Char}
    (h : c ∈ (simpleName owner).toList) : c ∈ Text.afterLast '/' owner.toList := by
  simp only [simpleName] at h
  split at h
  · rwa [String.toList_ofList] at h
  · rw [String.toList_ofList] at h
    exact Text.mem_of_mem_afterLast h

section
variable {owner name : String} (h : Splits owner name) (params : List String)
include h

/-- No dot stands in the `memberName` of a method, be it a constructor or not. -/
private theorem Splits.dot_notMem_memberName : '.' ∉ (memberName owner name).toList := by
  unfold memberName
  split
  · exact fun hmem => h.owner_dot (mem_afterLast_of_mem_simpleName hmem)
  · exact h.name_dot

/-- The `ownerName` of a method is that of its class, with dots. -/
private theorem Splits.ownerName_ofMethod :
    (ofMethod owner name params).ownerName = String.ofList (Text.swapChar '/' '.' owner.toList) := by
  rw [ownerName, owner_ofMethod h.owner_open ⟨h.name_slash, h.name_open⟩, String.toList_append]
  rfl

/-- A method is called by its class with dots, a dot, and its own name. Parameters may follow. -/
private theorem Splits.exists_toList_name {naming : Naming} (hnaming : naming ≠ .uri) :
    ∃ rest, (naming.name (ofMethod owner name params)).toList =
        (Text.swapChar '/' '.' owner.toList ++ '.' :: (memberName owner name).toList) ++ rest ∧
      (rest = [] ∨ ∃ behind, rest = '(' :: behind) := by
  have hpath : Text.dropLeading '/' (ofMethod owner name params).path.toList =
      (owner.toList ++ '/' :: (memberName owner name).toList) ++
        '(' :: ((",".intercalate params).toList ++ [')']) := by
    rw [toList_path_ofMethod]
    rfl
  have hfront : '(' ∉ owner.toList ++ '/' :: (memberName owner name).toList :=
    fun hmem => open_notMem_path_ofMethod h.owner_open ⟨h.name_slash, h.name_open⟩
      (List.mem_cons_of_mem '/' hmem)
  have hmember : Text.swapChar '/' '.' (memberName owner name).toList = (memberName owner name).toList :=
    Text.swapChar_of_notMem '.' (notMem_memberName (.inl rfl) h.name_slash)
  -- the member has no slash, so that only those of the class become dots
  have hbase : Text.swapChar '/' '.' (owner.toList ++ '/' :: (memberName owner name).toList) =
      Text.swapChar '/' '.' owner.toList ++ '.' :: (memberName owner name).toList := by
    nth_rewrite 2 [← hmember]
    exact List.map_append
  -- short names end where the parameters begin, signatures go on with them
  cases naming with
  | short =>
    refine ⟨[], ?_, .inl rfl⟩
    simp only [Naming.name, hpath, Text.beforeFirst_append_cons hfront, hbase, String.toList_ofList,
      List.append_nil]
  | signature =>
    refine ⟨'(' :: ((",".intercalate params).toList ++ [')']), ?_, .inr ⟨_, rfl⟩⟩
    simp only [Naming.name, hpath, Text.beforeFirst_append_cons hfront, Text.fromFirst_append_cons hfront,
      hbase, String.toList_ofList]
  | uri => exact absurd rfl hnaming

/-- `ownerInName` finds the class of a method in its name. -/
theorem Splits.ownerInName_name {naming : Naming} (hnaming : naming ≠ .uri) :
    Drawing.ClassChart.ownerInName (naming.name (ofMethod owner name params)) =
      (ofMethod owner name params).ownerName := by
  obtain ⟨rest, hname, hrest⟩ := h.exists_toList_name params hnaming
  have hmember : '(' ∉ (memberName owner name).toList := notMem_memberName (.inr h.owner_open) h.name_open
  have hclass : '(' ∉ Text.swapChar '/' '.' owner.toList := by
    rw [Descriptor.swapChar_eq_dotted]
    exact Descriptor.notMem_dotted h.owner_open (by decide)
  -- no parenthesis stands in front of the parameters
  have hfront : '(' ∉ Text.swapChar '/' '.' owner.toList ++ '.' :: (memberName owner name).toList := by
    simp [hclass, hmember]
  rw [Report.ownerInName_eq_ownerPrefix, h.ownerName_ofMethod]
  refine Report.OwnerStands.ownerPrefix_eq
    ⟨(memberName owner name).toList, rest, ?_, h.dot_notMem_memberName, ?_, hrest⟩
  · rw [String.toList_ofList, hname]
  · rwa [String.toList_ofList]

end

/-- The location of a method whose class can be told from its name. -/
def NamesClass (l : Location) : Prop :=
  ∃ owner name params, Splits owner name ∧ l = ofMethod owner name params

/-- `ownerOf` finds the class of a method that `NamesClass` in its name. -/
private theorem NamesClass.ownerOf_name {l : Location} (h : l.NamesClass) {naming : Naming}
    (hnaming : naming ≠ .uri) : Report.ownerOf (naming.name l) = l.ownerName := by
  obtain ⟨owner, name, params, hsplits, rfl⟩ := h
  rw [Report.ownerOf_eq_ownerInName, hsplits.ownerInName_name params hnaming]

end Location

/-! ### What surveys and signal graphs take from declarations -/

namespace CallGraph

open Facts Program

/-- A survey has the class of a method from a declaration of its name. -/
theorem exists_declaration_of_mem_funcs {s : Store} {bodies : List Body} {naming : Naming} {f : Func}
    (hf : f ∈ (Survey.collect s bodies naming).funcs) :
    ∃ d ∈ s.declarations, naming.name d = f.name ∧ f.owner = d.ownerName := by
  obtain ⟨d, hfind, heq⟩ := mem_funcsOf.1 hf
  refine ⟨d, List.mem_of_find?_eq_some hfind, by simpa using List.find?_some hfind, ?_⟩
  rw [heq]
  rfl

end CallGraph

namespace Signal

open CallGraph

/-- A signal graph has the class of a declared method from a declaration of its name. -/
theorem exists_declaration_of_mem_funcs {rules : List Rule} {naming : Naming} {hops : Int} {edges : List Edge}
    {ds : List Location} {f : Func} (hf : f ∈ (build rules naming hops edges ds).funcs)
    (hdeclared : ∃ d ∈ ds, naming.name d = f.name) :
    ∃ d ∈ ds, naming.name d = f.name ∧ f.owner = d.ownerName := by
  rw [build_eq] at hf
  obtain ⟨n, -, rfl⟩ := List.mem_map.1 (List.mem_mergeSort.1 hf)
  obtain ⟨d, hd, hname⟩ := hdeclared
  -- the table of owners has the last declaration of each name
  have hmem : n ∈ (ds.map fun d => (naming.name d, d.ownerName)).map Prod.fst := by
    rw [List.map_map]
    exact List.mem_map.2 ⟨d, hd, hname⟩
  obtain ⟨e, he, heq⟩ := List.mem_map.1 (mem_of_getD_lastTable hmem)
  obtain ⟨hname', howner⟩ := Prod.mk.inj heq
  exact ⟨e, he, hname', howner.symm⟩

end Signal

/-! ### All agree -/

open Drawing.ClassChart (ownerInName)

/-- `ownerOf` and `ownerInName` agree on every text. On the names of a method they find the `ownerName` in its
    location, which is what surveys and signal graphs have. -/
theorem owners_agree : (∀ name, Report.ownerOf name = ownerInName name) ∧
    ∀ naming : Naming, naming ≠ .uri →
      (∀ owner name params, Location.Splits owner name → ∀ l, l = Location.ofMethod owner name params →
        Report.ownerOf (naming.name l) = l.ownerName ∧ ownerInName (naming.name l) = l.ownerName) ∧
      (∀ s bodies, ∀ f ∈ (CallGraph.Survey.collect s bodies naming).funcs,
        ∃ d ∈ s.declarations, naming.name d = f.name ∧ f.owner = d.ownerName ∧
          (d.NamesClass → f.owner = Report.ownerOf f.name)) ∧
      ∀ rules hops edges ds, ∀ f ∈ (Signal.build rules naming hops edges ds).funcs,
        (∃ d ∈ ds, naming.name d = f.name) → ∃ d ∈ ds, naming.name d = f.name ∧ f.owner = d.ownerName ∧
          (d.NamesClass → f.owner = Report.ownerOf f.name) := by
  refine ⟨Report.ownerOf_eq_ownerInName, fun naming hnaming => ⟨?_, ?_, ?_⟩⟩
  · rintro owner name params hsplits _ rfl
    rw [Report.ownerOf_eq_ownerInName, hsplits.ownerInName_name params hnaming]
    exact ⟨rfl, rfl⟩
  · -- surveys and signal graphs have the owner from a declaration of the name
    intro s bodies f hf
    obtain ⟨d, hd, hname, howner⟩ := CallGraph.exists_declaration_of_mem_funcs hf
    refine ⟨d, hd, hname, howner, fun hclass => ?_⟩
    rw [howner, ← hname, hclass.ownerOf_name hnaming]
  · intro rules hops edges ds f hf hdeclared
    obtain ⟨d, hd, hname, howner⟩ := Signal.exists_declaration_of_mem_funcs hf hdeclared
    refine ⟨d, hd, hname, howner, fun hclass => ?_⟩
    rw [howner, ← hname, hclass.ownerOf_name hnaming]

/-- `owners_agree` on the constructor of an inner class, which is called as the class; the dots of its
    parameters are passed over. -/
theorem owners_agree_constructor :
    Naming.signature.name (.ofMethod "p/A$B" "<init>" ["java.lang.String"]) = "p.A$B.B(java.lang.String)" ∧
    Report.ownerOf "p.A$B.B(java.lang.String)" = "p.A$B" ∧
    ownerInName "p.A$B.B(java.lang.String)" = "p.A$B" := by
  have hsplits : Location.Splits "p/A$B" "<init>" :=
    ⟨by decide, by decide, by decide, by decide, by decide⟩
  have hname : Naming.signature.name (.ofMethod "p/A$B" "<init>" ["java.lang.String"]) =
      "p.A$B.B(java.lang.String)" := by decide
  have howner : (Location.ofMethod "p/A$B" "<init>" ["java.lang.String"]).ownerName = "p.A$B" := by decide
  have hfound := (owners_agree.2 .signature (by decide)).1 "p/A$B" "<init>" ["java.lang.String"] hsplits _ rfl
  rw [hname, howner] at hfound
  exact ⟨hname, hfound⟩

end CallAtlas
