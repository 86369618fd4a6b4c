import CallAtlas.Proofs.CallGraph.Externals
import CallAtlas.Proofs.Facts.Order
import CallAtlas.Proofs.Orders
import CallAtlas.Proofs.Tables

/-!
# Where a program can be entered

A program can be entered at the methods with code that no other method calls (`mem_entryPoints`). Several
declarations, with code and without, can have one name; a survey shows the least of them
(`mem_funcs_collect`). So whether a name counts as an entry depends on this one alone, and a name is missing
among the entries if its least declaration has no code but another one has (`entryPoints_collect`).
-/

namespace CallAtlas

namespace Facts

/-- `declarations` are listed in strictly ascending order, if all of them are methods. -/
private theorem Store.pairwise_declarations {s : Store} (h : ∀ d ∈ s.declarations, d.IsMethod) :
    s.declarations.Pairwise fun a b => Location.cmp a b = .lt := by
  -- methods are told apart by their texts, so the order is antisymmetric on them
  have hanti : ∀ a b : Location, (a.le b = true ∧ a.IsMethod ∧ b.IsMethod) →
      (b.le a = true ∧ b.IsMethod ∧ a.IsMethod) → a = b := by
    rintro a b ⟨hab, ha, hb⟩ ⟨hba, -, -⟩
    have heq : Location.cmp a b = .eq :=
      (tied_cmp_iff Location.cmp a b).1 (by rw [tied, Bool.and_eq_true]; exact ⟨hab, hba⟩)
    exact ha.eq_of_text_eq hb (Location.text_eq_of_identity_eq (Location.cmp_eq_iff.1 heq))
  have hsorted := (totalPreorder_cmp Location.cmp).pairwise_mergeSort
    ((s.tuples relDeclarations).filterMap fun t => t.head?.filter Location.isDeclaration)
  have hmethods := hsorted.imp_of_mem (S := fun a b => a.le b = true ∧ a.IsMethod ∧ b.IsMethod)
    fun ha hb hab => ⟨hab, h _ (mem_dropRepeats.2 ha), h _ (mem_dropRepeats.2 hb)⟩
  refine (pairwise_dropRepeats hanti hmethods).imp ?_
  rintro a b ⟨⟨hab, ha, hb⟩, hne⟩
  rcases Ordering.isLE_iff_eq_lt_or_eq_eq.1 hab with hlt | heq
  · exact hlt
  · exact absurd (ha.eq_of_text_eq hb (Location.text_eq_of_identity_eq (Location.cmp_eq_iff.1 heq))) hne

end Facts

namespace CallGraph

open Facts Program

/-! ### Entries -/

/-- A call leads from one method to the other. -/
def Calls (calls : List Call) (a b : String) : Prop :=
  ∃ c ∈ calls, c.source = a ∧ c.target = b

/-- A call leads from one method to another one. -/
def CallsOther (calls : List Call) (a b : String) : Prop :=
  Calls calls a b ∧ a ≠ b

/-- `entryPoints` are the names of methods with code that no other method calls (`CallsOther`). -/
theorem mem_entryPoints {funcs : List Func} {calls : List Call} {n : String} :
    n ∈ entryPoints funcs calls ↔
      (∃ f ∈ funcs, f.name = n ∧ f.isAbstract = false) ∧ ∀ a, ¬ CallsOther calls a n := by
  -- the set of methods that others call
  have hcalled : ∀ n, (setOf ((calls.filter fun c => c.source != c.target).map Call.target)).contains n
      = true ↔ ∃ a, CallsOther calls a n := by
    intro n
    rw [contains_setOf, List.contains_iff_mem]
    simp only [List.mem_map, List.mem_filter, bne_iff_ne, CallsOther, Calls]
    constructor
    · rintro ⟨c, ⟨hc, hne⟩, rfl⟩
      exact ⟨c.source, ⟨c, hc, rfl, rfl⟩, hne⟩
    · rintro ⟨_, ⟨c, hc, rfl, rfl⟩, hne⟩
      exact ⟨c, ⟨hc, hne⟩, rfl⟩
  rw [entryPoints, Text.mem_sort]
  simp only [List.mem_map, List.mem_filter, Bool.and_eq_true, Bool.not_eq_true', ← not_exists, ← hcalled]
  constructor
  · rintro ⟨f, ⟨hf, hcode, hfree⟩, rfl⟩
    exact ⟨⟨f, hf, rfl, hcode⟩, by simp [hfree]⟩
  · rintro ⟨⟨f, hf, rfl, hcode⟩, hfree⟩
    exact ⟨f, ⟨hf, hcode, by simpa using hfree⟩, rfl⟩

/-! ### The calls and the methods of a survey -/

/-- `callsOfSite` leads from the method that the site stands in to its targets. -/
private theorem exists_mem_callsOfSite {naming : Naming} {declared : Std.HashSet Location} {source : String}
    {kind : Bytecode.InvokeKind} {isNamed : Bool} {callees : List Location} {a n : String} :
    (∃ c ∈ callsOfSite naming declared source kind isNamed callees, c.source = a ∧ c.target = n) ↔
      source = a ∧ ∃ l ∈ callees, naming.name l = n := by
  induction callees generalizing isNamed with
  | nil => simp [callsOfSite]
  | cons callee rest ih =>
    simp only [callsOfSite, List.mem_cons, exists_eq_or_imp, ih]
    grind

/-- `Calls` of a survey lead from the bodies to the targets of their sites. -/
theorem calls_collect_iff {s : Store} {bodies : List Body} {naming : Naming} {a n : String} :
    Calls (Survey.collect s bodies naming).calls a n ↔
      ∃ b ∈ bodies, ∃ r ∈ b.sites, ∃ l ∈ r.callees, naming.name b.declaration = a ∧ naming.name l = n := by
  simp only [Calls, Survey.collect, callsOfBody, List.mem_flatMap]
  constructor
  · rintro ⟨c, ⟨b, hb, r, hr, hc⟩, hends⟩
    obtain ⟨hsource, l, hl, htarget⟩ := exists_mem_callsOfSite.1 ⟨c, hc, hends⟩
    exact ⟨b, hb, r, hr, l, hl, hsource, htarget⟩
  · rintro ⟨b, hb, r, hr, l, hl, hsource, htarget⟩
    obtain ⟨c, hc, hends⟩ := exists_mem_callsOfSite.2 ⟨hsource, l, hl, htarget⟩
    exact ⟨c, ⟨b, hb, r, hr, hc⟩, hends⟩

/-- The method of a declaration, as it is shown. -/
def funcOf (naming : Naming) (withCode : List Location) (d : Location) : Func :=
  ⟨naming.name d, d.ownerName, !withCode.contains d⟩

/-- `funcsAfter` shows a method for each name that was not seen before, the one of its first declaration. -/
private theorem mem_funcsAfter {naming : Naming} {withCode : List Location} {seen : Std.HashSet String}
    {ds : List Location} {f : Func} :
    f ∈ funcsAfter naming (setOf withCode) seen ds ↔
      f.name ∉ seen ∧ ∃ d, ds.find? (fun e => naming.name e == f.name) = some d ∧
        f = funcOf naming withCode d := by
  -- along the declarations, with the names seen so far
  induction ds generalizing seen with
  | nil => simp [funcsAfter]
  | cons d ds ih =>
    rw [funcsAfter]
    by_cases hseen : naming.name d ∈ seen
    · rw [if_pos (Std.HashSet.mem_iff_contains.1 hseen), ih]
      refine and_congr_right fun hnew => ?_
      have hother : naming.name d ≠ f.name := fun heq => hnew (heq ▸ hseen)
      rw [List.find?_cons_of_neg (by simpa using hother)]
    · rw [if_neg fun h => hseen (Std.HashSet.mem_iff_contains.2 h), List.mem_cons, ih, contains_setOf]
      by_cases hname : naming.name d = f.name
      · -- this is the first declaration of the name, and the rest shows no other
        rw [List.find?_cons_of_pos (by simpa using hname)]
        simp only [Std.HashSet.mem_insert, hname, beq_self_eq_true, true_or, not_true, false_and, or_false,
          Option.some.injEq, exists_eq_left']
        rw [hname] at hseen
        exact ⟨fun heq => ⟨hseen, heq.trans (by rw [funcOf, hname])⟩,
          fun h => h.2.trans (by rw [funcOf, hname])⟩
      · rw [List.find?_cons_of_neg (by simpa using hname)]
        have hne : f ≠ ⟨naming.name d, d.ownerName, !withCode.contains d⟩ :=
          fun heq => hname (congrArg Func.name heq).symm
        simp only [hne, false_or, Std.HashSet.mem_insert, beq_iff_eq, hname]

/-- `funcsOf` shows a method for each name, the one of its first declaration. -/
theorem mem_funcsOf {naming : Naming} {ds withCode : List Location} {f : Func} :
    f ∈ funcsOf naming ds withCode ↔
      ∃ d, ds.find? (fun e => naming.name e == f.name) = some d ∧ f = funcOf naming withCode d := by
  rw [funcsOf, mem_funcsAfter]
  simp

/-- `funcsAfter` shows no two methods under one name. -/
private theorem nodup_names_funcsAfter (naming : Naming) (withCode : List Location) (seen : Std.HashSet String)
    (ds : List Location) : ((funcsAfter naming (setOf withCode) seen ds).map Func.name).Nodup := by
  induction ds generalizing seen with
  | nil => exact List.nodup_nil
  | cons d ds ih =>
    rw [funcsAfter]
    split
    · exact ih seen
    · rw [List.map_cons, List.nodup_cons]
      refine ⟨fun hmem => ?_, ih _⟩
      -- the name of the first one is seen from then on
      obtain ⟨f, hf, hname⟩ := List.mem_map.1 hmem
      exact (mem_funcsAfter.1 hf).1 (by simp [hname])

/-- `funcsOf` shows no two methods under one name. -/
theorem nodup_names_funcsOf (naming : Naming) (ds withCode : List Location) :
    ((funcsOf naming ds withCode).map Func.name).Nodup :=
  nodup_names_funcsAfter naming withCode ∅ ds

/-- The names that `funcsOf` shows are those of the declarations. -/
theorem mem_names_funcsOf {naming : Naming} {ds withCode : List Location} {n : String} :
    n ∈ (funcsOf naming ds withCode).map Func.name ↔ ∃ d ∈ ds, naming.name d = n := by
  simp only [List.mem_map, mem_funcsOf]
  constructor
  · rintro ⟨f, ⟨d, hfind, -⟩, rfl⟩
    exact ⟨d, List.mem_of_find?_eq_some hfind, by simpa using List.find?_some hfind⟩
  · rintro ⟨d, hd, rfl⟩
    -- the first declaration of a name is shown for all of them
    cases hfind : ds.find? (fun e => naming.name e == naming.name d) with
    | none => exact absurd (List.find?_eq_none.1 hfind d hd) (by simp)
    | some e =>
      have hname : naming.name e = naming.name d := by simpa using List.find?_some hfind
      exact ⟨funcOf naming withCode e, ⟨e, by rw [funcOf, hname]; exact hfind, rfl⟩, hname⟩

/-! ### The entries of a survey -/

/-- The declared method has code. -/
def HasBody (bodies : List Body) (d : Location) : Prop :=
  ∃ b ∈ bodies, b.declaration = d

/-- `funcOf` shows a declaration as not abstract exactly if it `HasBody`. -/
private theorem isAbstract_funcOf {naming : Naming} {bodies : List Body} {d : Location} :
    (funcOf naming (bodies.map Body.declaration) d).isAbstract = false ↔ HasBody bodies d := by
  simp [funcOf, HasBody]

/-- The declaration is the least one of its name. -/
structure IsLeastNamed (naming : Naming) (ds : List Location) (d : Location) : Prop where
  mem : d ∈ ds
  le : ∀ e ∈ ds, naming.name e = naming.name d → d.le e = true

section
variable {s : Store} (hmethods : ∀ d ∈ s.declarations, d.IsMethod) (bodies : List Body) (naming : Naming)
include hmethods

/-- A survey shows, for each name, its least declaration (`IsLeastNamed`), since declarations are listed in
    ascending order. -/
theorem mem_funcs_collect {f : Func} :
    f ∈ (Survey.collect s bodies naming).funcs ↔
      ∃ d, IsLeastNamed naming s.declarations d ∧ f = funcOf naming (bodies.map Body.declaration) d := by
  show f ∈ funcsOf naming s.declarations (bodies.map Body.declaration) ↔ _
  simp only [mem_funcsOf, find?_eq_some_iff_least (Store.pairwise_declarations hmethods), beq_iff_eq]
  constructor
  · rintro ⟨d, ⟨hd, hname, hle⟩, heq⟩
    exact ⟨d, ⟨hd, fun e he hsame => hle e he (hsame.trans hname)⟩, heq⟩
  · rintro ⟨d, ⟨hd, hle⟩, rfl⟩
    exact ⟨d, ⟨hd, rfl, hle⟩, rfl⟩

/-- The `entryPoints` of a survey are the names whose least declaration has code and that no other name
    calls. -/
private theorem mem_entryPoints_collect (calls : List Call) (n : String) :
    n ∈ entryPoints (Survey.collect s bodies naming).funcs calls ↔
      (∃ d, IsLeastNamed naming s.declarations d ∧ naming.name d = n ∧ HasBody bodies d) ∧
        ∀ a, ¬ CallsOther calls a n := by
  rw [mem_entryPoints]
  refine and_congr_left fun _ => ?_
  simp only [mem_funcs_collect hmethods]
  constructor
  · rintro ⟨f, ⟨d, hd, rfl⟩, hname, hcode⟩
    exact ⟨d, hd, hname, isAbstract_funcOf.1 hcode⟩
  · rintro ⟨d, hd, hname, hcode⟩
    exact ⟨_, ⟨d, hd, rfl⟩, hname, isAbstract_funcOf.2 hcode⟩

/-- Every name that is declared has a least declaration. -/
private theorem exists_isLeastNamed {d : Location} (hd : d ∈ s.declarations) :
    ∃ e, IsLeastNamed naming s.declarations e ∧ naming.name e = naming.name d := by
  have hname : naming.name d ∈ ((Survey.collect s [] naming).funcs).map Func.name :=
    mem_names_funcsOf.2 ⟨d, hd, rfl⟩
  obtain ⟨f, hf, hname⟩ := List.mem_map.1 hname
  obtain ⟨e, he, rfl⟩ := (mem_funcs_collect hmethods [] naming).1 hf
  exact ⟨e, he, hname⟩

end

/-- In a build, a declaration `HasBody` exactly if it is that of a loaded method with code. -/
private theorem hasBody_buildLoaded {dispatch : Dispatch} {cs : List LoadedClass} {failures : List LoadFailure}
    {warnings : List Diagnostic} {d : Location} :
    HasBody (buildLoaded dispatch cs failures warnings).bodies d ↔
      ∃ c ∈ cs, ∃ m ∈ c.methods, m.code.isSome = true ∧ m.declaration = d := by
  simp only [HasBody, mem_bodies, Option.isSome_iff_exists]
  constructor
  · rintro ⟨b, ⟨c, hc, m, hm, code, hcode, rfl⟩, rfl⟩
    exact ⟨c, hc, m, hm, ⟨code, hcode⟩, rfl⟩
  · rintro ⟨c, hc, m, hm, ⟨code, hcode⟩, rfl⟩
    exact ⟨_, ⟨c, hc, m, hm, code, hcode, rfl⟩, rfl⟩

/-- The `declarations` of a build are methods. -/
theorem isMethod_of_mem_declarations {options : BuildOptions} {entries : List ClassEntry} {built : Built}
    (h : build options entries = .ok built) : ∀ d ∈ built.store.declarations, d.IsMethod := by
  intro d hd
  rw [eq_buildLoaded h] at hd
  obtain ⟨c, hc, m, hm, rfl⟩ := exists_method_of_mem_declarations hd
  exact (isProgram_keptClasses options.limits entries).isMethod hc hm

/-- A declared method of this name has code, and no call leads from another name to this one. -/
def IsUncalled (built : Built) (naming : Naming) (n : String) : Prop :=
  (∃ d ∈ built.store.declarations, naming.name d = n ∧ HasBody built.bodies d) ∧
    ∀ a, ¬ CallsOther (Survey.collect built.store built.bodies naming).calls a n

/-- The `entryPoints` of a survey are names of methods with code that no other name calls (`IsUncalled`). Of
    these names, the entries are the ones whose least declaration has code. So they are all of them where no two
    declarations have one name, as it is if methods are named by their locations. -/
theorem entryPoints_collect {options : BuildOptions} {entries : List ClassEntry} {built : Built}
    (h : build options entries = .ok built) (naming : Naming) {s : Survey}
    (hs : s = Survey.collect built.store built.bodies naming) :
    (∀ n ∈ entryPoints s.funcs s.calls, IsUncalled built naming n) ∧
    (∀ n, IsUncalled built naming n → (n ∈ entryPoints s.funcs s.calls ↔
      ∃ d, IsLeastNamed naming built.store.declarations d ∧ naming.name d = n ∧
        HasBody built.bodies d)) ∧
    ((∀ d ∈ built.store.declarations, ∀ e ∈ built.store.declarations,
        naming.name d = naming.name e → d = e) →
      ∀ n, n ∈ entryPoints s.funcs s.calls ↔ IsUncalled built naming n) ∧
    (naming = .uri → ∀ d ∈ built.store.declarations, ∀ e ∈ built.store.declarations,
      naming.name d = naming.name e → d = e) := by
  have hmethods := isMethod_of_mem_declarations h
  subst hs
  have hentry := mem_entryPoints_collect hmethods built.bodies naming
    (Survey.collect built.store built.bodies naming).calls
  have huncalled : ∀ n ∈ entryPoints (Survey.collect built.store built.bodies naming).funcs
      (Survey.collect built.store built.bodies naming).calls, IsUncalled built naming n := by
    intro n hn
    obtain ⟨⟨d, hd, hname, hcode⟩, hfree⟩ := (hentry n).1 hn
    exact ⟨⟨d, hd.mem, hname, hcode⟩, hfree⟩
  refine ⟨huncalled, fun n hn => ?_, fun hinj n => ⟨huncalled n, fun hn => ?_⟩, ?_⟩
  · -- the entries among the names that nothing else calls
    rw [hentry]
    exact and_iff_left hn.2
  · -- a name of one declaration: the least one is the one with code
    obtain ⟨⟨d, hd, hname, hcode⟩, hfree⟩ := hn
    obtain ⟨e, he, hsame⟩ := exists_isLeastNamed hmethods naming hd
    obtain rfl := hinj e he.mem d hd hsame
    exact (hentry n).2 ⟨⟨e, he, hname, hcode⟩, hfree⟩
  · -- names that are locations
    rintro rfl d hd e he hname
    exact (hmethods d hd).eq_of_text_eq (hmethods e he) hname

/-! ### A name with and without code -/

/-- An interface with two methods `f`: an abstract one with one descriptor, and one with code with another
    descriptor. -/
def overloaded (bare full : String) : List ClassEntry :=
  [entryOf "A.class"
    { name := "A", isInterface := true
      methods := [⟨.isAbstract, "f", bare, []⟩, ⟨.isPublic, "f", full, []⟩] }]

def outlinesOfOverloaded (bare full : String) (params params' : List String) : List Outline :=
  [⟨"A", 1537, "java/lang/Object", [], "",
    [⟨⟨1025, "f", bare, none⟩, .ofMethod "A" "f" params, none⟩,
     ⟨⟨1, "f", full, some ⟨8, 8, [0xb1], []⟩⟩, .ofMethod "A" "f" params',
      some ⟨[⟨0, 0xb1, 1, "return", 0, [], [], false⟩], []⟩⟩]⟩]

/-- The outlines of the classes that are loaded from `overloaded`, with the descriptors either way round. -/
private theorem map_outline_overloaded {bare full : String} {params params' : List String}
    (h : bare = "()V" ∧ full = "(I)V" ∧ params = [] ∧ params' = ["int"] ∨
      bare = "(I)V" ∧ full = "()V" ∧ params = ["int"] ∧ params' = []) :
    (keptClasses ⟨0, Bytecode.defaultLimit⟩ (overloaded bare full)).map LoadedClass.outline =
      outlinesOfOverloaded bare full params params' := by
  rcases h with ⟨rfl, rfl, rfl, rfl⟩ | ⟨rfl, rfl, rfl, rfl⟩
  · exact map_outline_keptClasses (by decide) (by decide +kernel) (by decide)
  · exact map_outline_keptClasses (by decide) (by decide +kernel) (by decide)

section
variable {cs : List LoadedClass} {bare full : String} {params params' : List String}
  (houtline : cs.map LoadedClass.outline = outlinesOfOverloaded bare full params params')
include houtline

/-- The interface of `overloaded` is plain, so keys tell its declarations apart. -/
private theorem isPlain_overloaded (hparams : (Location.ofMethod "A" "f" params).IsPlain)
    (hparams' : (Location.ofMethod "A" "f" params').IsPlain) : ∀ c ∈ cs, c.IsPlain := by
  refine isPlain_of_outlines houtline fun o ho => ?_
  obtain rfl := List.mem_singleton.1 ho
  refine ⟨show (Location.ofClass "A" true).IsPlain by decide,
    show (Location.ofUnit "A" "").IsPlain by decide, fun m hm => ?_⟩
  rcases List.mem_pair.1 hm with rfl | rfl
  · exact hparams
  · exact hparams'

/-- The `declarations` of `overloaded` are its two methods. -/
theorem mem_declarations_overloaded (hcs : IsProgram cs) (hparams : (Location.ofMethod "A" "f" params).IsPlain)
    (hparams' : (Location.ofMethod "A" "f" params').IsPlain) (dispatch : Dispatch)
    (failures : List LoadFailure) (warnings : List Diagnostic) {l : Location} :
    l ∈ (buildLoaded dispatch cs failures warnings).store.declarations ↔
      l = .ofMethod "A" "f" params ∨ l = .ofMethod "A" "f" params' := by
  have hkeys := hcs.keysApart_facts (isPlain_overloaded houtline hparams hparams') fun _ _ _ => .inl
  rw [mem_declarations_iff hcs dispatch failures warnings hkeys, exists_method_of_outlines houtline]
  simp [outlinesOfOverloaded, eq_comm (a := l)]

/-- Only the second method of `overloaded` `HasBody`. -/
theorem hasBody_overloaded (dispatch : Dispatch) (failures : List LoadFailure)
    (warnings : List Diagnostic) {d : Location} :
    HasBody (buildLoaded dispatch cs failures warnings).bodies d ↔ d = .ofMethod "A" "f" params' := by
  rw [hasBody_buildLoaded, exists_method_of_outlines houtline]
  simp [outlinesOfOverloaded, eq_comm (a := d)]

/-- The methods of `overloaded` have no call sites. -/
private theorem sites_overloaded {m : LoadedMethod} (hm : ∃ c ∈ cs, ∃ m' ∈ c.methods, m' = m) :
    m.code.elim [] LoadedCode.sites = [] := by
  rw [exists_method_of_outlines houtline] at hm
  obtain ⟨o, ho, m', hm', rfl⟩ := hm
  obtain rfl := List.mem_singleton.1 ho
  rcases List.mem_pair.1 hm' with rfl | rfl <;> rfl

/-- There are no `Calls` in `overloaded`. -/
private theorem not_calls_overloaded (dispatch : Dispatch) (failures : List LoadFailure)
    (warnings : List Diagnostic) (naming : Naming) (a n : String) :
    ¬ Calls (Survey.collect (buildLoaded dispatch cs failures warnings).store
      (buildLoaded dispatch cs failures warnings).bodies naming).calls a n := by
  rw [calls_collect_iff]
  rintro ⟨b, hb, r, hr, -⟩
  obtain ⟨c, hc, m, hm, code, hcode, rfl⟩ := mem_bodies.1 hb
  have hsites := sites_overloaded houtline ⟨c, hc, m, hm, rfl⟩
  rw [hcode, Option.elim_some] at hsites
  simp [bodyOf, hsites] at hr

/-- The name of the second method of `overloaded` `IsUncalled`. -/
private theorem isUncalled_overloaded (hcs : IsProgram cs)
    (hparams : (Location.ofMethod "A" "f" params).IsPlain)
    (hparams' : (Location.ofMethod "A" "f" params').IsPlain) (dispatch : Dispatch)
    (failures : List LoadFailure) (warnings : List Diagnostic) (naming : Naming) :
    IsUncalled (buildLoaded dispatch cs failures warnings) naming
      (naming.name (.ofMethod "A" "f" params')) := by
  refine ⟨⟨_, ?_, rfl, (hasBody_overloaded houtline dispatch failures warnings).2 rfl⟩, fun a ha => ?_⟩
  · exact (mem_declarations_overloaded houtline hcs hparams hparams' dispatch failures warnings).2 (.inr rfl)
  · exact not_calls_overloaded houtline dispatch failures warnings naming a _ ha.1

end

/-- `entryPoints_collect` on `overloaded`, where the method without parameters has code, and so has the least
    declaration of the name. -/
theorem entryPoints_collect_overloaded : ∃ built, build {} (overloaded "(I)V" "()V") = .ok built ∧
    "A.f" ∈ entryPoints (Survey.collect built.store built.bodies .short).funcs
      (Survey.collect built.store built.bodies .short).calls := by
  have hbuild : build {} (overloaded "(I)V" "()V") = .ok _ := build_eq _ _
  have houtline := map_outline_overloaded (.inr ⟨rfl, rfl, rfl, rfl⟩)
  have hcs := isProgram_keptClasses ⟨0, Bytecode.defaultLimit⟩ (overloaded "(I)V" "()V")
  have huncalled := isUncalled_overloaded houtline hcs (by decide) (by decide) .declared
    (loadFailures ⟨0, Bytecode.defaultLimit⟩ (overloaded "(I)V" "()V"))
    (buildWarnings ⟨0, Bytecode.defaultLimit⟩ (overloaded "(I)V" "()V")) .short
  obtain ⟨-, hentry, -⟩ := entryPoints_collect hbuild .short rfl
  refine ⟨_, hbuild, (hentry "A.f" huncalled).2 ⟨.ofMethod "A" "f" [], ⟨?_, fun e he _ => ?_⟩, rfl, ?_⟩⟩
  · exact (mem_declarations_overloaded houtline hcs (by decide) (by decide) _ _ _).2 (.inr rfl)
  · -- of the two declarations the one without parameters is less
    rcases (mem_declarations_overloaded houtline hcs (by decide) (by decide) _ _ _).1 he with rfl | rfl <;>
      decide
  · exact (hasBody_overloaded houtline _ _ _).2 rfl

/-- If the method without parameters has no code, the name is not among the `entryPoints`, although its other
    method has code and nothing calls it. -/
theorem entry_of_overload_missing : ∃ built, build {} (overloaded "()V" "(I)V") = .ok built ∧
    IsUncalled built .short "A.f" ∧
    "A.f" ∉ entryPoints (Survey.collect built.store built.bodies .short).funcs
      (Survey.collect built.store built.bodies .short).calls := by
  have hbuild : build {} (overloaded "()V" "(I)V") = .ok _ := build_eq _ _
  have houtline := map_outline_overloaded (.inl ⟨rfl, rfl, rfl, rfl⟩)
  have hcs := isProgram_keptClasses ⟨0, Bytecode.defaultLimit⟩ (overloaded "()V" "(I)V")
  refine ⟨_, hbuild, isUncalled_overloaded houtline hcs (by decide) (by decide) _ _ _ .short, fun hentry => ?_⟩
  obtain ⟨⟨d, hd, -, hcode⟩, -⟩ :=
    (mem_entryPoints_collect (isMethod_of_mem_declarations hbuild) _ _ _ _).1 hentry
  -- only the greater declaration has code
  obtain rfl := (hasBody_overloaded houtline _ _ _).1 hcode
  have hle := hd.le (.ofMethod "A" "f" [])
    ((mem_declarations_overloaded houtline hcs (by decide) (by decide) _ _ _).2 (.inl rfl)) (by decide)
  exact absurd hle (by decide)

end CallGraph
end CallAtlas
