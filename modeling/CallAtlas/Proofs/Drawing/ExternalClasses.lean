import CallAtlas.Proofs.Drawing.Nodes

/-!
# Classes drawn as external

A class is drawn as external if a call from another class leads to a method with its name that is not declared
(`isLabelled_external_iff`). A class without declared methods can only be drawn because of such a call, as
every method with code shares its name with a declared one (`exists_declaration_short`). But a class with
declared methods is drawn as external too, if another one that it inherits from outside is called.
-/

namespace CallAtlas

/-! ### Names of methods with code -/

/-- The path of a method (`IsMethod`) starts with a slash, and has a parenthesis behind it. -/
theorem Location.IsMethod.exists_path {l : Location} (h : l.IsMethod) :
    ∃ rest, l.path.toList = '/' :: rest ∧ '(' ∈ rest := by
  obtain ⟨owner, name, params, rfl⟩ := h
  simp [ofMethod]

/-- The short name of a method (`IsMethod`) can be read off any text that its path starts. -/
private theorem Location.IsMethod.short_eq {l l' : Location} (h : l.IsMethod) (h' : l'.IsMethod)
    {as bs : List Char}
    (hpath : l.path.toList ++ as = l'.path.toList ++ bs) : Naming.short.name l = Naming.short.name l' := by
  obtain ⟨rest, hrest, hparen⟩ := h.exists_path
  obtain ⟨rest', hrest', hparen'⟩ := h'.exists_path
  rw [hrest, hrest', List.cons_append, List.cons_append] at hpath
  -- the name ends at the parenthesis, whatever stands behind
  have hbefore := congrArg (Text.beforeFirst '(') (List.cons.inj hpath).2
  rw [Text.beforeFirst_append hparen, Text.beforeFirst_append hparen'] at hbefore
  simp [Naming.name, hrest, hrest', Text.dropLeading, hbefore]

/-- The `key` of a pair starts with the scheme and the path of its first part. -/
private theorem Tuple.exists_path_of_key_eq {d d' u u' : Location} (hd : d.IsFixed) (hd' : d'.IsFixed)
    (h : Tuple.key [d, u] = Tuple.key [d', u']) :
    d.scheme = d'.scheme ∧ ∃ as bs, d.path.toList ++ as = d'.path.toList ++ bs := by
  have hchars := congrArg String.toList h
  simp only [toList_key, List.flatMap_cons, Location.toList_text, List.append_assoc, List.cons_append] at hchars
  obtain ⟨hscheme, hrest⟩ := Text.cut_first hd.scheme.1 hd'.scheme.1 hchars
  simp only [List.cons.injEq, true_and] at hrest
  exact ⟨String.toList_inj.1 hscheme, _, _, hrest⟩

namespace CallGraph

open Facts Program

/-- A loaded method shares its short name with one of the `declarations`, even if the key of its own is
    taken. -/
theorem exists_declaration_short {cs : List LoadedClass} (hcs : IsProgram cs) (dispatch : Dispatch)
    (failures : List LoadFailure) (warnings : List Diagnostic) {c : LoadedClass} (hc : c ∈ cs)
    {m : LoadedMethod} (hm : m ∈ c.methods) :
    ∃ d ∈ (buildLoaded dispatch cs failures warnings).store.declarations,
      Naming.short.name d = Naming.short.name m.declaration := by
  have hrecords := records_declarations dispatch cs failures warnings
  have hmethod := hcs.isMethod hc hm
  have hfact : [m.declaration, unitLocation c] ∈ cs.flatMap declarationFacts :=
    List.mem_flatMap.2 ⟨c, hc, mem_declarationFacts.2 (.inr ⟨m, hm, rfl⟩)⟩
  obtain ⟨u, hu, hkey⟩ := hrecords.exists_key _ hfact
  obtain ⟨c', hc', hu'⟩ := List.mem_flatMap.1 (hrecords.subset u hu)
  rcases mem_declarationFacts.1 hu' with rfl | ⟨m', hm', rfl⟩
  · -- a class has another scheme than a method
    obtain ⟨hscheme, -⟩ := Tuple.exists_path_of_key_eq
      (hcs.isFixed_facts (.inl (List.mem_flatMap.2 ⟨c', hc', hu'⟩)) _ List.mem_cons_self) hmethod.isFixed hkey
    have hdeclaration : (classLocation c').isDeclaration = m.declaration.isDeclaration := by
      rw [Location.isDeclaration, hscheme, Location.isDeclaration]
    rw [isDeclaration_classLocation, hmethod.isDeclaration] at hdeclaration
    cases hdeclaration
  · have hmethod' := hcs.isMethod hc' hm'
    obtain ⟨-, as, bs, hpath⟩ := Tuple.exists_path_of_key_eq hmethod'.isFixed hmethod.isFixed hkey
    exact ⟨m'.declaration, Store.mem_declarations.2 ⟨hmethod'.isDeclaration, _, hu, rfl⟩,
      hmethod'.short_eq hmethod hpath⟩

/-- In a survey with short names (`Survey.collect`), every call comes from a method that is shown. -/
private theorem source_mem_names {options : BuildOptions} {entries : List ClassEntry} {built : Built}
    (h : build options entries = .ok built) {c : Call}
    (hc : c ∈ (Survey.collect built.store built.bodies .short).calls) :
    c.source ∈ (Survey.collect built.store built.bodies .short).funcs.map Func.name := by
  obtain ⟨b, hb, -, -, -, -, hsource, -⟩ := calls_collect_iff.1 ⟨c, hc, rfl, rfl⟩
  refine mem_names_funcsOf.2 ?_
  rw [← hsource]
  rw [eq_buildLoaded h] at hb ⊢
  obtain ⟨k, hk, m, hm, code, -, rfl⟩ := mem_bodies.1 hb
  exact exists_declaration_short (isProgram_keptClasses options.limits entries) _ _ _ hk hm

end CallGraph

namespace Drawing

open CallGraph Facts Program

/-! ### Labels of classes -/

/-- The key of a node is among the nodes of the statements. -/
private theorem Statement.mem_nodesOf {k : Key} {as : List Attribute} {ss : List Statement}
    (h : Statement.node k as ∈ ss) : k ∈ Statement.nodes.nodesOf ss := by
  induction ss with
  | nil => exact absurd h List.not_mem_nil
  | cons s ss ih =>
    rw [Statement.nodes.nodesOf, List.mem_append]
    rcases List.mem_cons.1 h with rfl | h
    · exact .inl List.mem_cons_self
    · exact .inr (ih h)

namespace ClassChart

/-- The label of a class, with a line below its name. -/
def label (theme : Theme) (name sub : String) : Attribute :=
  .markup (font [("point-size", "10")] (Text.escaped name) ++ "<br/>"
    ++ font [("point-size", "7"), ("color", theme.externalText)] sub)

/-- The drawing shows the class with this line below its name. -/
def IsLabelled (theme : Theme) (d : Sheet) (name sub : String) : Prop :=
  ∃ as, .node (.named name) as ∈ d.body ∧ label theme name sub ∈ as

/-- A `label` tells the line below the name. -/
private theorem label_inj {theme : Theme} {name sub sub' : String} :
    label theme name sub = label theme name sub' ↔ sub = sub' := by
  simp [label, Attribute.markup, font]

/-- No number of methods reads as `external`: they end in different letters. -/
private theorem methods_ne_external (n : Nat) : s!"{n} methods" ≠ "external" := by
  intro h
  have hlast := congrArg (fun s : String => s.toList.getLast?) h
  have hsub : (toString " methods").toList = " method".toList ++ ['s'] := by decide
  simp [hsub] at hlast

/-- `classNode` has one label, which tells whether the class is drawn as external. -/
theorem exists_classNode (theme : Theme) (isExternal : Bool) (methods most : Nat) (n : String) :
    ∃ rest, classNode theme isExternal methods most n = .node (.named n)
        (label theme n (if isExternal then "external" else s!"{methods} methods") :: rest) ∧
      ∀ a ∈ rest, a.name ≠ "label" := by
  refine ⟨_, rfl, fun a ha => ?_⟩
  rcases List.mem_append.1 ha with hfill | hheight
  · split at hfill
    · obtain rfl := List.mem_singleton.1 hfill
      simp [Attribute.quoted]
    · exact absurd hfill List.not_mem_nil
  · obtain rfl := List.mem_singleton.1 hheight
    simp [Attribute.bare]

/-- A `classNode` has the label of an external class exactly if it is drawn as one. -/
private theorem label_external_mem_classNode {theme : Theme} {isExternal : Bool} {methods most : Nat}
    {n n' : String}
    {as : List Attribute} (h : Statement.node (.named n) as = classNode theme isExternal methods most n') :
    n = n' ∧ (label theme n "external" ∈ as ↔ isExternal = true) := by
  obtain ⟨rest, hnode, hrest⟩ := exists_classNode theme isExternal methods most n'
  obtain ⟨hkey, rfl⟩ := Statement.node.inj (h.trans hnode)
  obtain rfl := Key.named.inj hkey
  -- there is no second label
  have hother : label theme n "external" ∉ rest := fun hmem => hrest _ hmem rfl
  rw [List.mem_cons, or_iff_left hother, label_inj]
  refine ⟨rfl, ?_⟩
  cases isExternal with
  | true => exact iff_of_true rfl rfl
  | false => exact iff_of_false (fun heq => methods_ne_external methods heq.symm) Bool.false_ne_true

/-! ### External classes -/

section
variable {funcs : List Func} {n : String}

/-- `ownerOf` a declared method is the class it was declared in. -/
private theorem exists_ownerOf (hfuncs : (funcs.map Func.name).Nodup) (hn : n ∈ funcs.map Func.name) :
    ∃ f ∈ funcs, f.name = n ∧ ownerOf (ownerTable funcs) n = orUnowned f.owner := by
  obtain ⟨f, hf, rfl⟩ := List.mem_map.1 hn
  have hkeys : ((funcs.map fun f => (f.name, orUnowned f.owner)).map Prod.fst).Nodup := by
    rw [List.map_map]
    exact hfuncs
  have hfound : (ownerTable funcs)[f.name]? = some (orUnowned f.owner) :=
    (getElem?_lastTable_eq_some hkeys).2 (List.mem_map_of_mem hf)
  exact ⟨f, hf, rfl, by rw [ownerOf, Std.HashMap.getD_eq_getD_getElem?, hfound, Option.getD_some]⟩

/-- `ownerTable` has the names of declared methods. -/
theorem contains_ownerTable : (ownerTable funcs).contains n = true ↔ n ∈ funcs.map Func.name := by
  rw [ownerTable, contains_lastTable, List.contains_iff_mem, List.map_map]
  rfl

/-- `ownerOf` any other method is the class in its name (`ownerInName`). -/
theorem ownerOf_of_notMem (hn : n ∉ funcs.map Func.name) :
    ownerOf (ownerTable funcs) n = orUnowned (ownerInName n) :=
  Std.HashMap.getD_eq_fallback_of_contains_eq_false
    (Bool.eq_false_iff.2 fun h => hn (contains_ownerTable.1 h))

end

/-- A call from another class leads to a method that is not declared, but has the name of this class in its
    name. -/
def IsEntered (funcs : List Func) (calls : List Call) (n : String) : Prop :=
  ∃ c ∈ calls, c.target ∉ funcs.map Func.name ∧ orUnowned (ownerInName c.target) = n ∧
    ownerOf (ownerTable funcs) c.source ≠ n

section
variable {funcs : List Func} {calls : List Call} {n : String}

/-- `crossings` are the calls that lead from one class to another. -/
theorem mem_crossings {x : Crossing} : x ∈ crossings funcs calls ↔
    ∃ c ∈ calls, x = ⟨ownerOf (ownerTable funcs) c.source, ownerOf (ownerTable funcs) c.target,
      (ownerTable funcs).contains c.target⟩ ∧ x.source ≠ x.target := by
  simp only [crossings, List.mem_filter, List.mem_map, bne_iff_ne]
  constructor
  · rintro ⟨⟨c, hc, rfl⟩, hne⟩
    exact ⟨c, hc, rfl, hne⟩
  · rintro ⟨c, hc, rfl, hne⟩
    exact ⟨⟨c, hc, rfl⟩, hne⟩

/-- A class `IsEntered` if one of the `crossings` leads to a method of it that is not declared. -/
theorem exists_undeclared_iff :
    (∃ x ∈ crossings funcs calls, x.declared = false ∧ x.target = n) ↔ IsEntered funcs calls n := by
  simp only [mem_crossings]
  constructor
  · rintro ⟨_, ⟨c, hc, rfl, hne⟩, hdeclared, rfl⟩
    -- the table of owners has the declared methods
    have htarget : c.target ∉ funcs.map Func.name :=
      fun hmem => Bool.eq_false_iff.1 hdeclared (contains_ownerTable.2 hmem)
    exact ⟨c, hc, htarget, (ownerOf_of_notMem htarget).symm, hne⟩
  · rintro ⟨c, hc, htarget, hn, hne⟩
    have howner := (ownerOf_of_notMem htarget).trans hn
    exact ⟨_, ⟨c, hc, rfl, fun heq => hne (heq.trans howner)⟩,
      Bool.eq_false_iff.2 fun h => htarget (contains_ownerTable.1 h), howner⟩

/-- The set of external classes that `classDrawing` makes has those that are entered (`IsEntered`). -/
theorem contains_external_iff : (setOf (((crossings funcs calls).filter fun x => !x.declared).map
    Crossing.target)).contains n = true ↔ IsEntered funcs calls n := by
  rw [← exists_undeclared_iff, contains_setOf, List.contains_iff_mem]
  simp [and_assoc]

/-- `ranking` has the classes at either end of a crossing. -/
theorem mem_names_ranking {xs : List Crossing} : n ∈ (ranking xs).map Report.Count.name ↔
    ∃ x ∈ xs, n = x.source ∨ n = x.target := by
  have hperm := (List.mergeSort_perm (Report.tally (xs.flatMap fun x => [x.source, x.target]))
    Report.Count.le).map Report.Count.name
  rw [names_tally] at hperm
  rw [ranking, hperm.mem_iff, mem_distinct]
  simp

/-- Only classes that a call enters or leaves are `drawnClasses`, with or without a limit. -/
private theorem exists_crossing_of_mem {maxNodes : Int} (h : n ∈ drawnClasses maxNodes funcs calls) :
    ∃ x ∈ crossings funcs calls, n = x.source ∨ n = x.target := by
  refine mem_names_ranking.1 ?_
  unfold drawnClasses limitTo at h
  split at h
  · exact ((List.take_sublist _ _).map _).subset h
  · exact h

/-- Without a limit, every class that `IsEntered` is drawn. -/
private theorem IsEntered.mem_drawnClasses (h : IsEntered funcs calls n) : n ∈ drawnClasses 0 funcs calls := by
  obtain ⟨x, hx, -, hn⟩ := exists_undeclared_iff.2 h
  exact mem_names_ranking.2 ⟨x, hx, .inr hn.symm⟩

end

section
variable (theme : Theme) (title : String) (maxNodes : Int) (funcs : List Func) (calls : List Call)

/-- The statements of `classDrawing`: a header, the nodes of `drawnClasses`, and edges. -/
private theorem exists_body_classDrawing : ∃ (methods : String → Nat) (most : Nat) (edges : List Statement),
    (classDrawing theme title maxNodes funcs calls).body =
        graphHeader theme title [.bare "shape" "rect", .quoted "style" "filled,rounded",
          .bare "fontsize" "10", .bare "height" "0.4", .quoted "margin" "0.15,0.08"] ++
        (drawnClasses maxNodes funcs calls).map (fun n => classNode theme
          ((setOf (((crossings funcs calls).filter fun x => !x.declared).map Crossing.target)).contains n)
          (methods n) most n) ++ [.blank] ++ edges ∧
      Statement.nodes.nodesOf edges = [] :=
  ⟨_, _, _, rfl, Statement.nodesOf_map_eq_nil (fun _ => rfl) _⟩

variable {funcs calls} {n : String}

/-- A class is drawn as external (`IsLabelled`) exactly if it `IsEntered` at a method that is not declared. -/
theorem isLabelled_external_iff :
    IsLabelled theme (classDrawing theme title maxNodes funcs calls) n "external" ↔
      n ∈ drawnClasses maxNodes funcs calls ∧ IsEntered funcs calls n := by
  obtain ⟨methods, most, edges, hbody, hedges⟩ := exists_body_classDrawing theme title maxNodes funcs calls
  unfold IsLabelled
  constructor
  · rintro ⟨as, hmem, hlabel⟩
    rw [hbody] at hmem
    simp only [List.mem_append, List.mem_map, List.mem_singleton, reduceCtorEq, or_false] at hmem
    -- neither the header nor the edges have a node, so it is one of the classes
    rcases hmem with (hheader | ⟨n', hn', hnode⟩) | hedge
    · have hnone := Statement.mem_nodesOf hheader
      rw [Statement.nodesOf_graphHeader] at hnone
      exact absurd hnone List.not_mem_nil
    · obtain ⟨rfl, hiff⟩ := label_external_mem_classNode hnode.symm
      exact ⟨hn', contains_external_iff.1 (hiff.1 hlabel)⟩
    · have hnone := Statement.mem_nodesOf hedge
      rw [hedges] at hnone
      exact absurd hnone List.not_mem_nil
  · -- the node of the class has the label of an external one in front
    rintro ⟨hn, hn'⟩
    obtain ⟨rest, hnode, -⟩ := exists_classNode theme true (methods n) most n
    refine ⟨label theme n "external" :: rest, ?_, List.mem_cons_self⟩
    rw [hbody]
    refine List.mem_append_left _ (List.mem_append_left _ (List.mem_append_right _ ?_))
    refine List.mem_map.2 ⟨n, hn, ?_⟩
    rw [contains_external_iff.2 hn', hnode]
    rfl

/-- `classDrawing` has nodes for `drawnClasses`. -/
theorem named_mem_nodes_iff :
    .named n ∈ (classDrawing theme title maxNodes funcs calls).nodes ↔
      n ∈ drawnClasses maxNodes funcs calls := by
  rw [nodes_classDrawing, List.mem_map]
  constructor
  · rintro ⟨n', hn', hkey⟩
    exact Key.named.inj hkey ▸ hn'
  · exact fun hn => ⟨n, hn, rfl⟩

/-- If only declared methods call, a class without any is drawn because it `IsEntered`. -/
private theorem isEntered_of_mem (hfuncs : (funcs.map Func.name).Nodup)
    (hsources : ∀ c ∈ calls, c.source ∈ funcs.map Func.name) (hn : n ∈ drawnClasses maxNodes funcs calls)
    (hnone : ∀ f ∈ funcs, f.owner ≠ n) : IsEntered funcs calls n ∨ n = unowned := by
  have hdeclared {a : String} (ha : a ∈ funcs.map Func.name) (hna : n = ownerOf (ownerTable funcs) a) :
      n = unowned := by
    obtain ⟨f, hf, -, howner⟩ := exists_ownerOf hfuncs ha
    rw [howner, orUnowned] at hna
    split at hna
    · exact hna
    · exact absurd hna.symm (hnone f hf)
  obtain ⟨x, hx, hend⟩ := exists_crossing_of_mem hn
  obtain ⟨c, hc, rfl, hne⟩ := mem_crossings.1 hx
  -- at the source of a call stands a declared method, and so it may at the target
  rcases hend with hsource | htarget
  · exact .inr (hdeclared (hsources c hc) hsource)
  · by_cases hmem : c.target ∈ funcs.map Func.name
    · exact .inr (hdeclared hmem htarget)
    · refine .inl (exists_undeclared_iff.1 ⟨_, hx, ?_, htarget.symm⟩)
      exact Bool.eq_false_iff.2 fun h => hmem (contains_ownerTable.1 h)

end

/-- A class is drawn as external (`IsLabelled`) exactly if a call from another class leads to a method with its
    name that is not declared (`IsEntered`). So no class with declared methods is drawn as external exactly if
    none is entered like this. A class without declared methods is drawn as external, unless it stands for
    having no class (`unowned`). -/
theorem external_classDrawing {options : BuildOptions} {entries : List ClassEntry} {built : Built}
    (h : build options entries = .ok built) (theme : Theme) (title : String) (maxNodes : Int) {s : Survey}
    (hs : s = Survey.collect built.store built.bodies .short) {d : Sheet}
    (hd : d = classDrawing theme title maxNodes s.funcs s.calls) :
    (∀ n, IsLabelled theme d n "external" ↔ .named n ∈ d.nodes ∧ IsEntered s.funcs s.calls n) ∧
    ((∀ n, IsLabelled theme d n "external" → ∀ f ∈ s.funcs, f.owner ≠ n) ↔
      ∀ f ∈ s.funcs, .named f.owner ∈ d.nodes → ¬ IsEntered s.funcs s.calls f.owner) ∧
    ∀ n, .named n ∈ d.nodes → (∀ f ∈ s.funcs, f.owner ≠ n) →
      IsLabelled theme d n "external" ∨ n = unowned := by
  have hsources : ∀ c ∈ s.calls, c.source ∈ s.funcs.map Func.name := by
    intro c hc
    rw [hs] at hc ⊢
    exact source_mem_names h hc
  -- a survey shows each name once
  have hfuncs : (s.funcs.map Func.name).Nodup := by
    rw [hs]
    exact nodup_names_funcsOf _ _ _
  have hlabel : ∀ n, IsLabelled theme d n "external" ↔ .named n ∈ d.nodes ∧ IsEntered s.funcs s.calls n := by
    intro n
    rw [hd, named_mem_nodes_iff]
    exact isLabelled_external_iff theme title maxNodes
  refine ⟨hlabel, ⟨fun hnone f hf hn hentered => ?_, fun hnone n hn f hf howner => ?_⟩, fun n hn hnone => ?_⟩
  · exact hnone f.owner ((hlabel _).2 ⟨hn, hentered⟩) f hf rfl
  · subst howner
    exact hnone f hf ((hlabel _).1 hn).1 ((hlabel _).1 hn).2
  · -- all calls come from declared methods, so that only being entered brings a class without any here
    have hdrawn := hn
    rw [hd, named_mem_nodes_iff] at hdrawn
    exact (isEntered_of_mem maxNodes hfuncs hsources hdrawn hnone).imp_left fun hentered =>
      (hlabel n).2 ⟨hn, hentered⟩

/-! ### A call of an inherited method -/

/-- A class `A` with a method that calls the method `hashCode` of a class, and a class `B` with another
    method. -/
def entering (owner : String) : List ClassEntry :=
  [entryOf "A.class"
    { name := "A"
      methods := [⟨.isStatic, "g", "()V", [.invokeVirtual owner "hashCode" "()I"]⟩] },
   entryOf "B.class" { name := "B", methods := [⟨.isStatic, "f", "()V", []⟩] }]

/-- The call in `entering`. -/
def callOfHash (owner : String) : NamedSite :=
  ⟨⟨0, 0, .virtual, 6, 0⟩, ⟨10, owner, "hashCode", "()I"⟩, []⟩

def outlinesOfEntering (owner : String) : List Outline :=
  [⟨"A", 33, "java/lang/Object", [], "", [loadedMethod 9 "A" "g" [0xb6, 0, 6]
      [⟨0, 0xb6, 3, "invokevirtual", 6, [], [], false⟩] [callOfHash owner]]⟩,
   ⟨"B", 33, "java/lang/Object", [], "", [returning 9 "B" "f"]⟩]

/-- The outlines of the classes in `entering`. -/
private theorem map_outline_entering (owner : String) (howner : owner = "B" ∨ owner = "C") :
    (keptClasses ⟨0, Bytecode.defaultLimit⟩ (entering owner)).map LoadedClass.outline =
      outlinesOfEntering owner := by
  rcases howner with rfl | rfl
  · exact map_outline_keptClasses (by decide) (by decide +kernel) (by decide)
  · exact map_outline_keptClasses (by decide) (by decide +kernel) (by decide)

section
variable {cs : List LoadedClass} {owner : String} (howner : owner = "B" ∨ owner = "C")
  (houtline : cs.map LoadedClass.outline = outlinesOfEntering owner)
include houtline

/-- The names in `entering` are plain (`IsPlain`). -/
private theorem isPlain_entering : ∀ c ∈ cs, c.IsPlain := by
  refine isPlain_of_outlines houtline fun o ho => ?_
  rcases List.mem_pair.1 ho with rfl | rfl
  · refine ⟨show (Location.ofClass "A" false).IsPlain by decide,
      show (Location.ofUnit "A" "").IsPlain by decide, fun m hm => ?_⟩
    obtain rfl := List.mem_singleton.1 hm
    exact show (Location.ofMethod "A" "g" []).IsPlain by decide
  · refine ⟨show (Location.ofClass "B" false).IsPlain by decide,
      show (Location.ofUnit "B" "").IsPlain by decide, fun m hm => ?_⟩
    obtain rfl := List.mem_singleton.1 hm
    exact show (Location.ofMethod "B" "f" []).IsPlain by decide

variable (hcs : IsProgram cs) (dispatch : Dispatch) (failures : List LoadFailure) (warnings : List Diagnostic)
include hcs

/-- The `declarations` of `entering`. -/
private theorem mem_declarations_entering {l : Location} :
    l ∈ (buildLoaded dispatch cs failures warnings).store.declarations ↔
      l = .ofMethod "A" "g" [] ∨ l = .ofMethod "B" "f" [] := by
  have hkeys := hcs.keysApart_facts (isPlain_entering houtline) fun _ _ _ => .inl
  rw [mem_declarations_iff hcs dispatch failures warnings hkeys, exists_method_of_outlines houtline]
  simp [outlinesOfEntering, returning, loadedMethod, eq_comm (a := l)]

/-- The call in `entering` is resolved to the method it names, as no class declares it. -/
private theorem resolveSite_entering : resolveSite (hierarchyOf cs) dispatch (callOfHash owner) =
    ([.ofMethod owner "hashCode" []], false) := by
  refine resolveSite_of_outlines hcs houtline dispatch (s := callOfHash owner) fun o ho => ?_
  rcases List.mem_pair.1 ho with rfl | rfl <;> rfl

/-- The methods of a survey of `entering` and their classes. -/
theorem mem_funcs_entering {built : Built} (hbuilt : built = buildLoaded dispatch cs failures warnings)
    {f : Func} : f ∈ (Survey.collect built.store built.bodies .short).funcs →
      f.name = "A.g" ∧ f.owner = "A" ∨ f.name = "B.f" ∧ f.owner = "B" := by
  intro hf
  obtain ⟨d, hfind, rfl⟩ := mem_funcsOf.1 hf
  have hd := List.mem_of_find?_eq_some hfind
  rw [hbuilt, mem_declarations_entering houtline hcs] at hd
  rcases hd with rfl | rfl
  · exact .inl (show Naming.short.name (.ofMethod "A" "g" []) = "A.g" ∧
      (Location.ofMethod "A" "g" []).ownerName = "A" by decide)
  · exact .inr (show Naming.short.name (.ofMethod "B" "f" []) = "B.f" ∧
      (Location.ofMethod "B" "f" []).ownerName = "B" by decide)

/-- The names of the methods in a survey of `entering`. -/
theorem names_entering {built : Built} (hbuilt : built = buildLoaded dispatch cs failures warnings)
    {n : String} :
    n ∈ (Survey.collect built.store built.bodies .short).funcs.map Func.name ↔ n = "A.g" ∨ n = "B.f" := by
  have hnames : n ∈ (Survey.collect built.store built.bodies .short).funcs.map Func.name ↔
      ∃ d ∈ built.store.declarations, Naming.short.name d = n := mem_names_funcsOf
  rw [hnames, hbuilt]
  simp only [mem_declarations_entering houtline hcs, exists_eq_or_imp, exists_eq_left]
  have hg : Naming.short.name (.ofMethod "A" "g" []) = "A.g" := by decide
  have hf : Naming.short.name (.ofMethod "B" "f" []) = "B.f" := by decide
  rw [hg, hf, eq_comm, eq_comm (a := "B.f")]

/-- A survey of `entering` has the call of `hashCode`. -/
private theorem calls_entering {built : Built} (hbuilt : built = buildLoaded dispatch cs failures warnings) :
    Calls (Survey.collect built.store built.bodies .short).calls "A.g"
      (Naming.short.name (.ofMethod owner "hashCode" [])) := by
  obtain ⟨c, hc, m, hm, rfl⟩ := (exists_method_of_outlines houtline
    (p := fun m => m = loadedMethod 9 "A" "g" [0xb6, 0, 6]
      [⟨0, 0xb6, 3, "invokevirtual", 6, [], [], false⟩] [callOfHash owner])).2
        ⟨_, List.mem_cons_self, _, List.mem_cons_self, rfl⟩
  rw [hbuilt]
  have hsource : Naming.short.name (.ofMethod "A" "g" []) = "A.g" := by decide
  refine calls_collect_iff.2 ⟨_, mem_bodies.2 ⟨c, hc, _, hm, _, rfl, rfl⟩, _, List.mem_cons_self,
    .ofMethod owner "hashCode" [], ?_, hsource, rfl⟩
  show _ ∈ (resolveSite (hierarchyOf cs) dispatch (callOfHash owner)).1
  rw [resolveSite_entering houtline hcs]
  exact List.mem_cons_self

include howner

/-- The class whose method is called in `entering` `IsEntered`. -/
private theorem isEntered_entering {built : Built}
    (hbuilt : built = buildLoaded dispatch cs failures warnings) :
    IsEntered (Survey.collect built.store built.bodies .short).funcs
      (Survey.collect built.store built.bodies .short).calls owner := by
  obtain ⟨c, hc, hsource, htarget⟩ := calls_entering houtline hcs dispatch failures warnings hbuilt
  refine ⟨c, hc, ?_, ?_, ?_⟩
  · rw [names_entering houtline hcs dispatch failures warnings hbuilt, htarget]
    rcases howner with rfl | rfl <;> decide
  · rw [htarget]
    rcases howner with rfl | rfl <;> decide
  · have hnames := names_entering houtline hcs dispatch failures warnings hbuilt (n := c.source)
    have hname := hnames.2 (.inl hsource)
    have hnodup : ((Survey.collect built.store built.bodies .short).funcs.map Func.name).Nodup :=
      nodup_names_funcsOf _ _ _
    obtain ⟨f, hf, hfname, hclass⟩ := exists_ownerOf hnodup hname
    rw [hclass]
    -- the call comes from the method of `A`
    rcases mem_funcs_entering houtline hcs dispatch failures warnings hbuilt hf with ⟨-, hA⟩ | ⟨hB, -⟩
    · rw [hA]
      rcases howner with rfl | rfl <;> decide
    · rw [hfname, hsource] at hB
      exact absurd hB (by decide)

end

/-- `external_classDrawing` on `entering`: a class that is not at hand is drawn as external. -/
theorem external_classDrawing_entering : ∃ built, build {} (entering "C") = .ok built ∧
    (∀ f ∈ (Survey.collect built.store built.bodies .short).funcs, f.owner ≠ "C") ∧
    IsLabelled .standard (classDrawing .standard "" 0 (Survey.collect built.store built.bodies .short).funcs
      (Survey.collect built.store built.bodies .short).calls) "C" "external" := by
  obtain ⟨built, hbuild⟩ : ∃ built, build {} (entering "C") = .ok built := ⟨_, build_eq _ _⟩
  have houtline := map_outline_entering "C" (.inr rfl)
  have hcs := isProgram_keptClasses ⟨0, Bytecode.defaultLimit⟩ (entering "C")
  have hbuilt := eq_buildLoaded hbuild
  obtain ⟨-, -, hexternal⟩ := external_classDrawing hbuild .standard "" 0 rfl rfl
  have hentered := isEntered_entering (.inr rfl) houtline hcs _ _ _ hbuilt
  -- the declared methods are those of `A` and `B`
  have hnone : ∀ f ∈ (Survey.collect built.store built.bodies .short).funcs, f.owner ≠ "C" := by
    intro f hf
    rcases mem_funcs_entering houtline hcs _ _ _ hbuilt hf with ⟨-, h⟩ | ⟨-, h⟩ <;> rw [h] <;> decide
  refine ⟨built, hbuild, hnone, (hexternal "C" ?_ hnone).resolve_right (by decide)⟩
  exact (named_mem_nodes_iff _ _ _).2 hentered.mem_drawnClasses

/-- A class with a declared method is drawn as external too, if a method that it inherits is called, as
    `entering` shows. -/
theorem declared_class_external : ∃ built, build {} (entering "B") = .ok built ∧
    (∃ f ∈ (Survey.collect built.store built.bodies .short).funcs, f.owner = "B") ∧
    IsLabelled .standard (classDrawing .standard "" 0 (Survey.collect built.store built.bodies .short).funcs
      (Survey.collect built.store built.bodies .short).calls) "B" "external" := by
  obtain ⟨built, hbuild⟩ : ∃ built, build {} (entering "B") = .ok built := ⟨_, build_eq _ _⟩
  have houtline := map_outline_entering "B" (.inl rfl)
  have hcs := isProgram_keptClasses ⟨0, Bytecode.defaultLimit⟩ (entering "B")
  have hbuilt := eq_buildLoaded hbuild
  have hentered := isEntered_entering (.inl rfl) houtline hcs _ _ _ hbuilt
  -- the class declares `f`, but `hashCode` is called
  have hname := (names_entering houtline hcs _ _ _ hbuilt).2 (.inr rfl)
  obtain ⟨f, hf, hfname⟩ := List.mem_map.1 hname
  refine ⟨built, hbuild, ⟨f, hf, ?_⟩,
    (isLabelled_external_iff _ _ _).2 ⟨hentered.mem_drawnClasses, hentered⟩⟩
  rcases mem_funcs_entering houtline hcs _ _ _ hbuilt hf with ⟨h, -⟩ | ⟨-, h⟩
  · exact absurd (hfname.symm.trans h) (by decide)
  · exact h

end ClassChart
end Drawing
end CallAtlas
