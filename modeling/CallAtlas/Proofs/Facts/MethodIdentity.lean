import CallAtlas.Facts.Naming
import CallAtlas.Proofs.Facts.DescriptorGrammar
import CallAtlas.Proofs.Facts.Key
import CallAtlas.Proofs.Files.Names

/-!
# What the location of a method tells

The path of a method is put together from its class, its name and the parameter types as source code writes
them. Where none of these holds a sign that separates it from the next, the path comes apart again
(`ofMethod_eq_iff`). Types are told apart by their names in source code as long as no class is called like a
primitive type, and no class name holds a sign of the written form (`FieldType.source_inj`). So two methods have
one location exactly if class, name and parameters agree; the type of the result is no part of it.
-/

namespace CallAtlas

namespace Descriptor

/-! ### Types in source code -/

/-- The class in a type; that of an array is the class of its items. -/
def FieldType.className? : FieldType → Option ClassName
  | .primitive _ => none
  | .object n => some n
  | .array t => t.className?

/-- The name holds no sign that has a meaning in the location of a method, and names no primitive type. -/
structure ClassName.IsPlain (n : ClassName) : Prop where
  signs : ∀ c ∈ ['.', ',', '[', ')'], c ∉ n.chars
  notPrimitive : ∀ p : Primitive, n.chars ≠ p.name.toList

/-- The class in the type, if there is one, has a plain name. -/
def FieldType.IsPlain (t : FieldType) : Prop :=
  ∀ n, t.className? = some n → n.IsPlain

/-- The classes among the parameters of a descriptor have plain names. -/
def HasPlainClasses (d : String) : Prop :=
  ∀ s : Signature, d.toList = s.text → ∀ t ∈ s.params, t.IsPlain

/-- The part of a descriptor in front of the bracket that closes the parameters. -/
def paramPart (d : String) : List Char :=
  Text.beforeFirst ')' d.toList

/-- A descriptor is the text of one signature only, so its classes are the ones of that signature. -/
private theorem hasPlainClasses_of_text_eq {d : String} {s : Signature} (hd : d.toList = s.text)
    (hs : ∀ t ∈ s.params, t.IsPlain) : HasPlainClasses d := by
  intro s' hs'
  rwa [Signature.text_inj (hs'.symm.trans hd)]

/-- No type is written as nothing. -/
private theorem FieldType.source_ne_nil (t : FieldType) : t.source ≠ [] := by
  cases t with
  | primitive p => cases p <;> decide
  | object n =>
    rw [source, dotted, ne_eq, List.map_eq_nil_iff]
    exact n.nonempty
  | array t => simp [source]

/-- Primitive types are told apart by their names. -/
private theorem Primitive.name_inj {p q : Primitive} (h : p.name.toList = q.name.toList) : p = q := by
  revert h
  cases p <;> cases q <;> decide

/-- A character that a class name does not hold is not in its `dotted` form either. -/
theorem notMem_dotted {cs : List Char} {c : Char} (hc : c ∉ cs) (hdot : c ≠ '.') : c ∉ dotted cs := by
  intro hmem
  obtain ⟨x, hx, heq⟩ := List.mem_map.1 hmem
  split at heq
  · exact hdot heq.symm
  · exact hc (heq ▸ hx)

/-- The `dotted` form tells a name without dots. -/
private theorem dotted_inj {cs ds : List Char} (hcs : '.' ∉ cs) (hds : '.' ∉ ds) (h : dotted cs = dotted ds) :
    cs = ds := by
  -- the other way round, dots become slashes again
  have hback : ∀ xs : List Char, '.' ∉ xs → ((dotted xs).map fun c => if c = '.' then '/' else c) = xs := by
    intro xs hxs
    rw [dotted, List.map_map]
    refine (List.map_congr_left fun c hc => ?_).trans (List.map_id xs)
    have hne : c ≠ '.' := fun heq => hxs (heq ▸ hc)
    by_cases hslash : c = '/' <;> simp [hslash, hne]
  rw [← hback cs hcs, h, hback ds hds]

/-- The names of primitive types hold none of the signs that separate. -/
theorem notMem_primitive_name (p : Primitive) : ∀ c ∈ ['.', ',', '['], c ∉ p.name.toList := by
  have hsigns : '.' ∉ p.name.toList ∧ ',' ∉ p.name.toList ∧ '[' ∉ p.name.toList := by
    cases p <;> decide
  simpa using hsigns

private theorem dotted_primitive_name (p : Primitive) : dotted p.name.toList = p.name.toList := by
  cases p <;> decide

/-- A class with an `IsPlain` name is not written like a primitive type. -/
private theorem ClassName.IsPlain.source_ne_primitive {n : ClassName} (h : n.IsPlain) (p : Primitive) :
    (FieldType.object n).source ≠ (FieldType.primitive p).source := by
  intro heq
  have hname := notMem_primitive_name p '.' (by decide)
  exact h.notPrimitive p (dotted_inj (h.signs '.' (by decide)) hname
    (heq.trans (dotted_primitive_name p).symm))

private theorem bracket_mem_array_source (t : FieldType) : '[' ∈ (FieldType.array t).source := by
  simp [FieldType.source]

/-- A primitive type is not written like an array. -/
theorem Primitive.source_ne_array (p : Primitive) (t : FieldType) :
    (FieldType.primitive p).source ≠ (FieldType.array t).source := by
  intro heq
  have hmem := bracket_mem_array_source t
  rw [← heq] at hmem
  exact notMem_primitive_name p '[' (by decide) hmem

/-- A class with an `IsPlain` name is not written like an array. -/
theorem ClassName.IsPlain.source_ne_array {n : ClassName} (h : n.IsPlain) (t : FieldType) :
    (FieldType.object n).source ≠ (FieldType.array t).source := by
  intro heq
  have hmem := bracket_mem_array_source t
  rw [← heq] at hmem
  exact notMem_dotted (h.signs '[' (by decide)) (by decide) hmem

/-- `IsPlain` types are told apart by how source code writes them. -/
theorem FieldType.source_inj {t t' : FieldType} (ht : t.IsPlain) (ht' : t'.IsPlain)
    (h : t.source = t'.source) : t = t' := by
  -- by the form of both types: different forms are never written alike
  induction t generalizing t' with
  | primitive p =>
    cases t' with
    | primitive q => exact congrArg _ (Primitive.name_inj h)
    | object m => exact absurd h.symm ((ht' m rfl).source_ne_primitive p)
    | array t' => exact absurd h (p.source_ne_array t')
  | object n =>
    have hn := ht n rfl
    cases t' with
    | primitive q => exact absurd h (hn.source_ne_primitive q)
    | object m =>
      have hm := ht' m rfl
      exact congrArg _ (ClassName.ext (dotted_inj (hn.signs '.' (by decide))
        (hm.signs '.' (by decide)) h))
    | array t' => exact absurd h (hn.source_ne_array t')
  | array t ih =>
    -- an array ends in brackets, which no other type does
    cases t' with
    | primitive q => exact absurd h.symm (q.source_ne_array t)
    | object m => exact absurd h.symm ((ht' m rfl).source_ne_array t)
    | array t' => exact congrArg _ (ih ht ht' (List.append_cancel_right h))

/-- An `IsPlain` type is written without commas. -/
private theorem FieldType.IsPlain.comma_notMem_source {t : FieldType} (h : t.IsPlain) : ',' ∉ t.source := by
  induction t with
  | primitive p => exact notMem_primitive_name p ',' (by decide)
  | object n => exact notMem_dotted ((h n rfl).signs ',' (by decide)) (by decide)
  | array t ih =>
    rw [source, List.mem_append, not_or]
    exact ⟨ih h, by decide⟩

/-! ### Parameters -/

/-- The parameter types as they stand in a location, as characters. -/
private theorem toList_intercalate_source (ts : List FieldType) :
    (",".intercalate (ts.map fun t => String.ofList t.source)).toList =
      [','].intercalate (ts.map FieldType.source) := by
  rw [String.toList_intercalate, List.map_map]
  simp [Function.comp_def]

/-- Lists of `IsPlain` types are told apart type by type. -/
private theorem map_source_inj {ts ts' : List FieldType} (hts : ∀ t ∈ ts, t.IsPlain)
    (hts' : ∀ t ∈ ts', t.IsPlain) (h : ts.map FieldType.source = ts'.map FieldType.source) : ts = ts' := by
  induction ts generalizing ts' with
  | nil => exact (List.map_eq_nil_iff.1 h.symm).symm
  | cons t ts ih =>
    obtain ⟨t', rest, rfl, hhead, hrest⟩ := List.map_eq_cons_iff.1 h.symm
    obtain ⟨ht, hts⟩ := List.forall_mem_cons.1 hts
    obtain ⟨ht', hrest'⟩ := List.forall_mem_cons.1 hts'
    rw [FieldType.source_inj ht ht' hhead.symm, ih hts hrest' hrest.symm]

/-- `IsPlain` parameter types are told apart in a location. -/
private theorem intercalate_source_inj {ts ts' : List FieldType} (hts : ∀ t ∈ ts, t.IsPlain)
    (hts' : ∀ t ∈ ts', t.IsPlain)
    (h : ",".intercalate (ts.map fun t => String.ofList t.source) =
      ",".intercalate (ts'.map fun t => String.ofList t.source)) : ts = ts' := by
  -- no type is empty or holds a comma, so the list comes apart at the commas
  have hparts : ∀ us : List FieldType, (∀ t ∈ us, t.IsPlain) →
      ∀ x ∈ us.map FieldType.source, ',' ∉ x ∧ x ≠ [] := by
    intro us hus x hx
    obtain ⟨t, ht, rfl⟩ := List.mem_map.1 hx
    exact ⟨(hus t ht).comma_notMem_source, t.source_ne_nil⟩
  have hchars := congrArg String.toList h
  rw [toList_intercalate_source, toList_intercalate_source] at hchars
  exact map_source_inj hts hts' (Text.intercalate_inj (hparts ts hts) (hparts ts' hts') hchars)

/-- An `IsPlain` type has no closing bracket. -/
private theorem FieldType.IsPlain.close_notMem_text {t : FieldType} (h : t.IsPlain) : ')' ∉ t.text := by
  induction t with
  | primitive p => cases p <;> decide
  | object n =>
    have hn := (h n rfl).signs ')' (by decide)
    simp [text, hn]
  | array t ih =>
    rw [text, List.mem_cons, not_or]
    exact ⟨by decide, ih h⟩

/-- `paramPart` is that of the parameters, if their classes are `IsPlain`. -/
private theorem paramPart_eq {d : String} {s : Signature} (hd : d.toList = s.text)
    (hs : ∀ t ∈ s.params, t.IsPlain) : paramPart d = '(' :: s.params.flatMap FieldType.text := by
  have hclose : ')' ∉ '(' :: s.params.flatMap FieldType.text := by
    intro hmem
    rcases List.mem_cons.1 hmem with hopen | hmem
    · exact absurd hopen (by decide)
    · obtain ⟨t, ht, hmem⟩ := List.mem_flatMap.1 hmem
      exact (hs t ht).close_notMem_text hmem
  rw [paramPart, hd]
  exact Text.beforeFirst_append_cons hclose _

/-- `paramPart` tells the parameters of a descriptor. -/
private theorem paramPart_eq_iff {d d' : String} {s s' : Signature} (hd : d.toList = s.text)
    (hd' : d'.toList = s'.text) (hs : ∀ t ∈ s.params, t.IsPlain) (hs' : ∀ t ∈ s'.params, t.IsPlain) :
    paramPart d = paramPart d' ↔ s.params = s'.params := by
  rw [paramPart_eq hd hs, paramPart_eq hd' hs']
  constructor
  · intro h
    -- with the bracket behind them it is clear where the parameters end
    have hclosed := congrArg (· ++ [')']) (List.cons.inj h).2
    exact (flatMap_text_inj hclosed).1
  · intro h
    rw [h]

end Descriptor

namespace Location

/-! ### Paths of methods -/

/-- What a method is called in its location. -/
def memberName (owner name : String) : String :=
  if name = "<init>" then simpleName owner else name

/-- The characters of the path of `ofMethod`: the class, the name, and the parameters between brackets. -/
theorem toList_path_ofMethod (owner name : String) (params : List String) :
    (ofMethod owner name params).path.toList =
      ('/' :: owner.toList ++ '/' :: (memberName owner name).toList) ++
        '(' :: ((",".intercalate params).toList ++ [')']) := by
  simp [ofMethod, memberName]

/-- The `simpleName` of a class holds no slash, and nothing that is not in the name of the class. -/
theorem notMem_simpleName (owner : String) {c : Char} (h : c = '/' ∨ c ∉ owner.toList) :
    c ∉ (simpleName owner).toList := by
  have hbase : c ∉ Text.afterLast '/' owner.toList := by
    rcases h with rfl | h
    · exact Text.notMem_afterLast _
    · exact fun hmem => h (Text.mem_of_mem_afterLast hmem)
  simp only [simpleName]
  -- without a dollar sign it is the last part of the name, with one it is what stands behind
  split
  · rwa [String.toList_ofList]
  · rw [String.toList_ofList]
    exact fun hmem => hbase (Text.mem_of_mem_afterLast hmem)

/-- `memberName` holds no slash, and nothing that is neither in the class nor in the name. -/
theorem notMem_memberName {owner name : String} {c : Char} (howner : c = '/' ∨ c ∉ owner.toList)
    (hname : c ∉ name.toList) : c ∉ (memberName owner name).toList := by
  unfold memberName
  split
  · exact notMem_simpleName owner howner
  · exact hname

/-- The scheme and the name in the path tell the name of a method of a class. -/
private theorem name_eq_of_scheme_eq {owner name name' : String} {params params' : List String}
    (hscheme : (ofMethod owner name params).scheme = (ofMethod owner name' params').scheme)
    (hmember : memberName owner name = memberName owner name') : name = name' := by
  simp only [ofMethod, memberName] at hscheme hmember
  -- constructors have a scheme of their own, so both methods are constructors or neither is
  by_cases hinit : name = "<init>"
  · by_cases hinit' : name' = "<init>"
    · exact hinit.trans hinit'.symm
    · rw [if_pos hinit, if_neg hinit'] at hscheme
      split at hscheme
      · exact absurd hscheme (by decide)
      · exact absurd hscheme (by decide)
  · by_cases hinit' : name' = "<init>"
    · rw [if_neg hinit, if_pos hinit'] at hscheme
      split at hscheme
      · exact absurd hscheme (by decide)
      · exact absurd hscheme (by decide)
    · rwa [if_neg hinit, if_neg hinit'] at hmember

/-- The location of a method tells its class once its name and its parameters are known: `memberName` is the
    same in both classes, or it is the `simpleName` of the class, which holds no slash. -/
theorem owner_eq_of_ofMethod_eq {owner owner' name : String} {params : List String}
    (h : ofMethod owner name params = ofMethod owner' name params) : owner = owner' := by
  have hpath := congrArg (fun l => l.path.toList) h
  simp only [toList_path_ofMethod] at hpath
  have hfront := List.append_cancel_right hpath
  by_cases hinit : name = "<init>"
  · simp only [memberName, if_pos hinit] at hfront
    -- both constructors are named after their classes, behind the last slash
    obtain ⟨hclass, -⟩ := Text.cut_last (notMem_simpleName owner (.inl rfl))
      (notMem_simpleName owner' (.inl rfl)) hfront
    exact String.toList_inj.1 (List.cons.inj hclass).2
  · simp only [memberName, if_neg hinit] at hfront
    exact String.toList_inj.1 (List.cons.inj (List.append_cancel_right hfront)).2

section
variable {owner owner' name name' : String} (howner : '(' ∉ owner.toList) (howner' : '(' ∉ owner'.toList)
  (hname : '/' ∉ name.toList ∧ '(' ∉ name.toList) (hname' : '/' ∉ name'.toList ∧ '(' ∉ name'.toList)
include howner hname

/-- Class and name hold no bracket, so that the parameters begin at the first one. -/
theorem open_notMem_path_ofMethod :
    '(' ∉ '/' :: owner.toList ++ '/' :: (memberName owner name).toList := by
  have hmember := notMem_memberName (.inr howner) hname.2
  simp [howner, hmember]

/-- The class of a method can be read off its location by `owner`. -/
theorem owner_ofMethod (params : List String) : (ofMethod owner name params).owner = "/" ++ owner := by
  have hdeclaration := (isMethod_ofMethod owner name params).isDeclaration
  have hmember : '/' ∉ (memberName owner name).toList := notMem_memberName (.inl rfl) hname.1
  rw [Location.owner, hdeclaration, Bool.true_or, if_pos rfl, toList_path_ofMethod,
    Text.beforeFirst_append_cons (open_notMem_path_ofMethod howner hname),
    Text.beforeLast_append_cons _ hmember]
  simp

include howner' hname'

/-- `ofMethod` gives methods one location exactly if their classes, names and lists of parameters agree. -/
theorem ofMethod_eq_iff {params params' : List String} :
    ofMethod owner name params = ofMethod owner' name' params' ↔
      owner = owner' ∧ name = name' ∧ ",".intercalate params = ",".intercalate params' := by
  constructor
  · intro h
    have hpath := congrArg (fun l => l.path.toList) h
    simp only [toList_path_ofMethod] at hpath
    -- the parameters begin at the first bracket, and the name in front of it at the last slash
    obtain ⟨hfront, hparams⟩ := Text.cut_first (open_notMem_path_ofMethod howner hname)
      (open_notMem_path_ofMethod howner' hname') hpath
    obtain ⟨hclass, hmember⟩ := Text.cut_last (notMem_memberName (.inl rfl) hname.1)
      (notMem_memberName (.inl rfl) hname'.1) hfront
    obtain rfl := String.toList_inj.1 (List.cons.inj hclass).2
    refine ⟨rfl, name_eq_of_scheme_eq (congrArg scheme h) (String.toList_inj.1 hmember), ?_⟩
    exact String.toList_inj.1 (List.append_cancel_right hparams)
  · rintro ⟨rfl, rfl, hparams⟩
    simp only [ofMethod, hparams]

end

open Descriptor (HasPlainClasses paramPart)

/-- `ofMethod` tells the class, the name and the parameters of a method: locations are equal exactly if these
    are, `owner` gives the class back, and different locations have different names in `Naming.uri`. -/
theorem ofMethod_identifies {owner owner' name name' d d' : String} {t t' : MethodType}
    (howner : '(' ∉ owner.toList) (howner' : '(' ∉ owner'.toList)
    (hname : '/' ∉ name.toList ∧ '(' ∉ name.toList) (hname' : '/' ∉ name'.toList ∧ '(' ∉ name'.toList)
    (ht : Descriptor.parse d = .ok t) (ht' : Descriptor.parse d' = .ok t')
    (hd : HasPlainClasses d) (hd' : HasPlainClasses d') :
    (ofMethod owner name t.params = ofMethod owner' name' t'.params ↔
      owner = owner' ∧ name = name' ∧ paramPart d = paramPart d') ∧
    (ofMethod owner name t.params).owner = "/" ++ owner ∧
    (ofMethod owner name t.params ≠ ofMethod owner' name' t'.params →
      Naming.uri.name (ofMethod owner name t.params) ≠ Naming.uri.name (ofMethod owner' name' t'.params)) := by
  -- what the descriptors stand for, so that parameters are types and no texts
  obtain ⟨s, hs, rfl⟩ := Descriptor.exists_signature ht
  obtain ⟨s', hs', rfl⟩ := Descriptor.exists_signature ht'
  have hplain := hd s hs
  have hplain' := hd' s' hs'
  refine ⟨?_, owner_ofMethod howner hname _, fun hne htext => hne ?_⟩
  · rw [ofMethod_eq_iff howner howner' hname hname', Descriptor.paramPart_eq_iff hs hs' hplain hplain']
    refine and_congr_right fun _ => and_congr_right fun _ => ⟨?_, fun hparams => ?_⟩
    · exact Descriptor.intercalate_source_inj hplain hplain'
    · rw [Descriptor.Signature.type, hparams]
      rfl
  · exact (isMethod_ofMethod _ _ _).eq_of_text_eq (isMethod_ofMethod _ _ _) htext

/-- A number and an array of objects, and no result. -/
def numberAndObjects : Descriptor.Signature :=
  ⟨[.primitive .int, .array (.object ⟨['q', '/', 'C'], by decide, by decide⟩)], none⟩

/-- `ofMethod_identifies` on a constructor and a method that is called like its class: they have the same path
    but not the same location. -/
theorem ofMethod_identifies_constructor :
    (ofMethod "p/A$B" "<init>" ["int", "q.C[]"]).path = (ofMethod "p/A$B" "B" ["int", "q.C[]"]).path ∧
    ofMethod "p/A$B" "<init>" ["int", "q.C[]"] ≠ ofMethod "p/A$B" "B" ["int", "q.C[]"] ∧
    (ofMethod "p/A$B" "<init>" ["int", "q.C[]"]).owner = "/p/A$B" ∧
    Naming.uri.name (ofMethod "p/A$B" "<init>" ["int", "q.C[]"]) ≠
      Naming.uri.name (ofMethod "p/A$B" "B" ["int", "q.C[]"]) := by
  have htext : "(I[Lq/C;)V".toList = numberAndObjects.text := by decide
  have hparse : Descriptor.parse "(I[Lq/C;)V" = .ok ⟨["int", "q.C[]"], "void"⟩ :=
    Descriptor.parse_of_text_eq htext
  have hplain : HasPlainClasses "(I[Lq/C;)V" := by
    refine Descriptor.hasPlainClasses_of_text_eq htext
      (List.forall_mem_cons.2 ⟨?_, List.forall_mem_singleton.2 ?_⟩)
    · intro n hn
      cases hn
    · intro n hn
      obtain rfl := Option.some.inj hn
      exact ⟨by simp, fun p => by cases p <;> decide⟩
  have hclass : '(' ∉ "p/A$B".toList := by decide
  have hinit : '/' ∉ "<init>".toList ∧ '(' ∉ "<init>".toList := by decide
  have hname : '/' ∉ "B".toList ∧ '(' ∉ "B".toList := by decide
  obtain ⟨hiff, howner, huri⟩ :=
    ofMethod_identifies hclass hclass hinit hname hparse hparse hplain hplain
  -- the names differ, though both are written as `B`
  have hne := mt hiff.1 (by decide)
  exact ⟨by decide +kernel, hne, howner, huri hne⟩

end Location
end CallAtlas
