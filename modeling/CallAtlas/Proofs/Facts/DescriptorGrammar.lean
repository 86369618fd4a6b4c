import CallAtlas.Facts.Descriptor
import CallAtlas.Proofs.Text.Cut

/-!
# The grammar of method descriptors

A descriptor is the text of a signature: the types of the parameters between brackets, and then that of the
result. The reader takes each of these texts and names the types as source code does (`parse_of_text_eq`), and
it takes no other text (`exists_signature`). No text is that of two signatures (`Signature.text_inj`), as no
type is the beginning of another (`FieldType.text_append_inj`).
-/

namespace CallAtlas.Descriptor

/-! ### Types and their texts -/

inductive Primitive where
  | byte | char | double | float | int | long | short | boolean
  deriving DecidableEq, Repr

namespace Primitive

def letter : Primitive → Char
  | .byte => 'B'
  | .char => 'C'
  | .double => 'D'
  | .float => 'F'
  | .int => 'I'
  | .long => 'J'
  | .short => 'S'
  | .boolean => 'Z'

def name : Primitive → String
  | .byte => "byte"
  | .char => "char"
  | .double => "double"
  | .float => "float"
  | .int => "int"
  | .long => "long"
  | .short => "short"
  | .boolean => "boolean"

end Primitive

/-- The name of a class as descriptors write it, with slashes. A semicolon would end it. -/
@[ext]
structure ClassName where
  chars : List Char
  nonempty : chars ≠ []
  unended : ';' ∉ chars

/-- A class name as source code writes it, with dots for slashes. -/
def dotted (name : List Char) : List Char :=
  name.map fun c => if c = '/' then '.' else c

/-- The type of a parameter or of a result. -/
inductive FieldType where
  | primitive (p : Primitive)
  | object (name : ClassName)
  | array (item : FieldType)

namespace FieldType

/-- The type in a descriptor. -/
def text : FieldType → List Char
  | .primitive p => [p.letter]
  | .object n => 'L' :: n.chars ++ [';']
  | .array t => '[' :: t.text

/-- The type in source code. -/
def source : FieldType → List Char
  | .primitive p => p.name.toList
  | .object n => dotted n.chars
  | .array t => t.source ++ ['[', ']']

end FieldType

/-- The types of a method; without a type the method has no result. -/
@[ext]
structure Signature where
  params : List FieldType
  result : Option FieldType

namespace Signature

def resultText : Option FieldType → List Char
  | none => ['V']
  | some t => t.text

def resultSource : Option FieldType → String
  | none => "void"
  | some t => String.ofList t.source

/-- The descriptor of a signature. -/
def text (s : Signature) : List Char :=
  '(' :: s.params.flatMap FieldType.text ++ ')' :: resultText s.result

/-- The types of a signature in source code. -/
def type (s : Signature) : MethodType :=
  { params := s.params.map fun t => String.ofList t.source, result := resultSource s.result }

end Signature

/-! ### Types that are no arrays -/

/-- The letters that `primitive?` knows are those of the eight `Primitive` types. -/
private theorem exists_primitive {c : Char} {s : String} (h : primitive? c = some s) :
    ∃ p : Primitive, p.letter = c ∧ p.name = s := by
  unfold primitive? at h
  split at h
  · exact ⟨.byte, rfl, Option.some.inj h⟩
  · exact ⟨.char, rfl, Option.some.inj h⟩
  · exact ⟨.double, rfl, Option.some.inj h⟩
  · exact ⟨.float, rfl, Option.some.inj h⟩
  · exact ⟨.int, rfl, Option.some.inj h⟩
  · exact ⟨.long, rfl, Option.some.inj h⟩
  · exact ⟨.short, rfl, Option.some.inj h⟩
  · exact ⟨.boolean, rfl, Option.some.inj h⟩
  · cases h

theorem swapChar_eq_dotted (cs : List Char) : Text.swapChar '/' '.' cs = dotted cs := by
  simp only [Text.swapChar, beq_iff_eq, dotted]

/-- `className?` reads a class name up to its semicolon. -/
private theorem className?_append (n : ClassName) (rest : List Char) :
    className? (n.chars ++ ';' :: rest) = some ((FieldType.object n).source, rest) := by
  rw [className?, Text.fromFirst_append_cons n.unended, Text.beforeFirst_append_cons n.unended]
  simp only [n.nonempty, if_false, swapChar_eq_dotted]
  rfl

/-- What `className?` accepts is a `ClassName` and a semicolon. -/
private theorem exists_className {cs x rest : List Char} (h : className? cs = some (x, rest)) :
    ∃ n : ClassName, cs = n.chars ++ ';' :: rest ∧ x = (FieldType.object n).source := by
  unfold className? at h
  split at h
  · cases h
  · next first hfrom =>
    split at h
    · cases h
    · next hnonempty =>
      -- the name ends at the first semicolon, so that it has none
      obtain ⟨rfl, rfl⟩ := Prod.mk.inj (Option.some.inj h)
      exact ⟨⟨_, hnonempty, Text.notMem_beforeFirst cs⟩, Text.eq_append_of_fromFirst hfrom,
        swapChar_eq_dotted _⟩

/-- `baseType?` reads the letter of a primitive type. -/
private theorem baseType?_primitive (p : Primitive) (rest : List Char) :
    baseType? (p.letter :: rest) = some (p.name.toList, rest) := by
  cases p <;> rfl

/-- What `baseType?` accepts is the text of a type. -/
private theorem exists_baseType {cs x rest : List Char} (h : baseType? cs = some (x, rest)) :
    ∃ t : FieldType, cs = t.text ++ rest ∧ x = t.source := by
  unfold baseType? at h
  split at h
  · cases h
  · next cs =>
    -- behind an `L` stands a class, anything else is one letter
    obtain ⟨n, rfl, rfl⟩ := exists_className h
    exact ⟨.object n, by simp [FieldType.text], rfl⟩
  · next c cs _ =>
    obtain ⟨s, hs, heq⟩ := Option.map_eq_some_iff.1 h
    obtain ⟨rfl, rfl⟩ := Prod.mk.inj heq
    obtain ⟨p, rfl, rfl⟩ := exists_primitive hs
    exact ⟨.primitive p, rfl, rfl⟩

/-! ### Arrays -/

/-- A pair of `brackets` more can be put at the end. -/
private theorem brackets_succ (n : Nat) : brackets (n + 1) = brackets n ++ ['[', ']'] := by
  induction n with
  | zero => rfl
  | succ n ih => exact congrArg (fun bs => '[' :: ']' :: bs) ih

/-- A bracket in front makes `fieldType?` read an array of what follows. -/
private theorem fieldType?_bracket (cs : List Char) :
    fieldType? ('[' :: cs) = (fieldType? cs).map fun p => (p.1 ++ ['[', ']'], p.2) := by
  simp [fieldType?, brackets_succ, Function.comp_def]

/-- Without a bracket in front `fieldType?` reads no array. -/
theorem fieldType?_of_ne {c : Char} (hc : c ≠ '[') (cs : List Char) :
    fieldType? (c :: cs) = baseType? (c :: cs) := by
  simp [fieldType?, hc, brackets]

theorem letter_ne_bracket (p : Primitive) : p.letter ≠ '[' := by
  cases p <;> decide

/-- `fieldType?` reads the text of a type as that type, whatever follows. -/
theorem fieldType?_text_append (t : FieldType) (rest : List Char) :
    fieldType? (t.text ++ rest) = some (t.source, rest) := by
  induction t with
  | primitive p =>
    rw [FieldType.text, List.singleton_append, fieldType?_of_ne (letter_ne_bracket p), baseType?_primitive]
    rfl
  | object n =>
    have htext : (FieldType.object n).text ++ rest = 'L' :: (n.chars ++ ';' :: rest) := by
      simp [FieldType.text]
    rw [htext, fieldType?_of_ne (by decide), baseType?, className?_append]
  | array t ih =>
    -- the reader counts all brackets at once, but one of them can be taken off
    rw [FieldType.text, List.cons_append, fieldType?_bracket, ih]
    rfl

/-- What `fieldType?` accepts is the text of a type. -/
private theorem exists_fieldType {cs x rest : List Char} (h : fieldType? cs = some (x, rest)) :
    ∃ t : FieldType, cs = t.text ++ rest ∧ x = t.source := by
  -- on the characters, since the number of brackets is not known yet
  induction cs generalizing x with
  | nil => cases h
  | cons c cs ih =>
    by_cases hc : c = '['
    · subst hc
      rw [fieldType?_bracket] at h
      obtain ⟨⟨y, r⟩, hy, heq⟩ := Option.map_eq_some_iff.1 h
      obtain ⟨rfl, rfl⟩ := Prod.mk.inj heq
      obtain ⟨t, rfl, rfl⟩ := ih hy
      exact ⟨.array t, rfl, rfl⟩
    · rw [fieldType?_of_ne hc] at h
      exact exists_baseType h

/-- No type stands where `fieldType?` reads none. -/
private theorem text_append_ne {cs : List Char} (h : fieldType? cs = none) (t : FieldType) (rest : List Char) :
    t.text ++ rest ≠ cs := by
  rintro rfl
  rw [fieldType?_text_append] at h
  cases h

/-- The letter of no result is that of no type. -/
theorem text_ne_void (t : FieldType) : t.text ≠ ['V'] := by
  have hne := text_append_ne (by rfl : fieldType? ['V'] = none) t []
  rwa [List.append_nil] at hne

/-! ### Parameters and result -/

private theorem parameters_close (before : List String) (rest : List Char) :
    parameters before (')' :: rest) = .ok (before.reverse, rest) := by
  rw [parameters]

/-- `parameters` reads a type in front off. -/
private theorem parameters_text_append (before : List String) (t : FieldType) (rest : List Char) :
    parameters before (t.text ++ rest) = parameters (String.ofList t.source :: before) rest := by
  have htype := fieldType?_text_append t rest
  -- from here on it only matters that a type is read
  generalize t.text ++ rest = cs at htype
  rw [parameters.eq_def]
  split
  · cases htype
  · cases htype
  · next c cs _ =>
    split
    · next hnone =>
      rw [htype] at hnone
      cases hnone
    · next x r hsome =>
      rw [htype] at hsome
      obtain ⟨rfl, rfl⟩ := Prod.mk.inj (Option.some.inj hsome)
      rfl

/-- `parameters` reads the texts of types up to the closing bracket. -/
private theorem parameters_flatMap (before : List String) (ts : List FieldType) (rest : List Char) :
    parameters before (ts.flatMap FieldType.text ++ ')' :: rest) =
      .ok (before.reverse ++ ts.map (fun t => String.ofList t.source), rest) := by
  induction ts generalizing before with
  | nil => simpa using parameters_close before rest
  | cons t ts ih =>
    rw [List.flatMap_cons, List.append_assoc, parameters_text_append, ih]
    simp

/-- What `parameters` accepts are the texts of types and a closing bracket. -/
private theorem exists_parameters {before ps : List String} {cs rest : List Char}
    (h : parameters before cs = .ok (ps, rest)) :
    ∃ ts : List FieldType, cs = ts.flatMap FieldType.text ++ ')' :: rest ∧
      ps = before.reverse ++ ts.map fun t => String.ofList t.source := by
  fun_induction parameters before cs with
  | case1 => cases h
  | case2 before r =>
    obtain ⟨rfl, rfl⟩ := Prod.mk.inj (Except.ok.inj h)
    exact ⟨[], rfl, by simp⟩
  | case3 => cases h
  | case4 before c cs _ x r htype _ ih =>
    -- a type is read off, and the rest by induction
    obtain ⟨t, heq, rfl⟩ := exists_fieldType htype
    obtain ⟨ts, rfl, rfl⟩ := ih h
    exact ⟨t :: ts, by simp [heq], by simp⟩

/-- `resultType` accepts exactly the text of a result. -/
private theorem resultType_eq_ok_iff {cs : List Char} {s : String} : resultType cs = .ok s ↔
    ∃ r, cs = Signature.resultText r ∧ s = Signature.resultSource r := by
  unfold resultType
  constructor
  · intro h
    split at h
    · next hvoid => exact ⟨none, hvoid, (Except.ok.inj h).symm⟩
    · split at h
      · next x htype =>
        obtain ⟨t, rfl, rfl⟩ := exists_fieldType htype
        exact ⟨some t, List.append_nil _, (Except.ok.inj h).symm⟩
      · cases h
  · rintro ⟨r, rfl, rfl⟩
    cases r with
    | none => rfl
    | some t =>
      -- nothing may follow the type
      have htype := fieldType?_text_append t []
      rw [List.append_nil] at htype
      rw [Signature.resultText, if_neg (text_ne_void t), htype]
      rfl

/-! ### No text is read in two ways -/

private theorem Primitive.letter_inj {p q : Primitive} (h : p.letter = q.letter) : p = q := by
  cases p <;> cases q <;> first | rfl | exact absurd h (by decide)

private theorem letter_ne_object (p : Primitive) : p.letter ≠ 'L' := by
  cases p <;> decide

/-- No type is the beginning of another: its `text` and what follows are told apart. -/
theorem FieldType.text_append_inj {t t' : FieldType} {rest rest' : List Char}
    (h : t.text ++ rest = t'.text ++ rest') : t = t' ∧ rest = rest' := by
  -- the first characters agree, so both types are of one kind
  induction t generalizing t' with
  | primitive p =>
    cases t' with
    | primitive q =>
      obtain ⟨hletter, hrest⟩ := List.cons.inj h
      exact ⟨congrArg _ (Primitive.letter_inj hletter), hrest⟩
    | object m => exact absurd (List.cons.inj h).1 (letter_ne_object p)
    | array t' => exact absurd (List.cons.inj h).1 (letter_ne_bracket p)
  | object n =>
    cases t' with
    | primitive q => exact absurd (List.cons.inj h).1.symm (letter_ne_object q)
    | object m =>
      -- the name of a class ends at its semicolon
      have hcut : n.chars ++ ';' :: rest = m.chars ++ ';' :: rest' := by
        simpa [text] using h
      obtain ⟨hchars, hrest⟩ := Text.cut_first n.unended m.unended hcut
      exact ⟨congrArg _ (ClassName.ext hchars), hrest⟩
    | array t' => exact absurd (List.cons.inj h).1 (by decide)
  | array t ih =>
    cases t' with
    | primitive q => exact absurd (List.cons.inj h).1.symm (letter_ne_bracket q)
    | object m => exact absurd (List.cons.inj h).1 (by decide)
    | array t' =>
      obtain ⟨rfl, hrest⟩ := ih (List.cons.inj h).2
      exact ⟨rfl, hrest⟩

private theorem text_append_ne_close (t : FieldType) (rest rest' : List Char) : t.text ++ rest ≠ ')' :: rest' :=
  text_append_ne (by rfl) t rest

/-- The parameters end at one place only. -/
theorem flatMap_text_inj {ts ts' : List FieldType} {rest rest' : List Char}
    (h : ts.flatMap FieldType.text ++ ')' :: rest = ts'.flatMap FieldType.text ++ ')' :: rest') :
    ts = ts' ∧ rest = rest' := by
  induction ts generalizing ts' with
  | nil =>
    cases ts' with
    | nil => exact ⟨rfl, (List.cons.inj h).2⟩
    | cons t' ts' =>
      rw [List.flatMap_cons, List.append_assoc] at h
      -- no type starts as the parameters end
      exact absurd h.symm (text_append_ne_close t' _ _)
  | cons t ts ih =>
    rw [List.flatMap_cons, List.append_assoc] at h
    cases ts' with
    | nil => exact absurd h (text_append_ne_close t _ _)
    | cons t' ts' =>
      rw [List.flatMap_cons, List.append_assoc] at h
      obtain ⟨rfl, htail⟩ := FieldType.text_append_inj h
      obtain ⟨rfl, hrest⟩ := ih htail
      exact ⟨rfl, hrest⟩

/-- Results are told apart by their texts. -/
private theorem resultText_inj {r r' : Option FieldType}
    (h : Signature.resultText r = Signature.resultText r') : r = r' := by
  cases r with
  | none =>
    cases r' with
    | none => rfl
    | some t' => exact absurd h.symm (text_ne_void t')
  | some t =>
    cases r' with
    | none => exact absurd h (text_ne_void t)
    | some t' =>
      -- `text_append_inj` wants something behind each type, be it nothing
      have happend : t.text ++ [] = t'.text ++ [] := congrArg (· ++ []) h
      exact congrArg some (FieldType.text_append_inj happend).1

/-- No `text` is that of two signatures. -/
theorem Signature.text_inj {s s' : Signature} (h : s.text = s'.text) : s = s' := by
  obtain ⟨hparams, hresult⟩ := flatMap_text_inj (List.cons.inj h).2
  exact Signature.ext hparams (resultText_inj hresult)

/-! ### Descriptors -/

private theorem resultText_ne_nil (r : Option FieldType) : Signature.resultText r ≠ [] := by
  rintro heq
  rcases r with _ | _ | _ | _ <;> cases heq

/-- Every descriptor has three characters at least, so that `parse` refuses none for its length. -/
private theorem exists_three (s : Signature) : ∃ a b cs, s.text = '(' :: a :: b :: cs := by
  obtain ⟨x, xs, hresult⟩ := List.exists_cons_of_ne_nil (resultText_ne_nil s.result)
  unfold Signature.text
  rw [hresult]
  rcases s.params.flatMap FieldType.text with _ | ⟨a, _ | ⟨b, cs⟩⟩
  · exact ⟨_, _, _, rfl⟩
  · exact ⟨_, _, _, rfl⟩
  · exact ⟨_, _, _, rfl⟩

/-- `parse` accepts the text of a signature and names its types. -/
theorem parse_of_text_eq {d : String} {s : Signature} (h : d.toList = s.text) : parse d = .ok s.type := by
  -- a signature has three characters at least, as `parse` wants
  obtain ⟨a, b, cs, hthree⟩ := exists_three s
  have htail : a :: b :: cs = s.params.flatMap FieldType.text ++ ')' :: Signature.resultText s.result :=
    (List.cons.inj (hthree.symm.trans rfl)).2
  have hparams := parameters_flatMap [] s.params (Signature.resultText s.result)
  rw [← htail] at hparams
  have hresult := resultType_eq_ok_iff.2 ⟨s.result, rfl, rfl⟩
  unfold parse
  rw [h, hthree]
  simp only [hparams, bind, Except.bind, hresult]
  rfl

/-- What `parse` accepts is the text of a signature. -/
theorem exists_signature {d : String} {t : MethodType} (h : parse d = .ok t) :
    ∃ s : Signature, d.toList = s.text ∧ t = s.type := by
  unfold parse at h
  split at h
  · next a b cs hd =>
    -- parameters and then a result, and either may be refused
    cases hparams : parameters [] (a :: b :: cs) with
    | error p =>
      rw [hparams] at h
      cases h
    | ok found =>
      obtain ⟨ps, rest⟩ := found
      cases hresult : resultType rest with
      | error p =>
        simp only [hparams, bind, Except.bind, hresult] at h
        cases h
      | ok s =>
        simp only [hparams, bind, Except.bind, hresult] at h
        obtain ⟨ts, htail, rfl⟩ := exists_parameters hparams
        obtain ⟨r, rfl, rfl⟩ := resultType_eq_ok_iff.1 hresult
        obtain rfl := Except.ok.inj h
        exact ⟨⟨ts, r⟩, hd.trans (congrArg _ htail), rfl⟩
  · cases h

/-- `parse` accepts a descriptor exactly if it is the text of a `Signature`, and reads it as that signature.
    What is refused is reported as a bad descriptor, with its text. -/
theorem parse_accepts_grammar (d : String) :
    (∀ t, parse d = .ok t ↔ ∃ s : Signature, d.toList = s.text ∧ t = s.type) ∧
    ∀ p, parse d = .error p → (p.failure d).kind = .badDescriptor ∧
      ∃ detail : String, p.message d = "facts: malformed descriptor: " ++ Text.quoted d ++ detail := by
  refine ⟨fun t => ⟨exists_signature, ?_⟩, fun p _ => ⟨rfl, ?_⟩⟩
  · rintro ⟨s, hs, rfl⟩
    exact parse_of_text_eq hs
  · cases p with
    | malformed => exact ⟨"", (String.append_empty).symm⟩
    | unclosed => exact ⟨_, rfl⟩
    | badResult => exact ⟨_, rfl⟩

/-- `parse_accepts_grammar` where a closing bracket in the name of a class does not end the parameters, and
    where a class lacks a name. -/
theorem parse_accepts_grammar_bracket :
    parse "(ILa)b/C;[[J)V" = .ok ⟨["int", "a)b.C", "long[][]"], "void"⟩ ∧
    (Problem.malformed.failure "(L;)V").kind = .badDescriptor ∧
    ¬ ∃ s : Signature, "(L;)V".toList = s.text := by
  have hrefused : parse "(L;)V" = .error .malformed := by cbv
  refine ⟨((parse_accepts_grammar "(ILa)b/C;[[J)V").1 _).2 ⟨⟨[.primitive .int,
    .object ⟨['a', ')', 'b', '/', 'C'], by decide, by decide⟩, .array (.array (.primitive .long))], none⟩,
    by decide, rfl⟩, ((parse_accepts_grammar "(L;)V").2 _ hrefused).1, ?_⟩
  rintro ⟨s, hs⟩
  have hread := ((parse_accepts_grammar "(L;)V").1 _).2 ⟨s, hs, rfl⟩
  rw [hrefused] at hread
  cases hread

end CallAtlas.Descriptor
