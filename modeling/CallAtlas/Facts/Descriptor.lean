import CallAtlas.Failure
import CallAtlas.Text.Quoted
import CallAtlas.Text.Split

/-!
# Method descriptors

The types of a method's parameters and result as a class file writes them.
-/

namespace CallAtlas

/-- The types of a method, as they are written in source code. -/
structure MethodType where
  params : List String
  result : String
  deriving DecidableEq, Repr

namespace Descriptor

/-- Why a text is not a descriptor. -/
inductive Problem where
  | malformed
  /-- The list of parameters is not closed. -/
  | unclosed
  /-- What follows the parameters is not one type. -/
  | badResult
  deriving DecidableEq, Repr

/-- The wording of a problem with a descriptor. -/
def Problem.message (descriptor : String) : Problem → String
  | .malformed => "facts: malformed descriptor: " ++ Text.quoted descriptor
  | .unclosed => "facts: malformed descriptor: " ++ Text.quoted descriptor ++ ": missing ')'"
  | .badResult => "facts: malformed descriptor: " ++ Text.quoted descriptor ++ ": bad return type"

/-- A problem with a descriptor as it is reported. -/
def Problem.failure (descriptor : String) (p : Problem) : Failure :=
  { kind := .badDescriptor, message := p.message descriptor }

/-- The primitive type with a letter. -/
def primitive? : Char → Option String
  | 'B' => some "byte"
  | 'C' => some "char"
  | 'D' => some "double"
  | 'F' => some "float"
  | 'I' => some "int"
  | 'J' => some "long"
  | 'S' => some "short"
  | 'Z' => some "boolean"
  | _ => none

/-- The name of a class up to a semicolon, and the rest of the text. -/
def className? (cs : List Char) : Option (List Char × List Char) :=
  match Text.fromFirst ';' cs with
  | [] => none
  | _ :: rest =>
    if Text.beforeFirst ';' cs = [] then none
    else some (Text.swapChar '/' '.' (Text.beforeFirst ';' cs), rest)

/-- A type that is no array, at the start of a text, and the rest of the text. -/
def baseType? : List Char → Option (List Char × List Char)
  | [] => none
  | 'L' :: cs => className? cs
  | c :: cs => (primitive? c).map fun s => (s.toList, cs)

/-- The brackets of an array of some depth. -/
def brackets : (depth : Nat) → List Char
  | 0 => []
  | depth + 1 => '[' :: ']' :: brackets depth

/-- A type at the start of a text and the rest of the text. An array has a bracket for every level before the
    type of its items. -/
def fieldType? (cs : List Char) : Option (List Char × List Char) :=
  let depth := (cs.takeWhile (· == '[')).length
  (baseType? (cs.drop depth)).map fun (name, rest) => (name ++ brackets depth, rest)

/-- The name of a class takes its semicolon at least. -/
theorem length_className? {cs t r : List Char} (h : className? cs = some (t, r)) :
    r.length < cs.length := by
  have hs : (Text.fromFirst ';' cs).length ≤ cs.length :=
    (List.dropWhile_sublist _).length_le
  unfold className? at h
  split at h
  · simp at h
  · rename_i rest hx
    rw [hx, List.length_cons] at hs
    split at h
    · simp at h
    · simp only [Option.some.injEq, Prod.mk.injEq] at h
      rw [← h.2]
      omega

/-- Every type that is no array takes at least one character. -/
theorem length_baseType? {cs t r : List Char} (h : baseType? cs = some (t, r)) :
    r.length < cs.length := by
  unfold baseType? at h
  split at h
  · simp at h
  · have := length_className? h
    simp only [List.length_cons]
    omega
  · simp only [Option.map_eq_some_iff, Prod.mk.injEq] at h
    obtain ⟨_, _, _, h⟩ := h
    simp [← h]

/-- Every type takes at least one character. -/
theorem length_fieldType? {cs t r : List Char} (h : fieldType? cs = some (t, r)) :
    r.length < cs.length := by
  unfold fieldType? at h
  simp only [Option.map_eq_some_iff, Prod.mk.injEq] at h
  obtain ⟨⟨_, r'⟩, hb, _, rfl⟩ := h
  have := length_baseType? hb
  rw [List.length_drop] at this
  show r'.length < cs.length
  omega

/-- The parameter types up to the closing bracket, behind those found before, and what follows it. -/
def parameters (before : List String) (cs : List Char) :
    Except Problem (List String × List Char) :=
  match cs with
  | [] => .error .unclosed
  | ')' :: rest => .ok (before.reverse, rest)
  | c :: cs' =>
    match h : fieldType? (c :: cs') with
    | none => .error .malformed
    | some (t, rest) =>
      have := length_fieldType? h
      parameters (String.ofList t :: before) rest
termination_by cs.length
decreasing_by exact this

/-- The type of the result, which is all that is left. -/
def resultType (cs : List Char) : Except Problem String :=
  if cs = ['V'] then .ok "void"
  else match fieldType? cs with
    | some (t, []) => .ok (String.ofList t)
    | _ => .error .badResult

/-- The types that a descriptor describes. -/
def parse (descriptor : String) : Except Problem MethodType :=
  match descriptor.toList with
  | '(' :: a :: b :: cs => do
    let (params, rest) ← parameters [] (a :: b :: cs)
    let result ← resultType rest
    return { params, result }
  | _ => .error .malformed

end Descriptor
end CallAtlas
