import CallAtlas.Facts.Store
import CallAtlas.Proofs.Text.Cut

/-!
# Keys of tuples

When two tuples have the same key. The key of a tuple is the text of its locations, each closed by
the character zero. Within one method a call has a key of its own (`key_call_inj`): the position at
the very end tells calls apart, and in front of it only the method called is left. Across methods this
takes that no path holds the character zero (`text_eq_of_key_eq`).
-/

namespace CallAtlas

namespace Location

/-- The character that closes a location in a key. -/
def mark : Char := Char.ofNat 0

/-- The path of the location is free of the character that closes locations in a key. -/
def IsPlain (l : Location) : Prop :=
  mark ∉ l.path.toList

instance (l : Location) : Decidable l.IsPlain :=
  inferInstanceAs (Decidable (mark ∉ l.path.toList))

/-- The text of the position behind a path. -/
def offsetText (offset : Int) : List Char :=
  if 0 ≤ offset then '#' :: Nat.toDigits 10 offset.toNat else []

/-- The characters of `text`: the scheme, the path and the position. -/
theorem toList_text (l : Location) :
    l.text.toList = l.scheme.toList ++ ':' :: ('/' :: '/' :: l.path.toList ++ offsetText l.offset) := by
  -- no position is written for a negative one
  have hoffset : (if 0 ≤ l.offset then s!"#{l.offset}" else "").toList = offsetText l.offset := by
    unfold offsetText
    split
    · rename_i h
      show ("#" ++ toString l.offset).toList = _
      rw [Int.toString_eq_repr, Int.repr_eq_if, if_pos h, String.toList_append, Nat.toList_repr]
      rfl
    · rfl
  simp only [text, String.toList_append, hoffset]
  simp

/-- The text of the calls of a method up to the position. -/
def sitePath (d : Location) : List Char :=
  schemeInvocation.toList ++ ':' :: '/' :: '/' :: d.path.toList

/-- The characters of the `text` of a call end in a position. -/
private theorem toList_text_ofSite (d : Location) {offset line : Int} (h : 0 ≤ offset) :
    (ofSite d offset line).text.toList = sitePath d ++ '#' :: Nat.toDigits 10 offset.toNat := by
  rw [toList_text]
  simp [ofSite, sitePath, offsetText, h]

/-- The digits of a number hold nothing but digits. -/
theorem notMem_toDigits {c : Char} (hc : c.isDigit = false) (n : Nat) : c ∉ Nat.toDigits 10 n := by
  intro hm
  rw [Nat.isDigit_of_mem_toDigits (by decide) (by decide) hm] at hc
  exact Bool.noConfusion hc

/-- Numbers are told apart by their digits. -/
theorem toDigits_inj {m n : Nat} (h : Nat.toDigits 10 m = Nat.toDigits 10 n) : m = n := by
  rw [← Nat.ofDigitChars_toDigits (b := 10) (n := m) (by decide) (by decide), h,
    Nat.ofDigitChars_toDigits (by decide) (by decide)]

/-- The location is that of a declared method. -/
def IsMethod (l : Location) : Prop :=
  ∃ owner name params, l = ofMethod owner name params

theorem isMethod_ofMethod (owner name : String) (params : List String) :
    (ofMethod owner name params).IsMethod :=
  ⟨owner, name, params, rfl⟩

/-- Methods have one of three schemes, no position and no line. -/
theorem IsMethod.fields {l : Location} (h : l.IsMethod) :
    (l.scheme = schemeMethod ∨ l.scheme = schemeConstructor ∨ l.scheme = schemeInitializer) ∧
      l.offset = noOffset ∧ l.line = 0 := by
  obtain ⟨owner, name, params, rfl⟩ := h
  refine ⟨?_, rfl, rfl⟩
  simp only [ofMethod]
  split
  · exact .inr (.inl rfl)
  · split
    · exact .inr (.inr rfl)
    · exact .inl rfl

/-- An `IsMethod` is a declaration. -/
theorem IsMethod.isDeclaration {l : Location} (h : l.IsMethod) : l.isDeclaration = true := by
  obtain ⟨hs | hs | hs, -, -⟩ := h.fields <;> rw [Location.isDeclaration, hs] <;> decide

/-- No scheme of a method holds the characters that cut texts of locations. -/
theorem IsMethod.notMem_scheme {l : Location} (h : l.IsMethod) :
    ':' ∉ l.scheme.toList ∧ mark ∉ l.scheme.toList := by
  obtain ⟨hs | hs | hs, -, -⟩ := h.fields <;> rw [hs] <;> decide

/-- The location is named by its scheme and its path alone, as everything but a call is. -/
structure IsFixed (l : Location) : Prop where
  scheme : ':' ∉ l.scheme.toList ∧ mark ∉ l.scheme.toList
  offset : l.offset = noOffset
  line : l.line = 0

theorem IsMethod.isFixed {l : Location} (h : l.IsMethod) : l.IsFixed :=
  ⟨h.notMem_scheme, h.fields.2.1, h.fields.2.2⟩

/-- `ofClass` is named by its scheme and its path alone. -/
theorem isFixed_ofClass (name : String) (isInterface : Bool) : (ofClass name isInterface).IsFixed := by
  refine ⟨?_, rfl, rfl⟩
  cases isInterface with
  | false =>
    show ':' ∉ schemeClass.toList ∧ mark ∉ schemeClass.toList
    decide
  | true =>
    show ':' ∉ schemeInterface.toList ∧ mark ∉ schemeInterface.toList
    decide

/-- `ofUnit` is named by its scheme and its path alone. -/
theorem isFixed_ofUnit (name source : String) : (ofUnit name source).IsFixed := by
  refine ⟨?_, rfl, rfl⟩
  show ':' ∉ schemeUnit.toList ∧ mark ∉ schemeUnit.toList
  decide

/-- Locations that are `IsFixed` are told apart by their texts. -/
theorem IsFixed.eq_of_text_eq {l l' : Location} (h : l.IsFixed) (h' : l'.IsFixed)
    (htext : l.text = l'.text) : l = l' := by
  have hchars := congrArg String.toList htext
  rw [toList_text, toList_text, h.offset, h'.offset] at hchars
  -- the scheme ends at the first colon, and behind it only the path is left
  obtain ⟨hscheme, hrest⟩ := Text.cut_first h.scheme.1 h'.scheme.1 hchars
  have hpath : l.path.toList = l'.path.toList := by
    simpa using List.append_cancel_right hrest
  have hoffset := h.offset.trans h'.offset.symm
  have hline := h.line.trans h'.line.symm
  obtain ⟨_, _, _, _⟩ := l
  obtain ⟨_, _, _, _⟩ := l'
  simp only [mk.injEq]
  exact ⟨String.toList_inj.1 hscheme, String.toList_inj.1 hpath, hoffset, hline⟩

/-- Methods are told apart by their texts. -/
theorem IsMethod.eq_of_text_eq {l l' : Location} (h : l.IsMethod) (h' : l'.IsMethod)
    (htext : l.text = l'.text) : l = l' :=
  h.isFixed.eq_of_text_eq h'.isFixed htext

/-- A position holds no `mark`. -/
private theorem notMem_offsetText (offset : Int) : mark ∉ offsetText offset := by
  unfold offsetText
  split
  · intro hm
    rcases List.mem_cons.1 hm with h | h
    · exact absurd h (by decide)
    · exact notMem_toDigits (by decide) _ h
  · simp

/-- The `text` of a location has no `mark` if its scheme and its path have none. -/
theorem IsPlain.notMem_text {l : Location} (hscheme : mark ∉ l.scheme.toList) (h : l.IsPlain) :
    mark ∉ l.text.toList := by
  rw [toList_text]
  simp only [List.mem_append, List.mem_cons, not_or]
  exact ⟨hscheme, by decide, ⟨by decide, by decide, h⟩, notMem_offsetText l.offset⟩

end Location

namespace Tuple

open Location (mark)

/-- The characters of a `key`: the texts of the locations, each closed by the `mark`. -/
theorem toList_key (t : Tuple) : t.key.toList = t.flatMap fun l => l.text.toList ++ [mark] := by
  rw [key, String.toList_join, List.flatMap_map]
  congr 1
  funext l
  rw [String.toList_append]
  rfl

/-- In one method, the `key` of a call tells its position and the method called. -/
theorem key_call_inj {d l l' : Location} {offset offset' line line' : Int}
    (ho : 0 ≤ offset) (ho' : 0 ≤ offset')
    (h : key [d, l, .ofSite d offset line] = key [d, l', .ofSite d offset' line']) :
    l.text = l'.text ∧ offset = offset' := by
  have hchars := congrArg String.toList h
  simp only [toList_key, List.flatMap_cons, List.flatMap_nil, List.append_nil, List.append_assoc,
    Location.toList_text_ofSite d ho, Location.toList_text_ofSite d ho'] at hchars
  -- the method that both calls stand in comes first, the closing mark last
  have hcalls := List.append_cancel_left (List.append_cancel_left hchars)
  generalize Location.sitePath d = site at hcalls
  have hcut : (l.text.toList ++ mark :: site) ++ '#' :: Nat.toDigits 10 offset.toNat =
      (l'.text.toList ++ mark :: site) ++ '#' :: Nat.toDigits 10 offset'.toNat := by
    apply (List.append_left_inj [mark]).1
    simpa using hcalls
  obtain ⟨hfront, hdigits⟩ := Text.cut_last (Location.notMem_toDigits (by decide) _)
    (Location.notMem_toDigits (by decide) _) hcut
  refine ⟨String.toList_inj.1 (List.append_cancel_right hfront), ?_⟩
  have := Location.toDigits_inj hdigits
  omega

/-- Where no text holds the `mark`, the `key` of a tuple tells the texts of its locations. -/
theorem text_eq_of_key_eq {t u : Tuple} (ht : ∀ l ∈ t, mark ∉ l.text.toList)
    (hu : ∀ l ∈ u, mark ∉ l.text.toList) (h : t.key = u.key) :
    t.map Location.text = u.map Location.text := by
  have hchars := congrArg String.toList h
  rw [toList_key, toList_key] at hchars
  clear h
  induction t generalizing u with
  | nil =>
    cases u with
    | nil => rfl
    | cons l' u => simp at hchars
  | cons l t ih =>
    cases u with
    | nil => simp at hchars
    | cons l' u =>
      simp only [List.flatMap_cons, List.append_assoc, List.singleton_append] at hchars
      -- the first mark closes the first location
      obtain ⟨htext, hrest⟩ := Text.cut_first (ht l List.mem_cons_self) (hu l' List.mem_cons_self)
        hchars
      have htail := ih (fun x hx => ht x (List.mem_cons_of_mem l hx))
        (fun x hx => hu x (List.mem_cons_of_mem l' hx)) hrest
      rw [List.map_cons, List.map_cons, htail, String.toList_inj.1 htext]

/-- The texts of a call between plain methods have no `mark`. -/
theorem notMem_text_call {d l : Location} (hd : d.IsMethod) (hl : l.IsMethod) (hpd : d.IsPlain)
    (hpl : l.IsPlain) (offset line : Int) :
    ∀ x ∈ [d, l, .ofSite d offset line], mark ∉ x.text.toList := by
  have hscheme : mark ∉ Location.schemeInvocation.toList := by decide
  intro x hx
  simp only [List.mem_cons, List.not_mem_nil, or_false] at hx
  rcases hx with rfl | rfl | rfl
  · exact hpd.notMem_text hd.notMem_scheme.2
  · exact hpl.notMem_text hl.notMem_scheme.2
  · exact Location.IsPlain.notMem_text hscheme hpd

end Tuple
end CallAtlas
