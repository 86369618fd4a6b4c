import CallAtlas.ClassFile.Pool
import CallAtlas.Proofs.Result

/-!
# Lookups in a pool

What it takes for a lookup to succeed, in terms of the constants at its indices. Lookups that succeed keep
their values when constants are added behind the others (`Pool.Extends`).
-/

namespace CallAtlas.ClassFile.Pool

variable {p q : Pool} {i : Nat}

/-- `text` succeeds exactly on a text constant. -/
theorem text_eq_ok {s : String} : p.text i = .ok s ↔ p.get i = .ok (.utf8 s) := by
  unfold text
  rw [Result.bind_eq_ok]
  constructor
  · rintro ⟨c, hc, h⟩
    cases c with
    -- every other constant makes the lookup fail
    | utf8 t => rw [hc, Except.ok.inj h]
    | _ => exact nomatch h
  · exact fun h => ⟨_, h, rfl⟩

/-- `className` succeeds exactly on a class constant whose index leads to a text. -/
theorem className_eq_ok {s : String} :
    p.className i = .ok s ↔ ∃ n, p.get i = .ok (.classInfo n) ∧ p.text n = .ok s := by
  unfold className
  rw [Result.bind_eq_ok]
  constructor
  · rintro ⟨c, hc, h⟩
    -- all other constants are refused
    cases c with
    | classInfo n => exact ⟨n, hc, h⟩
    | _ => exact nomatch h
  · rintro ⟨n, hn, h⟩
    exact ⟨_, hn, h⟩

/-- `nameAndType` succeeds exactly on a constant whose two indices lead to texts. -/
theorem nameAndType_eq_ok {name descriptor : String} :
    p.nameAndType i = .ok (name, descriptor) ↔
      ∃ n d, p.get i = .ok (.nameAndType n d) ∧ p.text n = .ok name ∧ p.text d = .ok descriptor := by
  unfold nameAndType
  rw [Result.bind_eq_ok]
  constructor
  · rintro ⟨c, hc, h⟩
    cases c with
    | nameAndType n d =>
      -- both texts have been looked up, the name first
      obtain ⟨s, hs, h⟩ := Result.bind_eq_ok.1 h
      obtain ⟨t, ht, h⟩ := Result.bind_eq_ok.1 h
      obtain ⟨rfl, rfl⟩ := Prod.mk.inj (Result.pure_eq_ok.1 h)
      exact ⟨n, d, hc, hs, ht⟩
    | _ => exact nomatch h
  · rintro ⟨n, d, hnd, hn, hd⟩
    refine ⟨_, hnd, ?_⟩
    simp only [hn, hd]
    rfl

/-- `member` succeeds exactly if the owner is a class and the rest a name with its descriptor. -/
theorem member_eq_ok {tag owner nameAndType : Nat} {r : MemberRef} :
    p.member tag owner nameAndType = .ok r ↔ r.tag = tag ∧ p.className owner = .ok r.owner ∧
      p.nameAndType nameAndType = .ok (r.name, r.descriptor) := by
  unfold member
  rw [Result.bind_eq_ok]
  constructor
  · rintro ⟨o, ho, h⟩
    obtain ⟨⟨n, d⟩, hnd, h⟩ := Result.bind_eq_ok.1 h
    obtain rfl := Result.pure_eq_ok.1 h
    exact ⟨rfl, ho, hnd⟩
  · rintro ⟨rfl, ho, hnd⟩
    refine ⟨_, ho, ?_⟩
    rw [Result.bind_eq_ok]
    exact ⟨_, hnd, rfl⟩

/-- `methodRef` succeeds exactly on the constant of a method, of a class or of an interface. -/
theorem methodRef_eq_ok {r : MemberRef} :
    p.methodRef i = .ok r ↔ ∃ o t, (p.get i = .ok (.methodRef o t) ∧ p.member 10 o t = .ok r) ∨
      (p.get i = .ok (.interfaceMethodRef o t) ∧ p.member 11 o t = .ok r) := by
  unfold methodRef
  rw [Result.bind_eq_ok]
  constructor
  · rintro ⟨c, hc, h⟩
    -- the two kinds of constants that stand for methods keep their tags apart
    cases c with
    | methodRef o t => exact ⟨o, t, .inl ⟨hc, h⟩⟩
    | interfaceMethodRef o t => exact ⟨o, t, .inr ⟨hc, h⟩⟩
    | _ => exact nomatch h
  · rintro ⟨o, t, ⟨hc, h⟩ | ⟨hc, h⟩⟩
    · exact ⟨_, hc, h⟩
    · exact ⟨_, hc, h⟩

/-- `memberRef` succeeds exactly on the constant of a field or of a method. -/
theorem memberRef_eq_ok {r : MemberRef} :
    p.memberRef i = .ok r ↔ ∃ o t, (p.get i = .ok (.fieldRef o t) ∧ p.member 9 o t = .ok r) ∨
      (p.get i = .ok (.methodRef o t) ∧ p.member 10 o t = .ok r) ∨
      (p.get i = .ok (.interfaceMethodRef o t) ∧ p.member 11 o t = .ok r) := by
  unfold memberRef
  rw [Result.bind_eq_ok]
  constructor
  · rintro ⟨c, hc, h⟩
    -- as for methods, with fields as a third kind
    cases c with
    | fieldRef o t => exact ⟨o, t, .inl ⟨hc, h⟩⟩
    | methodRef o t => exact ⟨o, t, .inr (.inl ⟨hc, h⟩)⟩
    | interfaceMethodRef o t => exact ⟨o, t, .inr (.inr ⟨hc, h⟩)⟩
    | _ => exact nomatch h
  · rintro ⟨o, t, ⟨hc, h⟩ | ⟨hc, h⟩ | ⟨hc, h⟩⟩
    · exact ⟨_, hc, h⟩
    · exact ⟨_, hc, h⟩
    · exact ⟨_, hc, h⟩

/-- `methodHandle` succeeds exactly on a handle whose index leads to a member. -/
theorem methodHandle_eq_ok {h : MethodHandle} :
    p.methodHandle i = .ok h ↔
      ∃ r, p.get i = .ok (.methodHandle h.kind r) ∧ p.memberRef r = .ok h.ref := by
  unfold methodHandle
  rw [Result.bind_eq_ok]
  constructor
  · rintro ⟨c, hc, hc'⟩
    cases c with
    | methodHandle k r =>
      -- the kind is taken over, only the member is looked up
      obtain ⟨m, hm, hc'⟩ := Result.bind_eq_ok.1 hc'
      obtain rfl := Result.pure_eq_ok.1 hc'
      exact ⟨r, hc, hm⟩
    | _ => exact nomatch hc'
  · rintro ⟨r, hc, hr⟩
    refine ⟨_, hc, ?_⟩
    simp only [hr]
    rfl

/-- `invokeDynamic` succeeds exactly on a dynamic call whose index leads to a name with its descriptor. -/
theorem invokeDynamic_eq_ok {b : Nat} {name descriptor : String} :
    p.invokeDynamic i = .ok (b, name, descriptor) ↔
      ∃ t, p.get i = .ok (.invokeDynamic b t) ∧ p.nameAndType t = .ok (name, descriptor) := by
  unfold invokeDynamic
  rw [Result.bind_eq_ok]
  constructor
  · rintro ⟨c, hc, h⟩
    cases c with
    | invokeDynamic b' t =>
      -- the bootstrap method is not looked up here
      obtain ⟨nd, hnd, h⟩ := Result.bind_eq_ok.1 h
      obtain ⟨rfl, rfl⟩ := Prod.mk.inj (Result.pure_eq_ok.1 h)
      exact ⟨t, hc, hnd⟩
    | _ => exact nomatch h
  · rintro ⟨t, hc, ht⟩
    refine ⟨_, hc, ?_⟩
    simp only [ht]
    rfl

/-- `get` succeeds only below the size of the pool. -/
theorem lt_size_of_get {c : Constant} (h : p.get i = .ok c) : i < p.size := by
  unfold get at h
  split at h
  · exact nomatch h
  · cases hi : p.entries[i]? with
    | none => rw [hi] at h; exact nomatch h
    | some c => exact (Array.getElem?_eq_some_iff.1 hi).1

/-- Index zero is the index of no class. -/
theorem ne_zero_of_className {s : String} (h : p.className i = .ok s) : i ≠ 0 := by
  rintro rfl
  exact nomatch h

theorem lt_size_of_methodHandle {h : MethodHandle} (hi : p.methodHandle i = .ok h) : i < p.size := by
  obtain ⟨r, hr, -⟩ := methodHandle_eq_ok.1 hi
  exact lt_size_of_get hr

/-! ### More constants -/

/-- What is found in a pool is found in another. -/
def Extends (p q : Pool) : Prop :=
  ∀ ⦃i c⦄, p.get i = .ok c → q.get i = .ok c

theorem Extends.refl (p : Pool) : p.Extends p := by
  intro i c h
  exact h

theorem Extends.text (h : p.Extends q) {s : String} (hs : p.text i = .ok s) : q.text i = .ok s :=
  text_eq_ok.2 (h (text_eq_ok.1 hs))

/-- A class keeps its name in a pool that `Extends` its own. -/
theorem Extends.className (h : p.Extends q) {s : String} (hs : p.className i = .ok s) :
    q.className i = .ok s := by
  obtain ⟨n, hn, hs⟩ := className_eq_ok.1 hs
  exact className_eq_ok.2 ⟨n, h hn, h.text hs⟩

/-- A name keeps its descriptor in a pool that `Extends` its own. -/
theorem Extends.nameAndType (h : p.Extends q) {name descriptor : String}
    (hs : p.nameAndType i = .ok (name, descriptor)) : q.nameAndType i = .ok (name, descriptor) := by
  obtain ⟨n, d, hnd, hn, hd⟩ := nameAndType_eq_ok.1 hs
  exact nameAndType_eq_ok.2 ⟨n, d, h hnd, h.text hn, h.text hd⟩

/-- A member stays what it is in a pool that `Extends` its own. -/
theorem Extends.member (h : p.Extends q) {tag owner nameAndType : Nat} {r : MemberRef}
    (hr : p.member tag owner nameAndType = .ok r) : q.member tag owner nameAndType = .ok r := by
  obtain ⟨htag, howner, hname⟩ := member_eq_ok.1 hr
  exact member_eq_ok.2 ⟨htag, h.className howner, h.nameAndType hname⟩

end CallAtlas.ClassFile.Pool
