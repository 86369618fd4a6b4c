import CallAtlas.Proofs.Program.Subtyping

/-!
# What a reference means

A reference to a method of a class is resolved to a declaration in the class or in one that it is a
subtype of (`resolve_eq_some`), and first of all to the nearest declaration on the chain of superclasses
(`resolve_of_nearest`). The chain is followed for as many steps as there are classes. That is enough,
since a way up to a nearest declaration meets no class twice (`NearestAfter.exists_path`).
-/

namespace CallAtlas.Program

open ClassFile

/-! ### The nearest class with a property -/

/-- The class is not an interface, and `d` is at hand as its superclass. -/
def IsSuperclass (cs : List ClassFile) (c d : ClassFile) : Prop :=
  c.isInterface = false ∧ c.super ≠ "" ∧ d ∈ cs ∧ d.name = c.super

/-- From `c` it takes `n` steps to superclasses to get to `d`, the first class with a property. -/
inductive NearestAfter (cs : List ClassFile) (p : ClassFile → Prop) :
    Nat → ClassFile → ClassFile → Prop
  | here {c : ClassFile} : p c → NearestAfter cs p 0 c c
  | above {n : Nat} {c b d : ClassFile} : ¬ p c → IsSuperclass cs c b → NearestAfter cs p n b d →
      NearestAfter cs p (n + 1) c d

/-- Of `c`, its superclass and so on, `d` is the first class with a property. -/
def Nearest (cs : List ClassFile) (p : ClassFile → Prop) (c d : ClassFile) : Prop :=
  ∃ n, NearestAfter cs p n c d

section
variable {cs : List ClassFile} {p : ClassFile → Prop}

/-- A superclass is a direct supertype (`IsDirectSubtype`). -/
theorem IsSuperclass.isDirectSubtype {c d : ClassFile} (hc : c ∈ cs) (h : IsSuperclass cs c d) :
    IsDirectSubtype cs c.name d.name := by
  obtain ⟨hclass, hnamed, -, hname⟩ := h
  refine ⟨c, hc, rfl, .inl ⟨hname.symm, ?_, hclass⟩⟩
  rw [hname]
  exact hnamed

/-- A class has at most one superclass at hand (`IsSuperclass`). -/
theorem IsSuperclass.unique (hnames : (cs.map ClassFile.name).Nodup) {c d d' : ClassFile}
    (h : IsSuperclass cs c d) (h' : IsSuperclass cs c d') : d = d' :=
  eq_of_name_eq hnames h.2.2.1 h'.2.2.1 (h.2.2.2.trans h'.2.2.2.symm)

namespace NearestAfter

/-- The class that is `NearestAfter` some steps has the property. -/
theorem holds {n : Nat} {c d : ClassFile} (h : NearestAfter cs p n c d) : p d := by
  induction h with
  | here hp => exact hp
  | above _ _ _ ih => exact ih

/-- The class that is `NearestAfter` some steps is at hand. -/
theorem mem {n : Nat} {c d : ClassFile} (hc : c ∈ cs) (h : NearestAfter cs p n c d) : d ∈ cs := by
  induction h with
  | here _ => exact hc
  | above _ hsuper _ ih => exact ih hsuper.2.2.1

/-- There is one way up, and it stops at the first class with the property: `NearestAfter` holds of one number
    of steps and one class. -/
theorem unique (hnames : (cs.map ClassFile.name).Nodup) {n n' : Nat} {c d d' : ClassFile}
    (h : NearestAfter cs p n c d) (h' : NearestAfter cs p n' c d') : n = n' ∧ d = d' := by
  induction h generalizing n' with
  | here hp =>
    cases h' with
    | here _ => exact ⟨rfl, rfl⟩
    | above hnot _ _ => exact absurd hp hnot
  | above hnot hsuper _ ih =>
    cases h' with
    | here hp => exact absurd hp hnot
    | above _ hsuper' hrest' =>
      -- both go on from the one superclass
      obtain rfl := hsuper.unique hnames hsuper'
      obtain ⟨rfl, rfl⟩ := ih hrest'
      exact ⟨rfl, rfl⟩

/-- The way up to what is `NearestAfter` some steps meets no class twice, for from each class on it the number
    of steps left is another. -/
theorem exists_path (hnames : (cs.map ClassFile.name).Nodup) {n : Nat} {c d : ClassFile} (hc : c ∈ cs)
    (h : NearestAfter cs p n c d) :
    ∃ path : List ClassFile, path.length = n + 1 ∧ path.Nodup ∧
      ∀ x ∈ path, x ∈ cs ∧ ∃ k ≤ n, NearestAfter cs p k x d := by
  induction h with
  | @here c hp =>
    refine ⟨[c], rfl, List.nodup_singleton c, fun x hx => ?_⟩
    obtain rfl := List.mem_singleton.1 hx
    exact ⟨hc, 0, Nat.le_refl 0, .here hp⟩
  | @above n c b d hnot hsuper hrest ih =>
    -- the way on from the superclass, with this class in front
    obtain ⟨path, hlength, hnodup, hpath⟩ := ih hsuper.2.2.1
    have hwhole : NearestAfter cs p (n + 1) c d := .above hnot hsuper hrest
    -- the same class again would be as far from the end as before
    have hnew : c ∉ path := by
      intro hmem
      obtain ⟨-, k, hk, hagain⟩ := hpath c hmem
      have := (hagain.unique hnames hwhole).1
      omega
    refine ⟨c :: path, by rw [List.length_cons, hlength], List.nodup_cons.2 ⟨hnew, hnodup⟩, ?_⟩
    intro x hx
    rcases List.mem_cons.1 hx with rfl | hx
    · exact ⟨hc, n + 1, Nat.le_refl _, hwhole⟩
    · obtain ⟨hmem, k, hk, hx⟩ := hpath x hx
      exact ⟨hmem, k, Nat.le_succ_of_le hk, hx⟩

/-- It takes fewer steps to get to the nearest class than there are classes. -/
private theorem lt_length (hnames : (cs.map ClassFile.name).Nodup) {n : Nat} {c d : ClassFile} (hc : c ∈ cs)
    (h : NearestAfter cs p n c d) : n < cs.length := by
  obtain ⟨path, hlength, hnodup, hpath⟩ := h.exists_path hnames hc
  have hle := hnodup.length_le_of_subset fun x hx => (hpath x hx).1
  omega

end NearestAfter
end

namespace Hierarchy

variable {h : Hierarchy}

/-! ### Declarations on a chain of superclasses -/

/-- `declared?` finds the method that a class has under the name and descriptor. -/
theorem declared?_eq_some {name descriptor : String} {c : ClassFile} {f : Found} :
    declared? name descriptor c = some f ↔ f.owner = c ∧ c.method? name descriptor = some f.method := by
  obtain ⟨owner, method⟩ := f
  rw [declared?, Option.map_eq_some_iff]
  constructor
  · rintro ⟨m, hm, heq⟩
    obtain ⟨rfl, rfl⟩ := Found.mk.inj heq
    exact ⟨rfl, hm⟩
  · rintro ⟨rfl, hm⟩
    exact ⟨method, hm, rfl⟩

/-- A class declares a method of a name and a descriptor, of whatever kind. -/
def HasMethod (name descriptor : String) (c : ClassFile) : Prop :=
  (c.method? name descriptor).isSome = true

/-- The chain of superclasses, followed far enough, gets to the nearest declaration (`NearestAfter`). -/
private theorem findSome?_chainFrom (hnames : h.names.Nodup) {name descriptor : String} {n k : Nat}
    {c d : ClassFile} (hc : c ∈ h.classes) (hnamed : c.name ≠ "")
    (hd : NearestAfter h.classes (HasMethod name descriptor) n c d) (hk : n < k) :
    (h.chainFrom k c.name).findSome? (declared? name descriptor) = declared? name descriptor d := by
  -- up the chain, which has at least as many steps left as the declaration is away
  induction hd generalizing k with
  | @here c hp =>
    -- the class declares the method, whether the chain goes on or not
    obtain ⟨m, hm⟩ := Option.isSome_iff_exists.1 hp
    obtain ⟨k, rfl⟩ := Nat.exists_eq_succ_of_ne_zero (Nat.ne_zero_of_lt hk)
    have hdeclared : (declared? name descriptor c).isSome = true := by
      rw [declared?, hm]
      rfl
    rw [chainFrom, if_neg hnamed]
    simp only [get?_name hnames hc]
    split
    · exact List.findSome?_cons_of_isSome hdeclared
    · exact List.findSome?_cons_of_isSome hdeclared
  | @above n c b d hnot hsuper _ ih =>
    obtain ⟨k, rfl⟩ := Nat.exists_eq_succ_of_ne_zero (Nat.ne_zero_of_lt hk)
    obtain ⟨hclass, hsupernamed, hb, hbname⟩ := hsuper
    have hdeclared : (declared? name descriptor c).isNone = true := by
      rw [declared?, Option.not_isSome_iff_eq_none.1 hnot]
      rfl
    rw [chainFrom, if_neg hnamed]
    simp only [get?_name hnames hc, hclass, Bool.false_eq_true, if_false]
    rw [List.findSome?_cons_of_isNone hdeclared, ← hbname]
    exact ih hb (hbname ▸ hsupernamed) (Nat.lt_of_succ_lt_succ hk)

/-- `resolve` finds the `Nearest` declaration on the chain of superclasses if there is one. -/
theorem resolve_of_nearest (hnames : h.names.Nodup) {name descriptor : String} {c d : ClassFile}
    (hc : c ∈ h.classes) (hnamed : c.name ≠ "")
    (hd : Nearest h.classes (HasMethod name descriptor) c d) :
    ∃ m, d.method? name descriptor = some m ∧ h.resolve c.name name descriptor = some ⟨d, m⟩ := by
  obtain ⟨n, hd⟩ := hd
  obtain ⟨m, hm⟩ := Option.isSome_iff_exists.1 hd.holds
  refine ⟨m, hm, ?_⟩
  have hfind := findSome?_chainFrom hnames hc hnamed hd (hd.lt_length hnames hc)
  rw [resolve, chain, hfind, declared?, hm]
  rfl

/-- `resolve` finds nothing under the empty name. -/
theorem resolve_empty (name descriptor : String) : h.resolve "" name descriptor = none := by
  have hchain : h.chain "" = [] := by
    unfold chain
    cases h.classes.length with
    | zero => rfl
    | succ n => rw [chainFrom, if_pos rfl]
  have hinherited : h.inherited [] name descriptor = [] := by
    simp [inherited, superinterfaces, closure, fresh, explore]
  simp [resolve, hchain, hinherited]

/-! ### Where a declaration can be found -/

/-- The class is one that `name` means or that it is a subtype of. -/
def IsAbove (h : Hierarchy) (name : String) (c : ClassFile) : Prop :=
  c ∈ h.classes ∧ (c.name = name ∨ IsSubtype h.classes name c.name)

/-- Every class of `chainFrom` a name is above it (`IsAbove`). -/
private theorem isAbove_of_mem_chainFrom (hnames : h.names.Nodup) {n : Nat} {name : String} {c : ClassFile}
    (hc : c ∈ h.chainFrom n name) : h.IsAbove name c := by
  induction n generalizing name with
  | zero => exact absurd hc List.not_mem_nil
  | succ n ih =>
    rw [chainFrom] at hc
    by_cases hname : name = ""
    · rw [if_pos hname] at hc
      exact absurd hc List.not_mem_nil
    · rw [if_neg hname] at hc
      cases hget : h.get? name with
      | none =>
        rw [hget] at hc
        exact absurd hc List.not_mem_nil
      | some b =>
        obtain ⟨hb, rfl⟩ := (get?_eq_some hnames).1 hget
        simp only [hget] at hc
        -- the chain ends at an interface, and goes on with the superclass otherwise
        by_cases hinterface : b.isInterface = true
        · rw [if_pos hinterface] at hc
          rw [List.mem_singleton.1 hc]
          exact ⟨hb, .inl rfl⟩
        · rw [if_neg hinterface] at hc
          rcases List.mem_cons.1 hc with rfl | hc
          · exact ⟨hb, .inl rfl⟩
          · obtain ⟨hclass, habove⟩ := ih hc
            -- a chain goes on only where the superclass has a name
            have hsuper : b.super ≠ "" := by
              intro hempty
              rw [hempty] at hc
              cases n with
              | zero => exact absurd hc List.not_mem_nil
              | succ n =>
                rw [chainFrom, if_pos rfl] at hc
                exact absurd hc List.not_mem_nil
            have hlink : IsDirectSubtype h.classes b.name b.super :=
              ⟨b, hb, rfl, .inl ⟨rfl, hsuper, Bool.eq_false_iff.2 hinterface⟩⟩
            refine ⟨hclass, .inr ?_⟩
            rcases habove with heq | hsub
            · rw [heq]
              exact .single hlink
            · exact .head hlink hsub

/-- Interfaces lead to what the class that names them is a subtype of (`IsSubtype`). -/
private theorem isSubtype_of_leads_interfaces (hnames : h.names.Nodup) {a b : String}
    (hpath : Relation.ReflTransGen (Leads h.names h.interfacesOf) a b) :
    a = b ∨ IsSubtype h.classes a b := by
  induction hpath with
  | refl => exact .inl rfl
  | @tail x y _ hlead ih =>
    -- only a class at hand has interfaces to follow
    have hlink : IsDirectSubtype h.classes x y := by
      have hy := hlead.1
      unfold interfacesOf at hy
      cases hx : h.get? x with
      | none =>
        rw [hx] at hy
        exact absurd hy List.not_mem_nil
      | some d =>
        rw [hx] at hy
        obtain ⟨hd, hdname⟩ := (get?_eq_some hnames).1 hx
        exact ⟨d, hd, hdname, .inr hy⟩
    rcases ih with rfl | hsub
    · exact .inr (.single hlink)
    · exact .inr (hsub.tail hlink)

/-- Every class of `superinterfaces` is above some class of the chain. -/
private theorem isSubtype_of_mem_superinterfaces (hnames : h.names.Nodup) {chain : List ClassFile}
    (hchain : ∀ b ∈ chain, b ∈ h.classes) {c : ClassFile} (hc : c ∈ h.superinterfaces chain) :
    c ∈ h.classes ∧ ∃ b ∈ chain, IsSubtype h.classes b.name c.name := by
  obtain ⟨name, hname, hget⟩ := List.mem_filterMap.1 hc
  obtain ⟨hclass, rfl⟩ := (get?_eq_some hnames).1 hget
  obtain ⟨r, hr, -, hpath⟩ := mem_closure.1 hname
  obtain ⟨b, hb, hrb⟩ := List.mem_flatMap.1 hr
  -- the search starts with the interfaces that a class of the chain names
  have hfirst : IsDirectSubtype h.classes b.name r := ⟨b, hchain b hb, rfl, .inr hrb⟩
  refine ⟨hclass, b, hb, ?_⟩
  rcases isSubtype_of_leads_interfaces hnames hpath with heq | hsub
  · rw [← heq]
    exact .single hfirst
  · exact .head hfirst hsub

/-- What `resolve` finds is declared in a class above the one that the reference names (`IsAbove`). -/
theorem resolve_eq_some (hnames : h.names.Nodup) {owner name descriptor : String} {f : Found}
    (hf : h.resolve owner name descriptor = some f) :
    f.owner.method? name descriptor = some f.method ∧ h.IsAbove owner f.owner := by
  unfold resolve at hf
  cases hchain : (h.chain owner).findSome? (declared? name descriptor) with
  | some g =>
    -- a declaration on the chain
    simp only [hchain, Option.some.injEq] at hf
    subst hf
    obtain ⟨c, hc, hdeclared⟩ := List.exists_of_findSome?_eq_some hchain
    obtain ⟨rfl, hmethod⟩ := declared?_eq_some.1 hdeclared
    exact ⟨hmethod, isAbove_of_mem_chainFrom hnames hc⟩
  | none =>
    -- one in an interface above the chain, with code or without
    simp only [hchain] at hf
    have hmem : f ∈ h.inherited (h.chain owner) name descriptor := by
      rcases Option.or_eq_some_iff.1 hf with hfirst | ⟨-, hhead⟩
      · exact List.mem_of_find?_eq_some hfirst
      · exact List.mem_of_mem_head? hhead
    obtain ⟨c, hc, hfilter⟩ := List.mem_filterMap.1 hmem
    obtain ⟨rfl, hmethod⟩ := declared?_eq_some.1 (Option.filter_eq_some_iff.1 hfilter).1
    have habove : ∀ b ∈ h.chain owner, h.IsAbove owner b :=
      fun b hb => isAbove_of_mem_chainFrom hnames hb
    obtain ⟨hclass, b, hb, hsub⟩ :=
      isSubtype_of_mem_superinterfaces hnames (fun b hb => (habove b hb).1) hc
    refine ⟨hmethod, hclass, .inr ?_⟩
    rcases (habove b hb).2 with heq | hbelow
    · rw [← heq]
      exact hsub
    · exact hbelow.trans hsub

end Hierarchy
end CallAtlas.Program
