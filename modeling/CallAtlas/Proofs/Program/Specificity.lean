import CallAtlas.Proofs.Program.MethodLookup

/-!
# How specific a resolved method is

Of the methods that interfaces above a chain of superclasses have, resolution takes the first with code that
the search finds. The search goes by the number of interfaces on the way. So the method that is taken is
maximally specific where all ways to an interface are equally long and no interface takes the code away from
a method again (`resolve_specific`). Otherwise it need not be (`shortcut_not_specific`,
`revoked_not_specific`).
-/

namespace CallAtlas.Program

open ClassFile

/-- A way from a class on the chain of the name to the interface passes through so many others. -/
def SuperinterfaceAfter (cs : List ClassFile) (owner : String) (n : Nat) (i : ClassFile) : Prop :=
  ∃ c, OnChain cs owner c ∧ Hops (NamesInterface cs) (n + 1) c i

/-- Whatever way leads to the interface `j`, one that is no longer leads to `i`. -/
def AtLeastAsNear (cs : List ClassFile) (owner : String) (i j : ClassFile) : Prop :=
  ∀ n, SuperinterfaceAfter cs owner n j → ∃ m ≤ n, SuperinterfaceAfter cs owner m i

/-- No other interface that has such a method is a subinterface of the one that has this method. -/
def IsMaximallySpecific (cs : List ClassFile) (owner name descriptor : String) (f : Found) : Prop :=
  ∀ g, IsInherited cs owner name descriptor g → g.owner ≠ f.owner →
    ¬ Relation.TransGen (NamesInterface cs) g.owner f.owner

section
variable {cs : List ClassFile} {owner : String} {i j : ClassFile}

/-- A class `IsSuperinterface` if a way of some length leads to it (`SuperinterfaceAfter`). -/
private theorem isSuperinterface_iff : IsSuperinterface cs owner i ↔ ∃ n, SuperinterfaceAfter cs owner n i := by
  simp only [IsSuperinterface, SuperinterfaceAfter, transGen_iff_hops]
  constructor
  · rintro ⟨c, hc, n, hpath⟩
    exact ⟨n, c, hc, hpath⟩
  · rintro ⟨n, c, hc, hpath⟩
    exact ⟨c, hc, n, hpath⟩

/-- The shortest ways lead to the interfaces that classes of the chain name themselves. -/
private theorem superinterfaceAfter_zero :
    SuperinterfaceAfter cs owner 0 i ↔ ∃ c, OnChain cs owner c ∧ NamesInterface cs c i := by
  constructor
  · rintro ⟨c, hc, hway⟩
    cases hway with
    | one_more hnone hlink =>
      cases hnone with
      | none => exact ⟨c, hc, hlink⟩
  · rintro ⟨c, hc, hlink⟩
    exact ⟨c, hc, (Hops.none c).one_more hlink⟩

/-- The way through a subinterface is longer than that to the subinterface. -/
theorem SuperinterfaceAfter.further {n : Nat} (hi : SuperinterfaceAfter cs owner n i)
    (hpath : Relation.TransGen (NamesInterface cs) i j) :
    ∃ m, n < m ∧ SuperinterfaceAfter cs owner m j := by
  obtain ⟨c, hc, hbefore⟩ := hi
  induction hpath with
  | single hlink => exact ⟨n + 1, Nat.lt_succ_self n, c, hc, hbefore.one_more hlink⟩
  | tail _ hlink ih =>
    obtain ⟨m, hm, c, hc, hway⟩ := ih
    exact ⟨m + 1, by omega, c, hc, hway.one_more hlink⟩

/-- Along a way on which each link leads one rank up, ranks count the links. -/
private theorem rank_of_hops {rank : ClassFile → Nat}
    (hlink : ∀ c ∈ cs, ∀ d ∈ cs, d.name ∈ c.interfaces → rank d = rank c + 1) {n : Nat}
    (hway : Hops (NamesInterface cs) n i j) (hi : i ∈ cs) : j ∈ cs ∧ rank j = rank i + n := by
  induction hway with
  | none => exact ⟨hi, rfl⟩
  | one_more _ hnext ih =>
    obtain ⟨hmem, hrank⟩ := ih hi
    refine ⟨hnext.1, ?_⟩
    rw [hlink _ hmem _ hnext.1 hnext.2, hrank, Nat.add_assoc]

/-- If each link leads one rank up from the chain, all ways to an interface are equally long. -/
private theorem SuperinterfaceAfter.rank_eq {rank : ClassFile → Nat}
    (hchain : ∀ c, OnChain cs owner c → rank c = 0)
    (hlink : ∀ c ∈ cs, ∀ d ∈ cs, d.name ∈ c.interfaces → rank d = rank c + 1) {n : Nat}
    (hi : SuperinterfaceAfter cs owner n i) : rank i = n + 1 := by
  obtain ⟨c, hc, hway⟩ := hi
  have hrank := (rank_of_hops hlink hway hc.mem).2
  have hzero := hchain c hc
  omega

end

namespace Hierarchy

variable {h : Hierarchy} {owner name descriptor : String}

/-- The search is `ReachedAfter` as many turns as `SuperinterfaceAfter` counts interfaces on the way. -/
private theorem reachedAfter_iff_superinterfaceAfter (hnames : h.names.Nodup)
    (hwalk : WalkUp h.classes owner (h.chain owner)) {i : ClassFile} (hi : i ∈ h.classes) {n : Nat} :
    ReachedAfter h.names h.interfacesOf ((h.chain owner).flatMap ClassFile.interfaces) n i.name ↔
      SuperinterfaceAfter h.classes owner n i := by
  simp only [reachedAfter_iff_hops hnames hi, hwalk.mem_iff hnames, SuperinterfaceAfter]

/-- The methods of `inherited` come in the order of the number of interfaces that lead to theirs
    (`AtLeastAsNear`). -/
private theorem pairwise_inherited (hnames : h.names.Nodup) (hwalk : WalkUp h.classes owner (h.chain owner)) :
    (h.inherited (h.chain owner) name descriptor).Pairwise fun f g =>
      AtLeastAsNear h.classes owner f.owner g.owner := by
  have hclasses : (h.superinterfaces (h.chain owner)).Pairwise (AtLeastAsNear h.classes owner) := by
    refine (pairwise_closure h.names h.interfacesOf _).filterMap h.get? ?_
    intro x y hxy i hi j hj n hn
    obtain ⟨hmem, rfl⟩ := (get?_eq_some hnames).1 hi
    obtain ⟨hmem', rfl⟩ := (get?_eq_some hnames).1 hj
    obtain ⟨m, hm, hreached⟩ := hxy n ((reachedAfter_iff_superinterfaceAfter hnames hwalk hmem').2 hn)
    exact ⟨m, hm, (reachedAfter_iff_superinterfaceAfter hnames hwalk hmem).1 hreached⟩
  refine hclasses.filterMap _ ?_
  intro i j hij f hf g hg
  -- the methods stand in the classes that they were found in
  have howner : ∀ {c : ClassFile} {e : Found}, (declared? name descriptor c).filter
      (fun e => !e.method.isPrivate && !e.method.isStatic) = some e → e.owner = c :=
    fun he => (declared?_eq_some.1 (Option.filter_eq_some_iff.1 he).1).1
  rw [howner hf, howner hg]
  exact hij

/-- What `resolve` passes over is no nearer than what it takes, or it has no code and the method that is taken
    has. -/
theorem nearer_or_abstract (hnames : h.names.Nodup) (hwalk : WalkUp h.classes owner (h.chain owner))
    (hnone : ∀ d, OnChain h.classes owner d → ¬ HasMethod name descriptor d) {f g : Found}
    (hf : h.resolve owner name descriptor = some f)
    (hg : IsInherited h.classes owner name descriptor g) (hne : g.owner ≠ f.owner) :
    AtLeastAsNear h.classes owner f.owner g.owner ∨
    (f.method.isAbstract = false ∧ g.method.isAbstract = true) := by
  rw [resolve_of_notDeclared hnames hnone] at hf
  obtain ⟨-, -, hlater⟩ := preferred_of_find?_or_head? hf
  rcases hlater _ (pairwise_inherited hnames hwalk) g ((mem_inherited_chain hnames hwalk).2 hg) with
    rfl | hnear | habstract
  · exact absurd rfl hne
  · exact .inl hnear
  · exact .inr (by simpa using habstract)

/-- `resolve` passes over the method of a subinterface only if the one it takes is `AtLeastAsNear`, or has code
    where the other has none. So the method that is taken `IsMaximallySpecific` if all ways to an interface are
    equally long and no subinterface has without code what is taken with code. -/
theorem resolve_specific (hnames : h.names.Nodup)
    (hacyclic : ∀ c, OnChain h.classes owner c → ¬ Relation.TransGen (IsSuperclass h.classes) c c)
    (hnone : ∀ d, OnChain h.classes owner d → ¬ HasMethod name descriptor d) {f : Found}
    (hf : h.resolve owner name descriptor = some f) :
    IsInherited h.classes owner name descriptor f ∧
    (∀ g, IsInherited h.classes owner name descriptor g → g.owner ≠ f.owner →
      Relation.TransGen (NamesInterface h.classes) g.owner f.owner →
        AtLeastAsNear h.classes owner f.owner g.owner ∨
        (f.method.isAbstract = false ∧ g.method.isAbstract = true)) ∧
    ((∀ i n m, SuperinterfaceAfter h.classes owner n i → SuperinterfaceAfter h.classes owner m i → n = m) →
      (∀ g, IsInherited h.classes owner name descriptor g →
        Relation.TransGen (NamesInterface h.classes) g.owner f.owner →
          g.method.isAbstract = true → f.method.isAbstract = true) →
      IsMaximallySpecific h.classes owner name descriptor f) := by
  have hwalk := walkUp_chain hnames hacyclic
  have hinherited := (isInherited_of_resolve hnames hwalk hnone hf).1
  refine ⟨hinherited, fun g hg hne _ => nearer_or_abstract hnames hwalk hnone hf hg hne, ?_⟩
  intro hlevel hcode g hg hne hbelow
  rcases nearer_or_abstract hnames hwalk hnone hf hg hne with hnear | ⟨hconcrete, habstract⟩
  · -- one way to the interface is no longer than that to the subinterface, another goes through it
    obtain ⟨n, hn⟩ := isSuperinterface_iff.1 hg.above
    obtain ⟨m, hm, hshort⟩ := hnear n hn
    obtain ⟨k, hk, hlong⟩ := hn.further hbelow
    have hequal := hlevel _ m k hshort hlong
    omega
  · rw [hcode g hg hbelow habstract] at hconcrete
    cases hconcrete

/-! ### Classes without a superclass at hand -/

section
variable (htop : ∀ c ∈ h.classes, ∀ d ∈ h.classes, d.name ≠ c.super)
include htop

/-- Without superclasses at hand, the chain of a name is the class of that name (`IsNamed`). -/
theorem isNamed_of_onChain_top {d : ClassFile} (hd : OnChain h.classes owner d) :
    IsNamed h.classes owner d := by
  obtain ⟨b, hb, hpath⟩ := hd
  rcases hpath.cases_head with rfl | ⟨c, hsuper, -⟩
  · exact hb
  · exact absurd hsuper.2.2.2 (htop b hb.2.1 c hsuper.2.2.1)

/-- Without superclasses at hand, there is no cycle of them. -/
theorem acyclic_top (c : ClassFile) (hc : OnChain h.classes owner c) :
    ¬ Relation.TransGen (IsSuperclass h.classes) c c := by
  intro hcycle
  obtain ⟨d, hsuper, -⟩ := Relation.TransGen.head'_iff.1 hcycle
  exact htop c hc.mem d hsuper.2.2.1 hsuper.2.2.2

/-- Without superclasses at hand, no class of the chain has a method that the named class lacks. -/
theorem notDeclared_top
    (hlacks : ∀ c ∈ h.classes, c.name = owner → c.method? name descriptor = none) (d : ClassFile)
    (hd : OnChain h.classes owner d) : ¬ HasMethod name descriptor d := by
  have hnamed := isNamed_of_onChain_top htop hd
  unfold HasMethod
  rw [hlacks d hnamed.2.1 hnamed.2.2]
  exact Bool.false_ne_true

/-- Without superclasses at hand, `resolve` finds an inherited method if there is one, with code if there is one
    with code. -/
theorem exists_resolve_top (hnames : h.names.Nodup)
    (hlacks : ∀ c ∈ h.classes, c.name = owner → c.method? name descriptor = none) {g : Found}
    (hg : IsInherited h.classes owner name descriptor g) :
    ∃ f, h.resolve owner name descriptor = some f ∧ IsInherited h.classes owner name descriptor f ∧
      (g.method.isAbstract = false → f.method.isAbstract = false) := by
  have hwalk : WalkUp h.classes owner (h.chain owner) := walkUp_chain hnames (acyclic_top htop)
  have hnone := notDeclared_top htop hlacks
  obtain ⟨f, hf⟩ := Option.isSome_iff_exists.1 ((isSome_resolve_iff hnames hwalk hnone).2 ⟨g, hg⟩)
  obtain ⟨hinherited, hcode⟩ := isInherited_of_resolve hnames hwalk hnone hf
  exact ⟨f, hf, hinherited, hcode g hg⟩

end

/-! ### A ladder, a shortcut and a revoked method -/

/-- The interface `J`, which has the method `m`. -/
def upper : ClassFile := sketch "J" "java/lang/Object" 0x601 [] [returningMethod "m"]

/-- The interface `I` below `J`, which has the method `m` too. -/
def lower : ClassFile := sketch "I" "java/lang/Object" 0x601 ["J"] [returningMethod "m"]

/-- A class below `I`. -/
def ladder : Hierarchy :=
  .ofClasses [sketch "C" "java/lang/Object" 0x21 ["I"] [], lower, upper]

/-- No superclass of `ladder` is at hand. -/
theorem ladder_top : ∀ c ∈ ladder.classes, ∀ d ∈ ladder.classes, d.name ≠ c.super := by decide

/-- In `ladder` all ways to an interface are equally long. -/
private theorem ladder_level (i : ClassFile) (n m : Nat) (hn : SuperinterfaceAfter ladder.classes "C" n i)
    (hm : SuperinterfaceAfter ladder.classes "C" m i) : n = m := by
  -- interfaces by their places on the ladder: each link leads one place up
  let rank (c : ClassFile) : Nat := ["C", "I", "J"].idxOf c.name
  have hchain (c : ClassFile) (hc : OnChain ladder.classes "C" c) : rank c = 0 := by
    show ["C", "I", "J"].idxOf c.name = 0
    rw [(isNamed_of_onChain_top ladder_top hc).2.2]
    rfl
  have hlink : ∀ c ∈ ladder.classes, ∀ d ∈ ladder.classes, d.name ∈ c.interfaces →
      rank d = rank c + 1 := by decide
  have hrank := hn.rank_eq hchain hlink
  have hrank' := hm.rank_eq hchain hlink
  omega

/-- In `ladder`, `C` inherits the method of the lower interface. -/
private theorem ladder_inherited : IsInherited ladder.classes "C" "m" "()V" ⟨lower, returningMethod "m"⟩ :=
  ⟨⟨sketch "C" "java/lang/Object" 0x21 ["I"] [], IsNamed.onChain ⟨by decide, by decide, rfl⟩,
    .single ⟨by decide, by decide⟩⟩, by decide, by decide, by decide⟩

/-- `resolve_specific` on `ladder`: the reference from its bottom means the method of the lower interface. -/
theorem ladder_specific : ∃ f, ladder.resolve "C" "m" "()V" = some f ∧ f.owner = lower ∧
    IsMaximallySpecific ladder.classes "C" "m" "()V" f := by
  have hnames : ladder.names.Nodup := by decide
  have hacyclic : ∀ c, OnChain ladder.classes "C" c → _ := acyclic_top ladder_top
  have hnone : ∀ d, OnChain ladder.classes "C" d → ¬ HasMethod "m" "()V" d :=
    notDeclared_top ladder_top (by decide)
  obtain ⟨f, hf, hinherited, -⟩ := exists_resolve_top ladder_top hnames (by decide) ladder_inherited
  obtain ⟨-, -, hspecific⟩ := resolve_specific hnames hacyclic hnone hf
  have hcode : ∀ c ∈ ladder.classes, ∀ e, c.method? "m" "()V" = some e → e.isAbstract = false := by decide
  -- no method of the ladder is without code
  have hmaximal := hspecific ladder_level fun g hg _ habstract => by
    rw [hcode _ hg.mem _ hg.declared] at habstract
    cases habstract
  have howner : ∀ c ∈ ladder.classes, (c.method? "m" "()V").isSome → c = lower ∨ c = upper := by decide
  rcases howner _ hinherited.mem (Option.isSome_of_eq_some hinherited.declared) with hlower | hupper
  · exact ⟨f, hf, hlower, hmaximal⟩
  · -- the upper interface is above another one with the method
    refine absurd ?_ (hmaximal _ ladder_inherited (by rw [hupper]; decide))
    rw [hupper]
    exact .single ⟨by decide, by decide⟩

/-- A class below `J`, and below `I` by way of a further interface. -/
def shortcut : Hierarchy :=
  .ofClasses [sketch "C" "java/lang/Object" 0x21 ["J", "K"] [],
    sketch "K" "java/lang/Object" 0x601 ["I"] [], lower, upper]

/-- No superclass of `shortcut` is at hand. -/
theorem shortcut_top : ∀ c ∈ shortcut.classes, ∀ d ∈ shortcut.classes, d.name ≠ c.super := by decide

/-- In `shortcut`, `C` inherits the methods of both interfaces. -/
private theorem shortcut_inherited :
    IsInherited shortcut.classes "C" "m" "()V" ⟨upper, returningMethod "m"⟩ ∧
    IsInherited shortcut.classes "C" "m" "()V" ⟨lower, returningMethod "m"⟩ := by
  have hchain : OnChain shortcut.classes "C" (sketch "C" "java/lang/Object" 0x21 ["J", "K"] []) :=
    IsNamed.onChain ⟨by decide, by decide, rfl⟩
  refine ⟨⟨⟨_, hchain, .single ⟨by decide, by decide⟩⟩, by decide, by decide, by decide⟩,
    ⟨⟨_, hchain, ?_⟩, by decide, by decide, by decide⟩⟩
  have hK : NamesInterface shortcut.classes (sketch "C" "java/lang/Object" 0x21 ["J", "K"] [])
      (sketch "K" "java/lang/Object" 0x601 ["I"] []) := ⟨by decide, by decide⟩
  exact .tail (.single hK) ⟨by decide, by decide⟩

/-- In `shortcut` the reference means the method of the upper interface, to which a shorter way leads. The lower
    interface has the method as well, with code. -/
theorem shortcut_not_specific : shortcut.names.Nodup ∧
    (∀ c, OnChain shortcut.classes "C" c → ¬ Relation.TransGen (IsSuperclass shortcut.classes) c c) ∧
    (∀ d, OnChain shortcut.classes "C" d → ¬ HasMethod "m" "()V" d) ∧
    ∃ f, shortcut.resolve "C" "m" "()V" = some f ∧ f.owner = upper ∧
      IsInherited shortcut.classes "C" "m" "()V" ⟨lower, returningMethod "m"⟩ ∧
      Relation.TransGen (NamesInterface shortcut.classes) lower upper ∧
      ¬ IsMaximallySpecific shortcut.classes "C" "m" "()V" f := by
  have hnames : shortcut.names.Nodup := by decide
  have hacyclic : ∀ c, OnChain shortcut.classes "C" c → _ := acyclic_top shortcut_top
  have hnone : ∀ d, OnChain shortcut.classes "C" d → ¬ HasMethod "m" "()V" d :=
    notDeclared_top shortcut_top (by decide)
  obtain ⟨hupper, hlower⟩ := shortcut_inherited
  obtain ⟨f, hf, hinherited, -⟩ := exists_resolve_top shortcut_top hnames (by decide) hlower
  have hbelow : Relation.TransGen (NamesInterface shortcut.classes) lower upper :=
    .single ⟨by decide, by decide⟩
  -- the bottom names the upper interface itself
  have hnamed : NamesInterface shortcut.classes (sketch "C" "java/lang/Object" 0x21 ["J", "K"] []) upper :=
    ⟨by decide, by decide⟩
  have howner : f.owner = upper := by
    by_contra hne
    have hwalk := walkUp_chain hnames hacyclic
    rcases nearer_or_abstract hnames hwalk hnone hf hupper (Ne.symm hne) with hnear | habstract
    · -- `C` names `J`, and of the interfaces with the method it names no other
      obtain ⟨m, hm, hdirect⟩ := hnear 0
        (superinterfaceAfter_zero.2 ⟨_, IsNamed.onChain ⟨by decide, by decide, rfl⟩, hnamed⟩)
      obtain rfl := Nat.le_zero.1 hm
      obtain ⟨c, hc, hlink⟩ := superinterfaceAfter_zero.1 hdirect
      have hC := isNamed_of_onChain_top shortcut_top hc
      have honly : ∀ c ∈ shortcut.classes, c.name = "C" → ∀ d ∈ shortcut.classes, d.name ∈ c.interfaces →
          (d.method? "m" "()V").isSome → d = upper := by decide
      exact hne (honly c hC.2.1 hC.2.2 _ hlink.1 hlink.2 (Option.isSome_of_eq_some hinherited.declared))
    · exact absurd habstract.2 (by decide)
  refine ⟨hnames, hacyclic, hnone, f, hf, howner, hlower, hbelow, fun hmaximal => ?_⟩
  exact hmaximal _ hlower (by rw [howner]; decide) (howner ▸ hbelow)

/-- A class below an interface `I` that has the method `m` without code, although it is below `J`. -/
def revoked : Hierarchy :=
  .ofClasses [sketch "C" "java/lang/Object" 0x21 ["I"] [],
    sketch "I" "java/lang/Object" 0x601 ["J"] [abstractMethod "m"], upper]

/-- In `revoked` the method without code is passed over, although its interface is below that of the other. -/
theorem revoked_not_specific : ∃ f, revoked.resolve "C" "m" "()V" = some f ∧ f.owner = upper ∧
    ¬ IsMaximallySpecific revoked.classes "C" "m" "()V" f := by
  -- the interface in the middle, which takes the code of the method away
  let abstracting : ClassFile := sketch "I" "java/lang/Object" 0x601 ["J"] [abstractMethod "m"]
  have hchain : OnChain revoked.classes "C" (sketch "C" "java/lang/Object" 0x21 ["I"] []) :=
    IsNamed.onChain ⟨by decide, by decide, rfl⟩
  have hfirst : Relation.TransGen (NamesInterface revoked.classes)
      (sketch "C" "java/lang/Object" 0x21 ["I"] []) abstracting := .single ⟨by decide, by decide⟩
  have hbelow : NamesInterface revoked.classes abstracting upper := ⟨by decide, by decide⟩
  have habstract : IsInherited revoked.classes "C" "m" "()V" ⟨abstracting, abstractMethod "m"⟩ :=
    ⟨⟨_, hchain, hfirst⟩, by decide, by decide, by decide⟩
  have hupper : IsInherited revoked.classes "C" "m" "()V" ⟨upper, returningMethod "m"⟩ :=
    ⟨⟨_, hchain, hfirst.tail hbelow⟩, by decide, by decide, by decide⟩
  obtain ⟨f, hf, hinherited, hcode⟩ := exists_resolve_top (by decide) (by decide) (by decide) hupper
  -- of the methods with code there is but one
  have honly : ∀ c ∈ revoked.classes, ∀ e, c.method? "m" "()V" = some e → e.isAbstract = false →
      c = upper := by decide
  have howner := honly _ hinherited.mem _ hinherited.declared (hcode rfl)
  refine ⟨f, hf, howner, fun hmaximal => ?_⟩
  exact hmaximal _ habstract (by rw [howner]; decide) (howner ▸ .single hbelow)

end Hierarchy
end CallAtlas.Program
