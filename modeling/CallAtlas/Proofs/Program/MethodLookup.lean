import CallAtlas.Proofs.Program.Resolution
import CallAtlas.Proofs.SearchOrder
import CallAtlas.Proofs.Worklist

/-!
# When a reference can be resolved

A reference is resolved in two steps. The walk up the chain of superclasses takes the nearest declaration.
Without one, the search through the interfaces that the chain leads to takes a method that is neither
private nor static, with code if there is one with code (`resolve_finds`). Where the chain has no cycle, the
walk comes to its end by itself, and the number of steps that is set to it makes no difference
(`Hierarchy.walkUp_chain`). Cycles among interfaces do no harm: the search through them comes to its end by
itself, too (`exists_endsTaking_superinterfaces`).
-/

namespace CallAtlas.Program

open ClassFile

/-! ### The walk up -/

/-- The class at hand that a name stands for. The empty name stands for none. -/
def IsNamed (cs : List ClassFile) (name : String) (c : ClassFile) : Prop :=
  name ≠ "" ∧ c ∈ cs ∧ c.name = name

/-- The class is the one that the name stands for, its superclass at hand and so on. An interface has no
    superclass. -/
def OnChain (cs : List ClassFile) (name : String) (c : ClassFile) : Prop :=
  ∃ b, IsNamed cs name b ∧ Relation.ReflTransGen (IsSuperclass cs) b c

/-- The walk up from a name passes these classes and is then at its end: at an interface, or where no class at
    hand bears the name. -/
inductive WalkUp (cs : List ClassFile) : String → List ClassFile → Prop
  | outside {name : String} : (∀ c, ¬ IsNamed cs name c) → WalkUp cs name []
  | interface {name : String} {c : ClassFile} : IsNamed cs name c → c.isInterface = true →
      WalkUp cs name [c]
  | superclass {name : String} {c : ClassFile} {above : List ClassFile} : IsNamed cs name c →
      c.isInterface = false → WalkUp cs c.super above → WalkUp cs name (c :: above)

section
variable {cs : List ClassFile} {name : String} {c d : ClassFile}

/-- A name stands for at most one class (`IsNamed`). -/
theorem IsNamed.unique (hnames : (cs.map ClassFile.name).Nodup) (hc : IsNamed cs name c)
    (hd : IsNamed cs name d) : c = d :=
  eq_of_name_eq hnames hc.2.1 hd.2.1 (hc.2.2.trans hd.2.2.symm)

/-- The class that a name stands for is on its chain (`OnChain`). -/
theorem IsNamed.onChain (hc : IsNamed cs name c) : OnChain cs name c :=
  ⟨c, hc, .refl⟩

/-- Classes that are `OnChain` are at hand. -/
theorem OnChain.mem (hc : OnChain cs name c) : c ∈ cs := by
  obtain ⟨b, hb, hpath⟩ := hc
  rcases hpath.cases_tail with rfl | ⟨_, -, hsuper⟩
  · exact hb.2.1
  · exact hsuper.2.2.1

/-- What lies above a class that is `OnChain` is so too. -/
theorem OnChain.trans (hc : OnChain cs name c)
    (hpath : Relation.ReflTransGen (IsSuperclass cs) c d) : OnChain cs name d := by
  obtain ⟨b, hb, hbefore⟩ := hc
  exact ⟨b, hb, hbefore.trans hpath⟩

/-- What is `OnChain` of the superclass lies above the class. -/
private theorem transGen_of_onChain_super (hclass : c.isInterface = false) (hd : OnChain cs c.super d) :
    Relation.TransGen (IsSuperclass cs) c d := by
  obtain ⟨b, hb, hpath⟩ := hd
  exact Relation.TransGen.head' ⟨hclass, hb⟩ hpath

/-- What is `OnChain` of the superclass is so of the name of the class. -/
private theorem onChain_of_onChain_super (hc : IsNamed cs name c) (hclass : c.isInterface = false)
    (hd : OnChain cs c.super d) : OnChain cs name d :=
  ⟨c, hc, (transGen_of_onChain_super hclass hd).to_reflTransGen⟩

/-- `WalkUp` passes the whole chain: the classes that are `OnChain` and no other. -/
theorem WalkUp.mem_iff (hnames : (cs.map ClassFile.name).Nodup) {path : List ClassFile}
    (hwalk : WalkUp cs name path) : d ∈ path ↔ OnChain cs name d := by
  -- along the walk, whose three ends are the three ways a chain can go on from a name
  induction hwalk with
  | outside hnone =>
    refine ⟨fun hd => absurd hd List.not_mem_nil, ?_⟩
    rintro ⟨b, hb, -⟩
    exact absurd hb (hnone b)
  | @interface name c hc hinterface =>
    rw [List.mem_singleton]
    constructor
    · rintro rfl
      exact hc.onChain
    · rintro ⟨b, hb, hpath⟩
      obtain rfl := hc.unique hnames hb
      -- there is no step up from an interface
      rcases hpath.cases_head with heq | ⟨_, hsuper, -⟩
      · exact heq.symm
      · rw [hsuper.1] at hinterface
        cases hinterface
  | @superclass name c above hc hclass _ ih =>
    rw [List.mem_cons, ih]
    constructor
    · rintro (rfl | hd)
      · exact hc.onChain
      · exact onChain_of_onChain_super hc hclass hd
    · rintro ⟨b, hb, hpath⟩
      obtain rfl := hc.unique hnames hb
      rcases hpath.cases_head with heq | ⟨e, hsuper, hrest⟩
      · exact .inl heq.symm
      · exact .inr ⟨e, hsuper.2, hrest⟩

/-- Some class on the chain is the `Nearest` with a property if one has it at all. -/
private theorem exists_nearest {p : ClassFile → Prop} (hpath : Relation.ReflTransGen (IsSuperclass cs) c d)
    (hd : p d) : ∃ e, Nearest cs p c e := by
  -- from the lower end: where the class itself has the property, no other is nearer
  induction hpath using Relation.ReflTransGen.head_induction_on with
  | refl => exact ⟨d, 0, .here hd⟩
  | @head a b hsuper _ ih =>
    by_cases ha : p a
    · exact ⟨a, 0, .here ha⟩
    · obtain ⟨e, n, he⟩ := ih
      exact ⟨e, n + 1, .above ha hsuper he⟩

end

namespace Hierarchy

variable {h : Hierarchy} {name : String}

/-- One step of `chainFrom` from a name that stands for a class. -/
theorem chainFrom_of_isNamed (hnames : h.names.Nodup) {c : ClassFile} (hc : IsNamed h.classes name c)
    (n : Nat) : h.chainFrom (n + 1) name =
      if c.isInterface then [c] else c :: h.chainFrom n c.super := by
  rw [chainFrom, if_neg hc.1]
  simp only [(get?_eq_some hnames).2 hc.2]

/-- `chainFrom` a name that stands for no class is empty. -/
theorem chainFrom_of_outside (hnames : h.names.Nodup) (hnone : ∀ c, ¬ IsNamed h.classes name c)
    (n : Nat) : h.chainFrom n name = [] := by
  cases n with
  | zero => rfl
  | succ n =>
    rw [chainFrom]
    split
    · rfl
    · rename_i hname
      cases hget : h.get? name with
      | none => rfl
      | some c => exact absurd ⟨hname, (get?_eq_some hnames).1 hget⟩ (hnone c)

/-- `chainFrom` with as many steps as `WalkUp` takes by itself is the whole walk: more do not matter. -/
private theorem chainFrom_eq_of_walkUp (hnames : h.names.Nodup) {path : List ClassFile}
    (hwalk : WalkUp h.classes name path) {n : Nat} (hn : path.length ≤ n) :
    h.chainFrom n name = path := by
  -- the walk ends outside, at an interface, or goes on with the superclass
  induction hwalk generalizing n with
  | outside hnone => exact chainFrom_of_outside hnames hnone n
  | interface hc hinterface =>
    obtain ⟨n, rfl⟩ := Nat.exists_eq_add_of_le' hn
    rw [List.length_singleton, chainFrom_of_isNamed hnames hc, if_pos hinterface]
  | superclass hc hclass _ ih =>
    rw [List.length_cons] at hn
    obtain ⟨n, rfl⟩ := Nat.exists_eq_succ_of_ne_zero (Nat.ne_zero_of_lt hn)
    rw [chainFrom_of_isNamed hnames hc, hclass, if_neg Bool.false_ne_true,
      ih (Nat.le_of_succ_le_succ hn)]

/-- `chainFrom` with so many steps at most is a `WalkUp` to its end, or takes all of them. -/
private theorem walkUp_or_length_eq (hnames : h.names.Nodup) (n : Nat) (name : String) :
    WalkUp h.classes name (h.chainFrom n name) ∨ (h.chainFrom n name).length = n := by
  -- by induction on the steps allowed
  induction n generalizing name with
  | zero => exact .inr rfl
  | succ n ih =>
    by_cases hnamed : ∃ c, IsNamed h.classes name c
    · obtain ⟨c, hc⟩ := hnamed
      rw [chainFrom_of_isNamed hnames hc]
      split
      · rename_i hinterface
        exact .inl (.interface hc hinterface)
      · rename_i hclass
        rcases ih c.super with hwalk | hlength
        · exact .inl (.superclass hc (Bool.eq_false_iff.2 hclass) hwalk)
        · exact .inr (by rw [List.length_cons, hlength])
    · have hnone := not_exists.1 hnamed
      rw [chainFrom_of_outside hnames hnone]
      exact .inl (.outside hnone)

/-- `chainFrom` passes classes that are `OnChain` only. -/
theorem onChain_of_mem_chainFrom (hnames : h.names.Nodup) {n : Nat} {d : ClassFile}
    (hd : d ∈ h.chainFrom n name) : OnChain h.classes name d := by
  induction n generalizing name with
  | zero => exact absurd hd List.not_mem_nil
  | succ n ih =>
    -- a step leads to a class at hand or out of them
    by_cases hnamed : ∃ c, IsNamed h.classes name c
    · obtain ⟨c, hc⟩ := hnamed
      rw [chainFrom_of_isNamed hnames hc] at hd
      split at hd
      · rw [List.mem_singleton.1 hd]
        exact hc.onChain
      · rename_i hclass
        rcases List.mem_cons.1 hd with rfl | hd
        · exact hc.onChain
        · exact onChain_of_onChain_super hc (Bool.eq_false_iff.2 hclass) (ih hd)
    · rw [chainFrom_of_outside hnames (not_exists.1 hnamed)] at hd
      exact absurd hd List.not_mem_nil

/-- Whatever `chainFrom` passes later lies above what it passed before. -/
private theorem pairwise_chainFrom (hnames : h.names.Nodup) (n : Nat) (name : String) :
    (h.chainFrom n name).Pairwise (Relation.TransGen (IsSuperclass h.classes)) := by
  induction n generalizing name with
  | zero => exact List.Pairwise.nil
  | succ n ih =>
    by_cases hnamed : ∃ c, IsNamed h.classes name c
    · obtain ⟨c, hc⟩ := hnamed
      rw [chainFrom_of_isNamed hnames hc]
      split
      · exact List.pairwise_singleton _ c
      · rename_i hclass
        -- all that the rest of the walk passes is on the chain of the superclass
        refine List.pairwise_cons.2 ⟨fun d hd => ?_, ih c.super⟩
        exact transGen_of_onChain_super (Bool.eq_false_iff.2 hclass) (onChain_of_mem_chainFrom hnames hd)
    · rw [chainFrom_of_outside hnames (not_exists.1 hnamed)]
      exact List.Pairwise.nil

/-- Without a cycle `chain` is a `WalkUp` that ends by itself, and it passes no more classes than there are. -/
theorem walkUp_chain (hnames : h.names.Nodup) {owner : String}
    (hacyclic : ∀ c, OnChain h.classes owner c → ¬ Relation.TransGen (IsSuperclass h.classes) c c) :
    WalkUp h.classes owner (h.chain owner) := by
  have honchain : ∀ c ∈ h.chainFrom (h.classes.length + 1) owner, OnChain h.classes owner c :=
    fun c hc => onChain_of_mem_chainFrom hnames hc
  have hnodup : (h.chainFrom (h.classes.length + 1) owner).Nodup := by
    refine (pairwise_chainFrom hnames _ owner).imp_of_mem fun {c d} hc _ habove heq => ?_
    subst heq
    exact hacyclic c (honchain c hc) habove
  have hlength := hnodup.length_le_of_subset fun c hc => (honchain c hc).mem
  -- one step more than there are classes cannot all be taken
  rcases walkUp_or_length_eq hnames (h.classes.length + 1) owner with hwalk | htaken
  · rw [chain, chainFrom_eq_of_walkUp hnames hwalk hlength]
    exact hwalk
  · omega

end Hierarchy

/-! ### Interfaces above a chain -/

/-- The class names another one, which is at hand, as an interface. -/
def NamesInterface (cs : List ClassFile) (c i : ClassFile) : Prop :=
  i ∈ cs ∧ i.name ∈ c.interfaces

/-- From a class on the chain of the name, interfaces lead to the class. All of them are at hand. -/
def IsSuperinterface (cs : List ClassFile) (owner : String) (i : ClassFile) : Prop :=
  ∃ c, OnChain cs owner c ∧ Relation.TransGen (NamesInterface cs) c i

/-- A method that a reference may mean where no class on the chain declares one. -/
structure IsInherited (cs : List ClassFile) (owner name descriptor : String) (f : Found) : Prop where
  above : IsSuperinterface cs owner f.owner
  declared : f.owner.method? name descriptor = some f.method
  notPrivate : f.method.isPrivate = false
  notStatic : f.method.isStatic = false

/-- The class of a method that `IsInherited` is at hand. -/
theorem IsInherited.mem {cs : List ClassFile} {owner name descriptor : String} {f : Found}
    (hf : IsInherited cs owner name descriptor f) : f.owner ∈ cs := by
  obtain ⟨c, -, hpath⟩ := hf.above
  obtain ⟨b, -, hlast⟩ := Relation.TransGen.tail'_iff.1 hpath
  exact hlast.1

namespace Hierarchy

variable {h : Hierarchy} {owner name descriptor : String}

/-- The search takes one link less (`ReachedAfter`) than there are between classes (`Hops`), for it starts from
    the interfaces that the chain names. -/
theorem reachedAfter_iff_hops (hnames : h.names.Nodup) {chain : List ClassFile} {n : Nat}
    {i : ClassFile} (hi : i ∈ h.classes) :
    ReachedAfter h.names h.interfacesOf (chain.flatMap ClassFile.interfaces) n i.name ↔
      ∃ c ∈ chain, Hops (NamesInterface h.classes) (n + 1) c i := by
  constructor
  · rintro ⟨r, hr, -, hpath⟩
    obtain ⟨c, hc, hrc⟩ := List.mem_flatMap.1 hr
    refine ⟨c, hc, ?_⟩
    generalize hx : i.name = x at hpath
    -- along the way of the search, whose names have to be those of classes at hand
    induction hpath generalizing i with
    | none =>
      subst hx
      exact (Hops.none c).one_more ⟨hi, hrc⟩
    | @one_more n r b x _ hlead ih =>
      subst hx
      have hnamed := hlead.1
      unfold interfacesOf at hnamed
      -- only a class at hand has interfaces to follow
      cases hget : h.get? b with
      | none =>
        rw [hget] at hnamed
        exact absurd hnamed List.not_mem_nil
      | some d =>
        rw [hget] at hnamed
        obtain ⟨hd, hdname⟩ := (get?_eq_some hnames).1 hget
        exact (ih hd hr hrc hdname).one_more ⟨hi, hnamed⟩
  · rintro ⟨c, hc, hpath⟩
    -- along the links between classes, from the far end
    induction n generalizing i with
    | zero =>
      cases hpath with
      | one_more hnone hlink =>
        cases hnone with
        | none => exact ⟨i.name, List.mem_flatMap.2 ⟨c, hc, hlink.2⟩, List.mem_map_of_mem hi, .none _⟩
    | succ n ih =>
      cases hpath with
      | @one_more _ _ b _ hbefore hlink =>
        have hb : b ∈ h.classes := by
          cases hbefore with
          | one_more _ hlast => exact hlast.1
        obtain ⟨r, hr, hrname, hpath⟩ := ih hb hbefore
        have hnext : i.name ∈ h.interfacesOf b.name := by
          rw [interfacesOf, get?_name hnames hb]
          exact hlink.2
        exact ⟨r, hr, hrname, hpath.one_more ⟨hnext, List.mem_map_of_mem hi⟩⟩

/-- `superinterfaces` are the classes that interfaces lead to from the chain. -/
private theorem mem_superinterfaces (hnames : h.names.Nodup) {chain : List ClassFile} {i : ClassFile} :
    i ∈ h.superinterfaces chain ↔ ∃ c ∈ chain, Relation.TransGen (NamesInterface h.classes) c i := by
  have hsearch : i ∈ h.superinterfaces chain ↔ i ∈ h.classes ∧
      Reached h.names h.interfacesOf (chain.flatMap ClassFile.interfaces) i.name := by
    simp only [superinterfaces, List.mem_filterMap, mem_closure, get?_eq_some hnames]
    constructor
    · rintro ⟨x, hx, hi, rfl⟩
      exact ⟨hi, hx⟩
    · rintro ⟨hi, hx⟩
      exact ⟨i.name, hx, hi, rfl⟩
  -- names that are found after so many steps are interfaces so many links away
  rw [hsearch, reached_iff_exists_reachedAfter]
  simp only [transGen_iff_hops]
  constructor
  · rintro ⟨hi, n, hn⟩
    obtain ⟨c, hc, hpath⟩ := (reachedAfter_iff_hops hnames hi).1 hn
    exact ⟨c, hc, n, hpath⟩
  · rintro ⟨c, hc, n, hpath⟩
    -- the last link leads to a class at hand
    have hi : i ∈ h.classes := by
      cases hpath with
      | one_more _ hlink => exact hlink.1
    exact ⟨hi, n, (reachedAfter_iff_hops hnames hi).2 ⟨c, hc, hpath⟩⟩

/-- `get?` finds something under the names of the hierarchy only. -/
theorem isSome_get? (hnames : h.names.Nodup) {name : String} :
    (h.get? name).isSome = true ↔ name ∈ h.names := by
  rw [Option.isSome_iff_exists, names, List.mem_map]
  exact exists_congr fun c => get?_eq_some hnames

/-- The search through interfaces: from a name to the interfaces that the class of this name names, as far as
    they are at hand. -/
def searchInterfaces (h : Hierarchy) : Worklist String String :=
  ⟨id, h.interfacesOf, fun name => (h.get? name).isSome⟩

/-- `searchInterfaces` comes to its end although it marks a name only when it takes it from the queue
    (`Worklist.EndsTaking`). What it finds, in this order, are the `superinterfaces`. -/
private theorem exists_endsTaking_superinterfaces (hnames : h.names.Nodup) (chain : List ClassFile) :
    ∃ t, h.searchInterfaces.EndsTaking ⟨[], [], chain.flatMap ClassFile.interfaces⟩ t ∧
      h.superinterfaces chain = t.found.filterMap h.get? := by
  have hcounts : ∀ name, (h.get? name).isSome = h.names.contains name := by
    intro name
    rw [Bool.eq_iff_iff, isSome_get? hnames, List.contains_iff_mem]
  -- if names were marked when they are queued, the search would be `closure`
  have hends : ∃ u, h.searchInterfaces.Ends
      (h.searchInterfaces.caughtUp ⟨[], [], chain.flatMap ClassFile.interfaces⟩) u ∧
      u.found = closure h.names h.interfacesOf (chain.flatMap ClassFile.interfaces) :=
    Worklist.exists_ends_closure _ _ (fun name _ => hcounts name) fun _ name _ => hcounts name
  obtain ⟨u, hu, hfound⟩ := hends
  obtain ⟨t, ht, heq⟩ := h.searchInterfaces.exists_endsTaking hu
  exact ⟨t, ht, by rw [superinterfaces, heq, hfound]⟩

/-- `inherited` lists the methods of `superinterfaces` that are neither private nor static. -/
private theorem mem_inherited {chain : List ClassFile} {f : Found} :
    f ∈ h.inherited chain name descriptor ↔
      f.owner ∈ h.superinterfaces chain ∧ f.owner.method? name descriptor = some f.method ∧
        f.method.isPrivate = false ∧ f.method.isStatic = false := by
  simp only [inherited, List.mem_filterMap, Option.filter_eq_some_iff, declared?_eq_some,
    Bool.and_eq_true, Bool.not_eq_true']
  constructor
  · rintro ⟨c, hc, ⟨rfl, hmethod⟩, hkind⟩
    exact ⟨hc, hmethod, hkind⟩
  · rintro ⟨howner, hmethod, hkind⟩
    exact ⟨f.owner, howner, ⟨rfl, hmethod⟩, hkind⟩

/-- `inherited` of the `chain` lists exactly the methods that are `IsInherited`. -/
theorem mem_inherited_chain (hnames : h.names.Nodup) (hwalk : WalkUp h.classes owner (h.chain owner))
    {f : Found} : f ∈ h.inherited (h.chain owner) name descriptor ↔
      IsInherited h.classes owner name descriptor f := by
  simp only [mem_inherited, mem_superinterfaces hnames, hwalk.mem_iff hnames]
  constructor
  · rintro ⟨habove, hdeclared, hprivate, hstatic⟩
    exact ⟨habove, hdeclared, hprivate, hstatic⟩
  · rintro ⟨habove, hdeclared, hprivate, hstatic⟩
    exact ⟨habove, hdeclared, hprivate, hstatic⟩

/-! ### What is taken -/

/-- Where no class on the chain declares the method, `resolve` takes the first one with code of those that the
    search finds, else the first. -/
theorem resolve_of_notDeclared (hnames : h.names.Nodup)
    (hnone : ∀ d, OnChain h.classes owner d → ¬ HasMethod name descriptor d) :
    h.resolve owner name descriptor =
      ((h.inherited (h.chain owner) name descriptor).find? fun f => !f.method.isAbstract).or
        (h.inherited (h.chain owner) name descriptor).head? := by
  have hchain : (h.chain owner).findSome? (declared? name descriptor) = none := by
    rw [List.findSome?_eq_none_iff]
    intro d hd
    have hmethod := hnone d (onChain_of_mem_chainFrom hnames hd)
    rw [declared?, Option.not_isSome_iff_eq_none.1 hmethod]
    rfl
  simp only [resolve, hchain]

end Hierarchy

/-- The first element with a property is taken, else the first. Then it has the property if any has it, and
    whatever else was to choose from comes later or lacks the property that it has. -/
theorem preferred_of_find?_or_head? {α : Type} {xs : List α} {p : α → Bool} {x : α}
    (hx : (xs.find? p).or xs.head? = some x) :
    x ∈ xs ∧ (∀ y ∈ xs, p y = true → p x = true) ∧
      ∀ r : α → α → Prop, xs.Pairwise r → ∀ y ∈ xs, y = x ∨ r x y ∨ (p x = true ∧ p y = false) := by
  rcases Option.or_eq_some_iff.1 hx with hfind | ⟨hfind, hhead⟩
  · -- one with the property: all in front lack it
    obtain ⟨hpx, before, after, rfl, hbefore⟩ := List.find?_eq_some_iff_append.1 hfind
    refine ⟨by simp, fun _ _ _ => hpx, fun r hr y hy => ?_⟩
    rcases List.mem_append.1 hy with hy | hy
    · exact .inr (.inr ⟨hpx, by simpa using hbefore y hy⟩)
    · rcases List.mem_cons.1 hy with rfl | hy
      · exact .inl rfl
      · exact .inr (.inl ((List.pairwise_cons.1 (List.pairwise_append.1 hr).2.1).1 y hy))
  · -- none with the property: the first of all
    obtain ⟨rest, rfl⟩ := List.head?_eq_some_iff.1 hhead
    have hlacks := List.find?_eq_none.1 hfind
    refine ⟨List.mem_cons_self, fun y hy hpy => absurd hpy (hlacks y hy), fun r hr y hy => ?_⟩
    rcases List.mem_cons.1 hy with rfl | hy
    · exact .inl rfl
    · exact .inr (.inl ((List.pairwise_cons.1 hr).1 y hy))

namespace Hierarchy

section
variable {h : Hierarchy} {owner name descriptor : String} (hnames : h.names.Nodup)
  (hwalk : WalkUp h.classes owner (h.chain owner))
  (hnone : ∀ d, OnChain h.classes owner d → ¬ HasMethod name descriptor d)
include hnames hwalk hnone

/-- Where no class on the chain declares the method, `resolve` finds something exactly if there is a method that
    `IsInherited`. -/
theorem isSome_resolve_iff : (h.resolve owner name descriptor).isSome = true ↔
    ∃ f, IsInherited h.classes owner name descriptor f := by
  simp only [resolve_of_notDeclared hnames hnone, ← mem_inherited_chain hnames hwalk]
  generalize h.inherited (h.chain owner) name descriptor = candidates
  -- either choice succeeds only if there is something to choose from
  rw [Option.isSome_or, Bool.or_eq_true, List.find?_isSome, List.isSome_head?]
  constructor
  · rintro (⟨f, hf, -⟩ | hne)
    · exact ⟨f, hf⟩
    · exact List.exists_mem_of_ne_nil candidates (by simpa using hne)
  · rintro ⟨f, hf⟩
    exact .inr (by simpa using List.ne_nil_of_mem hf)

/-- Where no class on the chain declares the method, what `resolve` finds `IsInherited`, and it has code if any
    such method has. -/
theorem isInherited_of_resolve {f : Found} (hf : h.resolve owner name descriptor = some f) :
    IsInherited h.classes owner name descriptor f ∧
      ∀ g, IsInherited h.classes owner name descriptor g → g.method.isAbstract = false →
        f.method.isAbstract = false := by
  rw [resolve_of_notDeclared hnames hnone] at hf
  obtain ⟨hmem, hcode, -⟩ := preferred_of_find?_or_head? hf
  refine ⟨(mem_inherited_chain hnames hwalk).1 hmem, fun g hg hconcrete => ?_⟩
  have hcandidate := (mem_inherited_chain hnames hwalk).2 hg
  simpa using hcode g hcandidate (by rw [hconcrete]; rfl)

end

/-- Where the chain of a name has no cycle, the walk up ends by itself, and so does the search through the
    interfaces of the `chain`, which finds the `superinterfaces`. If a class on the chain declares the method,
    `resolve` gives that of the nearest one. Otherwise it gives something exactly if an interface above the
    chain has a method that is neither private nor static, and then it gives such a method, one with code if
    there is one. -/
theorem resolve_finds {h : Hierarchy} (hnames : h.names.Nodup) {owner : String}
    (hacyclic : ∀ c, OnChain h.classes owner c → ¬ Relation.TransGen (IsSuperclass h.classes) c c)
    (name descriptor : String) :
    WalkUp h.classes owner (h.chain owner) ∧
    (∃ t, h.searchInterfaces.EndsTaking ⟨[], [], (h.chain owner).flatMap ClassFile.interfaces⟩ t ∧
      h.superinterfaces (h.chain owner) = t.found.filterMap h.get?) ∧
    (∀ d, OnChain h.classes owner d → HasMethod name descriptor d →
      ∃ c e m, IsNamed h.classes owner c ∧ Nearest h.classes (HasMethod name descriptor) c e ∧
        e.method? name descriptor = some m ∧ h.resolve owner name descriptor = some ⟨e, m⟩) ∧
    ((∀ d, OnChain h.classes owner d → ¬ HasMethod name descriptor d) →
      ((h.resolve owner name descriptor).isSome = true ↔
        ∃ f, IsInherited h.classes owner name descriptor f) ∧
      ∀ f, h.resolve owner name descriptor = some f →
        IsInherited h.classes owner name descriptor f ∧
          ∀ g, IsInherited h.classes owner name descriptor g → g.method.isAbstract = false →
            f.method.isAbstract = false) := by
  have hwalk := walkUp_chain hnames hacyclic
  refine ⟨hwalk, exists_endsTaking_superinterfaces hnames _, ?_, fun hnone => ?_⟩
  · rintro d ⟨c, hc, hpath⟩ hd
    obtain ⟨e, he⟩ := exists_nearest hpath hd
    obtain ⟨hname, hmem, rfl⟩ := hc
    obtain ⟨m, hm, hresolve⟩ := resolve_of_nearest hnames hmem hname he
    exact ⟨c, e, m, ⟨hname, hmem, rfl⟩, he, hm, hresolve⟩
  · exact ⟨isSome_resolve_iff hnames hwalk hnone, fun f hf => isInherited_of_resolve hnames hwalk hnone hf⟩

/-! ### Interfaces that name each other -/

/-- A class with its place in the hierarchy and its methods. -/
def sketch (name super : String) (access : Nat) (interfaces : List String) (methods : List Method) :
    ClassFile :=
  { path := ⟨[]⟩, minor := 0, major := 52, access, name, super, interfaces, sourceFile := "", methods
    bootstrap := [], pool := ⟨#[]⟩ }

/-- A method without parameters or result that only returns. -/
def returningMethod (name : String) : Method :=
  ⟨1, name, "()V", some ⟨0, 1, [0xb1], []⟩⟩

/-- A method without parameters or result that has no code. -/
def abstractMethod (name : String) : Method :=
  ⟨0x401, name, "()V", none⟩

/-- A class, its superclass, and an interface of each. The interfaces name each other; one has the method `m`
    with code, the other has it without. -/
def roundabout : Hierarchy :=
  .ofClasses
    [sketch "C" "B" 0x21 ["J"] [],
     sketch "B" "java/lang/Object" 0x21 ["K"] [],
     sketch "J" "java/lang/Object" 0x601 ["K"] [abstractMethod "m"],
     sketch "K" "java/lang/Object" 0x601 ["J"] [returningMethod "m"]]

/-- The classes of `roundabout` have different names. -/
private theorem nodup_names_roundabout : roundabout.names.Nodup := by decide

/-- The chain of `C` in `roundabout` is `C` and `B`. -/
private theorem onChain_roundabout {d : ClassFile} (hd : OnChain roundabout.classes "C" d) :
    d.name = "C" ∨ d.name = "B" := by
  obtain ⟨b, hb, hpath⟩ := hd
  have hup : ∀ c ∈ roundabout.classes, c.name = "C" ∨ c.name = "B" →
      ∀ d ∈ roundabout.classes, d.name = c.super → d.name = "C" ∨ d.name = "B" := by decide
  induction hpath with
  | refl => exact .inl hb.2.2
  | @tail c d hbefore hsuper ih =>
    have hc : OnChain roundabout.classes "C" c := ⟨b, hb, hbefore⟩
    exact hup c hc.mem ih d hsuper.2.2.1 hsuper.2.2.2

/-- The only step up in `roundabout` is that from `C` to `B`, so its chains have no cycle. -/
private theorem acyclic_roundabout (c : ClassFile) (hc : OnChain roundabout.classes "C" c) :
    ¬ Relation.TransGen (IsSuperclass roundabout.classes) c c := by
  have hup : ∀ c ∈ roundabout.classes, ∀ d ∈ roundabout.classes, c.isInterface = false →
      d.name = c.super → c.name = "C" ∧ d.name = "B" := by decide
  -- the first step of a cycle leaves `C`, and the last one enters `B`
  intro hcycle
  obtain ⟨d, hfirst, -⟩ := Relation.TransGen.head'_iff.1 hcycle
  obtain ⟨b, hpath, hlast⟩ := Relation.TransGen.tail'_iff.1 hcycle
  have hC := (hup c hc.mem d hfirst.2.2.1 hfirst.1 hfirst.2.2.2).1
  have hB := (hup b (hc.trans hpath).mem c hc.mem hlast.1 hlast.2.2.2).2
  rw [hC] at hB
  exact absurd hB (by decide)

/-- `resolve_finds` on `roundabout`: the chain of `C` leads to the method with code, past the one without. -/
theorem resolve_finds_roundabout : WalkUp roundabout.classes "C" (roundabout.chain "C") ∧
    (∃ t, roundabout.searchInterfaces.EndsTaking
      ⟨[], [], (roundabout.chain "C").flatMap ClassFile.interfaces⟩ t) ∧
    ∃ f, roundabout.resolve "C" "m" "()V" = some f ∧ f.owner.name = "K" ∧ f.method.isAbstract = false := by
  obtain ⟨hwalk, ⟨t, ht, -⟩, -, hinherited⟩ := resolve_finds nodup_names_roundabout acyclic_roundabout "m" "()V"
  have hnone : ∀ d, OnChain roundabout.classes "C" d → ¬ HasMethod "m" "()V" d := by
    intro d hd
    have hlack : ∀ d ∈ roundabout.classes, d.name = "C" ∨ d.name = "B" → d.method? "m" "()V" = none := by
      decide
    unfold HasMethod
    rw [hlack d hd.mem (onChain_roundabout hd)]
    exact Bool.false_ne_true
  obtain ⟨hfound, htaken⟩ := hinherited hnone
  -- `C` leads to `K` by way of `J`
  have hK : IsInherited roundabout.classes "C" "m" "()V"
      ⟨sketch "K" "java/lang/Object" 0x601 ["J"] [returningMethod "m"], returningMethod "m"⟩ := by
    refine ⟨⟨sketch "C" "B" 0x21 ["J"] [], IsNamed.onChain ⟨by decide, by decide, rfl⟩, ?_⟩, by decide,
      by decide, by decide⟩
    exact .tail (.single (b := sketch "J" "java/lang/Object" 0x601 ["K"] [abstractMethod "m"])
      ⟨by decide, by decide⟩) ⟨by decide, by decide⟩
  obtain ⟨f, hf⟩ := Option.isSome_iff_exists.1 (hfound.2 ⟨_, hK⟩)
  obtain ⟨hinherited, hcode⟩ := htaken f hf
  have hconcrete := hcode _ hK (by decide)
  -- `J` has the method too, but without code
  have honly : ∀ c ∈ roundabout.classes, ∀ m, c.method? "m" "()V" = some m → m.isAbstract = false →
      c.name = "K" := by decide
  exact ⟨hwalk, ⟨t, ht⟩, f, hf, honly _ hinherited.mem _ hinherited.declared hconcrete, hconcrete⟩

end Hierarchy
end CallAtlas.Program
