import CallAtlas.ClassFile.Parse
import CallAtlas.Proofs.ClassFile.Emission

/-!
# The names of a written class

When the code is written, every name of the class is given an index. `Layout.Names` says what the indices
of a layout lead to, and `writes_layout` that they do so in the pool that is written in the end. Naming
adds no bootstrap method (`keeps_layout`).
-/

namespace CallAtlas.ClassFile.Assembler

/-! ### Bootstrap methods stay -/

/-- A piece of assembly that leaves the bootstrap methods alone. -/
def Keeps {α : Type} (x : Assembly α) : Prop :=
  ∀ s, (x s).2.bootstrap = s.bootstrap

namespace Keeps

variable {α β : Type}

theorem pure (a : α) : Keeps (Pure.pure a) := by
  intro s
  rfl

/-- A sequence `Keeps` the bootstrap methods if both of its steps do. -/
theorem bind {x : Assembly α} {f : α → Assembly β} (hx : Keeps x) (hf : ∀ a, Keeps (f a)) :
    Keeps (x >>= f) := by
  intro s
  exact (hf _ _).trans (hx s)

/-- A choice `Keeps` the bootstrap methods if both of its branches do. -/
theorem ite {c : Prop} [Decidable c] {x y : Assembly α} (hx : Keeps x) (hy : Keeps y) :
    Keeps (if c then x else y) := by
  split
  · exact hx
  · exact hy

/-- Steps for the items of a list `Keeps` the bootstrap methods if each step does. -/
theorem mapM {f : α → Assembly β} (hf : ∀ a, Keeps (f a)) (xs : List α) : Keeps (xs.mapM f) := by
  induction xs with
  | nil =>
    rw [List.mapM_nil]
    exact pure []
  | cons x xs ih =>
    rw [List.mapM_cons]
    exact (hf x).bind fun _ => ih.bind fun _ => pure _

end Keeps

/-- `share` adds at most a constant. -/
private theorem keeps_share (key : String) (c : Constant) : Keeps (share key c) := by
  intro s
  cases hi : s.constants.index? key with
  | some i => rw [share_of_some hi]
  | none => rw [share_of_none hi, State.push]

/-- `shareText` adds no bootstrap method. -/
theorem keeps_text (s : String) : Keeps (shareText s) :=
  keeps_share _ _

/-- `shareClass` adds no bootstrap method. -/
theorem keeps_class (name : String) : Keeps (shareClass name) :=
  (keeps_text name).bind fun _ => keeps_share _ _

private theorem keeps_super (name : String) : Keeps (shareSuper name) :=
  .ite (.pure 0) (keeps_class name)

/-- `nameMethod` adds no bootstrap method. -/
private theorem keeps_nameMethod (m : WrittenMethod) : Keeps (nameMethod m) :=
  (keeps_text _).bind fun _ => (keeps_text _).bind fun _ => .pure _

/-- `sourceAttribute` adds no bootstrap method. -/
private theorem keeps_sourceAttribute (source : String) : Keeps (sourceAttribute source) :=
  .ite (.pure []) ((keeps_text _).bind fun _ => (keeps_text _).bind fun _ => .pure _)

/-- `bootstrapAttribute` writes the bootstrap methods that there are, and adds none. -/
private theorem keeps_bootstrapAttribute (table : List Bootstrap) : Keeps (bootstrapAttribute table) :=
  .ite (.pure []) ((keeps_text _).bind fun _ => .pure _)

/-- `layout` adds no bootstrap method. -/
theorem keeps_layout (c : ClassSpec) (methods : List WrittenMethod) : Keeps (layout c methods) := by
  have hget : Keeps (get : Assembly State) := fun _ => rfl
  refine (keeps_class _).bind fun _ => (keeps_super _).bind fun _ => ?_
  refine (Keeps.mapM keeps_class _).bind fun _ => (keeps_text _).bind fun _ => ?_
  refine (keeps_text _).bind fun _ => (Keeps.mapM keeps_nameMethod _).bind fun _ => ?_
  refine (keeps_sourceAttribute _).bind fun _ => hget.bind fun _ => ?_
  exact (keeps_bootstrapAttribute _).bind fun _ => .pure _

/-! ### Names -/

/-- What the attributes of a class say. -/
def details (c : ClassSpec) (table : List Bootstrap) : List ClassDetail :=
  (if c.source.isEmpty then [] else [.sourceFile c.source]) ++
    if table.isEmpty then [] else [.bootstrap table]

/-- The name and the content of an attribute that says something. -/
def Says (p : Pool) : ClassDetail → Nat × List UInt8 → Prop
  | .sourceFile s, (name, content) =>
    p.text name = .ok "SourceFile" ∧ ∃ i, content = word16 i ∧ p.text i = .ok s
  | .bootstrap table, (name, content) =>
    p.text name = .ok "BootstrapMethods" ∧ content = bootstrapTable table
  | .other, _ => False

/-- The indices of a layout lead to the names of a class with these bootstrap methods. -/
structure Layout.Names (c : ClassSpec) (methods : List WrittenMethod) (table : List Bootstrap)
    (p : Pool) (l : Layout) : Prop where
  access : l.access = if c.isInterface then 0x0601 else 0x0021
  this : p.className l.this = .ok c.name
  super : if c.super.isEmpty then l.super = 0 else p.className l.super = .ok c.super
  interfaces : List.Forall₂ (fun name i => p.className i = .ok name) c.interfaces l.interfaces
  code : p.text l.codeAttribute = .ok "Code"
  lines : p.text l.lineAttribute = .ok "LineNumberTable"
  methods : List.Forall₂ (fun w m => m.1 = w ∧ p.text m.2.1 = .ok w.spec.name ∧
    p.text m.2.2 = .ok w.spec.descriptor) methods l.methods
  attributes : List.Forall₂ (Says p) (details c table) l.attributes

section
variable {s : State} (hs : s.Sound)
include hs

/-- `shareSuper` writes the superclass, or zero for none. -/
private theorem writes_super {name : String} (hname : isWritable name) :
    Writes s (shareSuper name) fun i p _ =>
      if name.isEmpty then i = 0 else p.className i = .ok name := by
  unfold shareSuper
  split
  · exact .pure hs fun _ _ _ => rfl
  · exact writes_class hs hname

/-- `nameMethod` writes the name and the descriptor of a method. -/
private theorem writes_nameMethod {w : WrittenMethod} (hname : isWritable w.spec.name)
    (hdescriptor : isWritable w.spec.descriptor) :
    Writes s (nameMethod w) fun m p _ => m.1 = w ∧ p.text m.2.1 = .ok w.spec.name ∧
      p.text m.2.2 = .ok w.spec.descriptor := by
  refine (writes_text hs hname).bind fun n s₁ hs₁ _ hn => ?_
  refine (writes_text hs₁ hdescriptor).bind fun d s₂ hs₂ h₁₂ hd => .pure hs₂ fun p table hw => ?_
  exact ⟨rfl, hn (hw.of_extends h₁₂), hd hw⟩

/-- `sourceAttribute` writes an attribute that says the name of the source, if there is one. -/
private theorem writes_sourceAttribute {source : String} (hsource : isWritable source) :
    Writes s (sourceAttribute source) fun as p _ =>
      List.Forall₂ (Says p) (if source.isEmpty then [] else [.sourceFile source]) as := by
  unfold sourceAttribute
  split
  · exact .pure hs fun _ _ _ => .nil
  · refine (writes_text hs (by decide +kernel)).bind fun n s₁ hs₁ _ hn => ?_
    refine (writes_text hs₁ hsource).bind fun i s₂ hs₂ h₁₂ hi => .pure hs₂ fun p table hw => ?_
    exact .cons ⟨hn (hw.of_extends h₁₂), i, rfl, hi hw⟩ .nil

/-- `bootstrapAttribute` writes an attribute that holds the bootstrap methods, if there are any. -/
private theorem writes_bootstrapAttribute (methods : List Bootstrap) :
    Writes s (bootstrapAttribute methods) fun as p _ =>
      List.Forall₂ (Says p) (if methods.isEmpty then [] else [.bootstrap methods]) as := by
  unfold bootstrapAttribute
  split
  · exact .pure hs fun _ _ _ => .nil
  · refine (writes_text hs (by decide +kernel)).bind fun n s₁ hs₁ _ hn => .pure hs₁ fun p _ hw => ?_
    exact .cons ⟨hn hw, rfl⟩ .nil

/-- `layout` names what the class and its written methods do. -/
theorem writes_layout {c : ClassSpec} {methods : List WrittenMethod} (hname : isWritable c.name)
    (hsuper : isWritable c.super) (hinterfaces : ∀ i ∈ c.interfaces, isWritable i)
    (hsource : isWritable c.source)
    (hmethods : ∀ w ∈ methods, isWritable w.spec.name ∧ isWritable w.spec.descriptor) :
    Writes s (layout c methods) fun l p table =>
      ∃ t, s.bootstrap <+: t ∧ t <+: table ∧ l.Names c methods t p := by
  -- one name after the other, each with the state that it was written in
  refine (writes_class hs hname).bind fun this s₁ hs₁ h₀₁ hthis => ?_
  refine (writes_super hs₁ hsuper).bind fun super s₂ hs₂ h₁₂ hsuper => ?_
  refine (Writes.mapM hs₂ fun i hi s hs => writes_class hs (hinterfaces i hi)).bind
    fun interfaces s₃ hs₃ h₂₃ hinterfaces => ?_
  refine (writes_text hs₃ (by decide +kernel)).bind fun code s₄ hs₄ h₃₄ hcode => ?_
  refine (writes_text hs₄ (by decide +kernel)).bind fun lines s₅ hs₅ h₄₅ hlines => ?_
  refine (Writes.mapM hs₅ fun w hw s hs =>
    writes_nameMethod hs (hmethods w hw).1 (hmethods w hw).2).bind fun ms s₆ hs₆ h₅₆ hms => ?_
  refine (writes_sourceAttribute hs₆ hsource).bind fun source s₇ hs₇ h₆₇ hsource => ?_
  -- the bootstrap methods are looked at when all that could add one is done
  have hget : Writes s₇ (get : Assembly State) fun t _ _ => t = s₇ :=
    ⟨hs₇, State.Extends.refl s₇, fun _ _ _ => rfl⟩
  refine hget.bind fun t s₈ hs₈ h₇₈ ht => ?_
  obtain rfl : t = s₇ := ht s₈.within_self
  refine (writes_bootstrapAttribute hs₈ t.bootstrap).bind fun bootstrap s₉ hs₉ h₈₉ hbootstrap => ?_
  refine .pure hs₉ fun p table hw => ?_
  -- what was named early on is still there in the end
  have hw₇ := hw.of_extends (h₇₈.trans h₈₉)
  have hw₆ := hw₇.of_extends h₆₇
  have hw₅ := hw₆.of_extends h₅₆
  have hw₄ := hw₅.of_extends h₄₅
  have hw₃ := hw₄.of_extends h₃₄
  have hw₂ := hw₃.of_extends h₂₃
  have hw₁ := hw₂.of_extends h₁₂
  have hfirst := h₀₁.trans (h₁₂.trans (h₂₃.trans (h₃₄.trans (h₄₅.trans (h₅₆.trans h₆₇)))))
  exact ⟨t.bootstrap, hfirst.2, hw₇.bootstrap,
    { access := rfl
      this := hthis hw₁
      super := hsuper hw₂
      interfaces := hinterfaces hw₃
      code := hcode hw₄
      lines := hlines hw₅
      methods := hms hw₆
      attributes := List.rel_append (hsource hw₇) (hbootstrap hw) }⟩

end
end CallAtlas.ClassFile.Assembler
