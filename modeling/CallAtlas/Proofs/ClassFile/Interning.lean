import Mathlib.Data.List.Forall2
import CallAtlas.Proofs.ClassFile.Encoding
import CallAtlas.Proofs.ClassFile.Lookup
import CallAtlas.Proofs.Facts.Key

/-!
# Sharing constants

The assembler shares constants by keys, which are texts put together from names and numbers. A key tells
what its constant means (`Key.Means`), and keys of different meaning are different texts (`render_inj`)
as long as names are free of the characters that part them. So the constant that is found for a key
means what a new one would (`writes_share`).

Constants are only ever added. `Writes` says so of a piece of assembly, together with what its result
means in every pool that may come of it; what one piece has written can be used in all later ones
(`Writes.bind`).
-/

namespace CallAtlas.ClassFile.Assembler

/-! ### Keys -/

/-- What constants are shared by. -/
inductive Key where
  | text (s : String)
  | className (name : String)
  | nameAndType (name descriptor : String)
  | method (owner name descriptor : String)
  | interfaceMethod (owner name descriptor : String)
  | handle (reference : Nat)
  | methodType (descriptor : String)
  | dynamic (bootstrap member : Nat)

namespace Key

/-- The key as the assembler writes it. -/
def render : Key → String
  | text s => "u:" ++ s
  | className name => "c:" ++ name
  | nameAndType name descriptor => "n:" ++ name ++ ":" ++ descriptor
  | method owner name descriptor => "m10:" ++ owner ++ "." ++ name ++ descriptor
  | interfaceMethod owner name descriptor => "m11:" ++ owner ++ "." ++ name ++ descriptor
  | handle reference => s!"h:{staticHandle}:{reference}"
  | methodType descriptor => "t:" ++ descriptor
  | dynamic bootstrap member => s!"i:{bootstrap}:{member}"

/-- The characters of a key. -/
def spell : Key → List Char
  | text s => 'u' :: ':' :: s.toList
  | className name => 'c' :: ':' :: name.toList
  | nameAndType name descriptor => 'n' :: ':' :: (name.toList ++ ':' :: descriptor.toList)
  | method owner name descriptor =>
    'm' :: '1' :: '0' :: ':' :: (owner.toList ++ '.' :: (name.toList ++ descriptor.toList))
  | interfaceMethod owner name descriptor =>
    'm' :: '1' :: '1' :: ':' :: (owner.toList ++ '.' :: (name.toList ++ descriptor.toList))
  | handle reference => 'h' :: ':' :: '6' :: ':' :: Nat.toDigits 10 reference
  | methodType descriptor => 't' :: ':' :: descriptor.toList
  | dynamic bootstrap member =>
    'i' :: ':' :: (Nat.toDigits 10 bootstrap ++ ':' :: Nat.toDigits 10 member)

/-- The names in a key are free of the characters that part it. -/
def IsClear : Key → Prop
  | nameAndType name _ => ':' ∉ name.toList
  | method owner name descriptor =>
    '.' ∉ owner.toList ∧ '(' ∉ name.toList ∧ ∃ rest, descriptor.toList = '(' :: rest
  | interfaceMethod owner name descriptor =>
    '.' ∉ owner.toList ∧ '(' ∉ name.toList ∧ ∃ rest, descriptor.toList = '(' :: rest
  | _ => True

/-- The characters of `render` are those of `spell`. -/
private theorem toList_render (k : Key) : k.render.toList = k.spell := by
  cases k with
  | handle r =>
    show ("h:" ++ toString staticHandle ++ ":" ++ toString r).toList = _
    simp [spell, staticHandle]
    rfl
  | dynamic b t =>
    show ("i:" ++ toString b ++ ":" ++ toString t).toList = _
    simp [spell]
  | _ => simp [render, spell]

/-- The parts of a member are told apart by the first point and the first bracket. -/
private theorem member_inj {o o' n n' d d' : String} (ho : '.' ∉ o.toList) (ho' : '.' ∉ o'.toList)
    (hn : '(' ∉ n.toList) (hn' : '(' ∉ n'.toList) (hd : ∃ rest, d.toList = '(' :: rest)
    (hd' : ∃ rest, d'.toList = '(' :: rest)
    (h : o.toList ++ '.' :: (n.toList ++ d.toList) = o'.toList ++ '.' :: (n'.toList ++ d'.toList)) :
    o = o' ∧ n = n' ∧ d = d' := by
  -- up to the first point stands the owner, and up to the first bracket the name
  obtain ⟨hoo, hrest⟩ := Text.cut_first ho ho' h
  obtain ⟨r, hr⟩ := hd
  obtain ⟨r', hr'⟩ := hd'
  rw [hr, hr'] at hrest
  obtain ⟨hnn, hdd⟩ := Text.cut_first hn hn' hrest
  refine ⟨String.toList_inj.1 hoo, String.toList_inj.1 hnn, String.toList_inj.1 ?_⟩
  rw [hr, hr', hdd]

/-- Clear keys are told apart by `render`. -/
theorem render_inj {k k' : Key} (hk : k.IsClear) (hk' : k'.IsClear) (h : k.render = k'.render) :
    k = k' := by
  have h := congrArg String.toList h
  rw [toList_render, toList_render] at h
  -- the first characters tell the kinds of key apart
  cases k with
  | text s =>
    cases k' with
    | text s' => rw [String.toList_inj.1 (List.cons.inj (List.cons.inj h).2).2]
    | _ => simp [spell] at h
  | className n =>
    cases k' with
    | className n' => rw [String.toList_inj.1 (List.cons.inj (List.cons.inj h).2).2]
    | _ => simp [spell] at h
  | nameAndType n d =>
    -- in the same kind the parts are cut apart where their names cannot reach
    cases k' with
    | nameAndType n' d' =>
      obtain ⟨hn, hd⟩ := Text.cut_first hk hk' (List.cons.inj (List.cons.inj h).2).2
      rw [String.toList_inj.1 hn, String.toList_inj.1 hd]
    | _ => simp [spell] at h
  | method o n d =>
    cases k' with
    | method o' n' d' =>
      simp only [spell, List.cons.injEq, true_and] at h
      obtain ⟨rfl, rfl, rfl⟩ := member_inj hk.1 hk'.1 hk.2.1 hk'.2.1 hk.2.2 hk'.2.2 h
      rfl
    | _ => simp [spell] at h
  | interfaceMethod o n d =>
    cases k' with
    | interfaceMethod o' n' d' =>
      simp only [spell, List.cons.injEq, true_and] at h
      obtain ⟨rfl, rfl, rfl⟩ := member_inj hk.1 hk'.1 hk.2.1 hk'.2.1 hk.2.2 hk'.2.2 h
      rfl
    | _ => simp [spell] at h
  | handle r =>
    -- numbers are told apart by their digits
    cases k' with
    | handle r' =>
      simp only [spell, List.cons.injEq, true_and] at h
      rw [Location.toDigits_inj h]
    | _ => simp [spell] at h
  | methodType d =>
    cases k' with
    | methodType d' => rw [String.toList_inj.1 (List.cons.inj (List.cons.inj h).2).2]
    | _ => simp [spell] at h
  | dynamic b t =>
    cases k' with
    | dynamic b' t' =>
      simp only [spell, List.cons.injEq, true_and] at h
      obtain ⟨hb, ht⟩ := Text.cut_first (Location.notMem_toDigits (by decide) b)
        (Location.notMem_toDigits (by decide) b') h
      rw [Location.toDigits_inj hb, Location.toDigits_inj ht]
    | _ => simp [spell] at h

/-- What stands at an index of a pool is what the key says. -/
def Means (p : Pool) (i : Nat) : Key → Prop
  | text s => p.text i = .ok s
  | className name => p.className i = .ok name
  | nameAndType name descriptor => p.nameAndType i = .ok (name, descriptor)
  | method owner name descriptor =>
    ∃ o t, p.get i = .ok (.methodRef o t) ∧ p.member 10 o t = .ok ⟨10, owner, name, descriptor⟩
  | interfaceMethod owner name descriptor =>
    ∃ o t, p.get i = .ok (.interfaceMethodRef o t) ∧
      p.member 11 o t = .ok ⟨11, owner, name, descriptor⟩
  | handle reference => p.get i = .ok (.methodHandle staticHandle reference)
  | methodType descriptor => ∃ d, p.get i = .ok (.methodType d) ∧ p.text d = .ok descriptor
  | dynamic bootstrap member => p.get i = .ok (.invokeDynamic bootstrap member)

/-- What a key `Means` in a pool, it means in all that extend it. -/
theorem Means.mono {p q : Pool} (hpq : p.Extends q) {i : Nat} {k : Key} (h : k.Means p i) :
    k.Means q i := by
  cases k with
  | text s => exact hpq.text h
  | className name => exact hpq.className h
  | nameAndType name descriptor => exact hpq.nameAndType h
  | method owner name descriptor =>
    obtain ⟨o, t, hi, hr⟩ := h
    exact ⟨o, t, hpq hi, hpq.member hr⟩
  | interfaceMethod owner name descriptor =>
    obtain ⟨o, t, hi, hr⟩ := h
    exact ⟨o, t, hpq hi, hpq.member hr⟩
  | handle reference => exact hpq h
  | methodType descriptor =>
    obtain ⟨d, hi, hd⟩ := h
    exact ⟨d, hpq hi, hpq.text hd⟩
  | dynamic bootstrap member => exact hpq h

/-- A constant that `Means` something stands below the size of the pool. -/
theorem Means.lt_size {p : Pool} {i : Nat} {k : Key} (h : k.Means p i) : i < p.size := by
  cases k with
  | text s => exact Pool.lt_size_of_get (Pool.text_eq_ok.1 h)
  | className name =>
    obtain ⟨n, hn, -⟩ := Pool.className_eq_ok.1 h
    exact Pool.lt_size_of_get hn
  | nameAndType name descriptor =>
    obtain ⟨n, d, hnd, -⟩ := Pool.nameAndType_eq_ok.1 h
    exact Pool.lt_size_of_get hnd
  | method owner name descriptor =>
    obtain ⟨o, t, hi, -⟩ := h
    exact Pool.lt_size_of_get hi
  | interfaceMethod owner name descriptor =>
    obtain ⟨o, t, hi, -⟩ := h
    exact Pool.lt_size_of_get hi
  | handle reference => exact Pool.lt_size_of_get h
  | methodType descriptor =>
    obtain ⟨d, hi, -⟩ := h
    exact Pool.lt_size_of_get hi
  | dynamic bootstrap member => exact Pool.lt_size_of_get h

end Key

/-! ### States -/

namespace State

/-- The pool as it would be read now. -/
def pool (s : State) : Pool :=
  poolOf (s.constants.entries.map Prod.snd)

/-- Constants and bootstrap methods were added, if any, behind the others. -/
def Extends (s s' : State) : Prop :=
  s.constants.entries <+: s'.constants.entries ∧ s.bootstrap <+: s'.bootstrap

/-- Every constant means what its key says, and all numbers stay within bounds. -/
structure Sound (s : State) : Prop where
  means : ∀ i key c, s.constants.entries[i]? = some (key, c) →
    ∃ k : Key, k.IsClear ∧ key = k.render ∧ k.Means s.pool (i + 1)
  fits : ∀ e ∈ s.constants.entries, e.2.Fits s.constants.entries.length s.bootstrap.length
  bootstrap : ∀ b ∈ s.bootstrap, b.handle ≤ s.constants.entries.length ∧
    b.arguments.length ≤ 3 ∧ ∀ a ∈ b.arguments, a ≤ s.constants.entries.length

theorem Extends.refl (s : State) : s.Extends s :=
  ⟨List.prefix_rfl, List.prefix_rfl⟩

theorem Extends.trans {s t u : State} (h : s.Extends t) (h' : t.Extends u) : s.Extends u :=
  ⟨h.1.trans h'.1, h.2.trans h'.2⟩

end State

/-- The constant at index `i + 1` of `poolOf` is the `i`-th of the list. -/
private theorem get_poolOf {cs : List Constant} {i : Nat} {c : Constant} :
    (poolOf cs).get (i + 1) = .ok c ↔ cs[i]? = some c := by
  simp only [Pool.get, poolOf, Nat.add_one_ne_zero, if_false, List.getElem?_toArray,
    List.getElem?_cons_succ]
  cases cs[i]? with
  | none => simp
  | some d => simp

/-- The pool of a state has one place more than there are constants. -/
theorem size_pool (s : State) : s.pool.size = s.constants.entries.length + 1 := by
  simp [State.pool, poolOf, Pool.size]

/-- A pool of more constants `Extends` that of the first ones. -/
private theorem poolOf_extends {cs ds : List Constant} (h : cs <+: ds) : (poolOf cs).Extends (poolOf ds) := by
  intro i c hc
  cases i with
  | zero => exact nomatch hc
  | succ i =>
    obtain ⟨more, rfl⟩ := h
    rw [get_poolOf] at hc ⊢
    rw [List.getElem?_append_left (List.getElem?_eq_some_iff.1 hc).1, hc]

/-- The pool of a state that was extended `Extends` that of the state before. -/
theorem State.Extends.pool {s s' : State} (h : s.Extends s') : s.pool.Extends s'.pool :=
  poolOf_extends (h.1.map Prod.snd)

/-- The state without constants is `Sound`. -/
theorem sound_empty : State.Sound ⟨.empty, []⟩ :=
  ⟨fun _ _ _ => nofun, fun _ => nofun, fun _ => nofun⟩

/-- An index inside the pool is at most the number of constants. -/
theorem le_of_lt_size {s : State} {i : Nat} (h : i < s.pool.size) :
    i ≤ s.constants.entries.length := by
  rw [size_pool] at h
  omega

/-- A pool and bootstrap methods that may come of a state. -/
structure State.Within (s : State) (p : Pool) (table : List Bootstrap) : Prop where
  pool : s.pool.Extends p
  bootstrap : s.bootstrap <+: table

/-- The pool and the bootstrap methods of a state may come of it. -/
theorem State.within_self (s : State) : s.Within s.pool s.bootstrap :=
  ⟨Pool.Extends.refl _, List.prefix_rfl⟩

/-- What may come of a later state may come of an earlier one. -/
theorem State.Within.of_extends {s s' : State} {p : Pool} {table : List Bootstrap}
    (h : s.Extends s') (hw : s'.Within p table) : s.Within p table :=
  ⟨fun _ _ hi => hw.pool (h.pool hi), h.2.trans hw.bootstrap⟩

/-- From a state, assembly comes to a sound one that was only extended, and its result has a property in
    whatever may come of that. -/
structure Writes {α : Type} (s : State) (x : Assembly α) (holds : α → Pool → List Bootstrap → Prop) :
    Prop where
  sound : (x s).2.Sound
  extended : s.Extends (x s).2
  holds : ∀ ⦃p table⦄, (x s).2.Within p table → holds (x s).1 p table

namespace Writes

variable {α β : Type} {s : State}

/-- `pure` writes nothing. -/
theorem pure {a : α} {P : α → Pool → List Bootstrap → Prop} (hs : s.Sound)
    (h : ∀ ⦃p table⦄, s.Within p table → P a p table) : Writes s (Pure.pure a) P :=
  ⟨hs, State.Extends.refl s, h⟩

/-- What the first step has written is there for good, so that the second may rely on it. -/
theorem bind {x : Assembly α} {f : α → Assembly β} {P : α → Pool → List Bootstrap → Prop}
    {Q : β → Pool → List Bootstrap → Prop} (hx : Writes s x P)
    (hf : ∀ a s₁, s₁.Sound → s.Extends s₁ → (∀ ⦃p table⦄, s₁.Within p table → P a p table) →
      Writes s₁ (f a) Q) : Writes s (x >>= f) Q := by
  have hlast := hf _ _ hx.sound hx.extended hx.holds
  exact ⟨hlast.sound, hx.extended.trans hlast.extended, hlast.holds⟩

/-- What holds of all that may come of the state may be used for the result of `Writes`. -/
theorem imp {x : Assembly α} {P Q : α → Pool → List Bootstrap → Prop} (hx : Writes s x P)
    (h : ∀ ⦃a p table⦄, s.Within p table → P a p table → Q a p table) : Writes s x Q :=
  ⟨hx.sound, hx.extended, fun _ _ hw => h (hw.of_extends hx.extended) (hx.holds hw)⟩

/-- `mapM` writes for the items of a list, one after the other. -/
theorem mapM {f : α → Assembly β} {P : α → β → Pool → List Bootstrap → Prop} {xs : List α}
    (hs : s.Sound) (hf : ∀ x ∈ xs, ∀ s, s.Sound → Writes s (f x) (P x)) :
    Writes s (xs.mapM f) fun ys p table => List.Forall₂ (fun x y => P x y p table) xs ys := by
  induction xs generalizing s with
  | nil =>
    rw [List.mapM_nil]
    exact pure hs fun _ _ _ => .nil
  | cons x xs ih =>
    rw [List.mapM_cons]
    refine (hf x List.mem_cons_self s hs).bind fun y s₁ hs₁ _ hy => ?_
    refine (ih hs₁ fun z hz => hf z (List.mem_cons_of_mem x hz)).bind fun ys s₂ hs₂ hs₁₂ hys => ?_
    -- the first result was stated of an earlier state, and holds of what comes later too
    exact pure hs₂ fun p table hw => .cons (hy (hw.of_extends hs₁₂)) (hys hw)

end Writes

/-! ### Sharing by a key -/

/-- `index?` finds the constant with the key that was asked for. -/
private theorem getElem?_of_index? {p : Constants} {key : String} {i : Nat} (h : p.index? key = some i) :
    ∃ j c, i = j + 1 ∧ p.entries[j]? = some (key, c) := by
  obtain ⟨j, hj, rfl⟩ := Option.map_eq_some_iff.1 h
  obtain ⟨hlt, hkey, -⟩ := List.findIdx?_eq_some_iff_getElem.1 hj
  refine ⟨j, p.entries[j].2, rfl, ?_⟩
  rw [List.getElem?_eq_getElem hlt, ← eq_of_beq hkey]

/-- Adds a constant under a key. -/
def State.push (s : State) (key : String) (c : Constant) : State :=
  { s with constants := ⟨s.constants.entries ++ [(key, c)]⟩ }

/-- `push` adds one constant. -/
private theorem State.length_push (s : State) (key : String) (c : Constant) :
    (s.push key c).constants.entries.length = s.constants.entries.length + 1 :=
  List.length_append

/-- `push` only extends the state. -/
private theorem State.extends_push (s : State) (key : String) (c : Constant) : s.Extends (s.push key c) :=
  ⟨List.prefix_append _ _, List.prefix_rfl⟩

/-- `share` finds what has the key already. -/
theorem share_of_some {s : State} {key : String} {i : Nat} (h : s.constants.index? key = some i)
    (c : Constant) : share key c s = (i, s) := by
  simp only [share, modifyGet, MonadStateOf.modifyGet, StateT.modifyGet, h]
  rfl

/-- `share` adds a constant whose key is new. -/
theorem share_of_none {s : State} {key : String} (h : s.constants.index? key = none) (c : Constant) :
    share key c s = (s.constants.entries.length + 1, s.push key c) := by
  simp only [share, modifyGet, MonadStateOf.modifyGet, StateT.modifyGet, h]
  rfl

/-- A constant that `push` adds means what its key says, and the state stays `Sound`. -/
private theorem sound_push {s : State} (hs : s.Sound) {k : Key} (hk : k.IsClear) {c : Constant}
    (hfits : c.Fits s.constants.entries.length s.bootstrap.length)
    (hmeans : ∀ ⦃p table⦄, s.Within p table → ∀ ⦃i⦄, p.get i = .ok c → k.Means p i) :
    (s.push k.render c).Sound ∧
      k.Means (s.push k.render c).pool (s.constants.entries.length + 1) := by
  have hextended := s.extends_push k.render c
  have hlength := s.length_push k.render c
  -- the new constant stands at the first index that was free
  have hget : (s.push k.render c).pool.get (s.constants.entries.length + 1) = .ok c := by
    rw [State.pool, get_poolOf]
    simp [State.push]
  have hnew := hmeans ((State.within_self _).of_extends hextended) hget
  refine ⟨⟨?_, ?_, ?_⟩, hnew⟩
  · intro i key d hi
    rw [State.push, List.getElem?_append] at hi
    split at hi
    · -- an old one means what it did, now in a longer pool
      obtain ⟨k', hk', hkey, hmeans'⟩ := hs.means i key d hi
      exact ⟨k', hk', hkey, hmeans'.mono hextended.pool⟩
    · next hle =>
      -- the new constant stands behind all others
      rw [List.getElem?_singleton] at hi
      split at hi
      · next hzero =>
        obtain ⟨rfl, rfl⟩ := Prod.mk.inj (Option.some.inj hi)
        have hi : i = s.constants.entries.length := by omega
        exact ⟨k, hk, rfl, hi ▸ hnew⟩
      · exact nomatch hi
  · intro e he
    rcases List.mem_append.1 he with he | he
    · exact (hs.fits e he).mono (by rw [hlength]; omega) (Nat.le_refl _)
    · rw [List.mem_singleton.1 he]
      exact hfits.mono (by rw [hlength]; omega) (Nat.le_refl _)
  · intro b hb
    obtain ⟨hhandle, hcount, harguments⟩ := hs.bootstrap b hb
    simp only [hlength]
    exact ⟨by omega, hcount, fun a ha => Nat.le_succ_of_le (harguments a ha)⟩

/-- `share` finds or adds a constant that means what the key says. -/
theorem writes_share {s : State} (hs : s.Sound) {k : Key} (hk : k.IsClear) {c : Constant}
    (hfits : c.Fits s.constants.entries.length s.bootstrap.length)
    (hmeans : ∀ ⦃p table⦄, s.Within p table → ∀ ⦃i⦄, p.get i = .ok c → k.Means p i) :
    Writes s (share k.render c) fun i p _ => k.Means p i := by
  cases hi : s.constants.index? k.render with
  | some i =>
    -- what was found has the same key, hence the same meaning
    obtain ⟨j, d, rfl, hj⟩ := getElem?_of_index? hi
    obtain ⟨k', hk', hrender, hmeans'⟩ := hs.means j k.render d hj
    obtain rfl := Key.render_inj hk hk' hrender
    constructor <;> rw [share_of_some hi]
    · exact hs
    · exact State.Extends.refl s
    · exact fun p table hw => hmeans'.mono hw.pool
  | none =>
    obtain ⟨hsound, hnew⟩ := sound_push hs hk hfits hmeans
    constructor <;> rw [share_of_none hi]
    · exact hsound
    · exact s.extends_push k.render c
    · exact fun p table hw => hnew.mono hw.pool

/-! ### What is shared -/

/-- The parts of a member can be written and told apart. -/
def isMember (owner name descriptor : String) : Bool :=
  isWritable owner && isWritable name && isWritable descriptor &&
    owner.toList.all (· != '.') && name.toList.all (fun c => c != ':' && c != '(') &&
    descriptor.toList.head? == some '('

/-- The keys of a member that can be written are clear, and so are its parts writable. -/
theorem isClear_of_isMember {owner name descriptor : String} (h : isMember owner name descriptor) :
    (Key.method owner name descriptor).IsClear ∧ (Key.nameAndType name descriptor).IsClear ∧
      isWritable owner ∧ isWritable name ∧ isWritable descriptor := by
  simp only [isMember, Bool.and_eq_true, List.all_eq_true, bne_iff_ne, beq_iff_eq] at h
  obtain ⟨⟨⟨⟨⟨ho, hn⟩, hd⟩, howner⟩, hname⟩, hdescriptor⟩ := h
  refine ⟨⟨fun hm => howner _ hm rfl, fun hm => (hname _ hm).2 rfl, ?_⟩,
    fun hm => (hname _ hm).1 rfl, ho, hn, hd⟩
  obtain ⟨rest, hrest⟩ := List.head?_eq_some_iff.1 hdescriptor
  exact ⟨rest, hrest⟩

section
variable {s : State} (hs : s.Sound)
include hs

/-- `shareText` writes a text that is read back. -/
theorem writes_text {t : String} (ht : isWritable t) :
    Writes s (shareText t) fun i p _ => p.text i = .ok t :=
  writes_share hs (k := .text t) trivial ht fun _ _ _ _ hi => Pool.text_eq_ok.2 hi

/-- `shareClass` writes a class of the given name. -/
theorem writes_class {name : String} (hn : isWritable name) :
    Writes s (shareClass name) fun i p _ => p.className i = .ok name := by
  refine (writes_text hs hn).bind fun n s₁ hs₁ _ hname => ?_
  have hlt := Key.Means.lt_size (k := .text name) (hname s₁.within_self)
  refine writes_share hs₁ (k := .className name) trivial (le_of_lt_size hlt) ?_
  intro p table hw i hi
  exact Pool.className_eq_ok.2 ⟨n, hi, hname hw⟩

/-- `shareNameAndType` writes a name with its descriptor. -/
private theorem writes_nameAndType {name descriptor : String}
    (hclear : (Key.nameAndType name descriptor).IsClear) (hn : isWritable name)
    (hd : isWritable descriptor) :
    Writes s (shareNameAndType name descriptor) fun i p _ =>
      p.nameAndType i = .ok (name, descriptor) := by
  refine (writes_text hs hn).bind fun n s₁ hs₁ _ hname => ?_
  refine (writes_text hs₁ hd).bind fun d s₂ hs₂ hs₁₂ hdescriptor => ?_
  -- the name was written before the descriptor, in a state that was only extended since
  have hname := fun ⦃p table⦄ (hw : s₂.Within p table) => hname (hw.of_extends hs₁₂)
  have hltn := Key.Means.lt_size (k := .text name) (hname s₂.within_self)
  have hltd := Key.Means.lt_size (k := .text descriptor) (hdescriptor s₂.within_self)
  refine writes_share hs₂ (c := .nameAndType n d) hclear ⟨le_of_lt_size hltn, le_of_lt_size hltd⟩ ?_
  intro p table hw i hi
  exact Pool.nameAndType_eq_ok.2 ⟨n, d, hi, hname hw, hdescriptor hw⟩

/-- A reference to a member: its parts are shared one after the other, then the constant. -/
private theorem writes_member {owner name descriptor : String} (h : isMember owner name descriptor)
    {k : Key} (hk : k.IsClear) {c : Nat → Nat → Constant} {tag : Nat}
    (hfits : ∀ m b o t, o ≤ m → t ≤ m → (c o t).Fits m b)
    (hmeans : ∀ ⦃p i o t⦄, p.get i = .ok (c o t) →
      p.member tag o t = .ok ⟨tag, owner, name, descriptor⟩ → k.Means p i) :
    Writes s (do
      let o ← shareClass owner
      let t ← shareNameAndType name descriptor
      share k.render (c o t)) fun i p _ => k.Means p i := by
  obtain ⟨-, hclear, hwo, hwn, hwd⟩ := isClear_of_isMember h
  refine (writes_class hs hwo).bind fun o s₁ hs₁ _ howner => ?_
  refine (writes_nameAndType hs₁ hclear hwn hwd).bind fun t s₂ hs₂ hs₁₂ hmember => ?_
  -- what was shared before stays as the pool grows
  have howner := fun ⦃p table⦄ (hw : s₂.Within p table) => howner (hw.of_extends hs₁₂)
  have hlto := Key.Means.lt_size (k := .className owner) (howner s₂.within_self)
  have hltt := Key.Means.lt_size (k := .nameAndType name descriptor) (hmember s₂.within_self)
  refine writes_share hs₂ hk (hfits _ _ o t (le_of_lt_size hlto) (le_of_lt_size hltt)) ?_
  intro p table hw i hi
  exact hmeans hi (Pool.member_eq_ok.2 ⟨rfl, howner hw, hmember hw⟩)

/-- `shareMethod` writes what the key of the method `Means`. -/
theorem writes_method {owner name descriptor : String} (h : isMember owner name descriptor) :
    Writes s (shareMethod owner name descriptor) fun i p _ =>
      (Key.method owner name descriptor).Means p i :=
  writes_member hs h (k := .method owner name descriptor) (isClear_of_isMember h).1
    (c := .methodRef) (fun _ _ _ _ ho ht => ⟨ho, ht⟩) fun _ _ o t hi hr => ⟨o, t, hi, hr⟩

/-- `shareInterfaceMethod` writes what the key of the interface method `Means`. -/
theorem writes_interfaceMethod {owner name descriptor : String}
    (h : isMember owner name descriptor) :
    Writes s (shareInterfaceMethod owner name descriptor) fun i p _ =>
      (Key.interfaceMethod owner name descriptor).Means p i :=
  writes_member hs h (k := .interfaceMethod owner name descriptor) (isClear_of_isMember h).1
    (c := .interfaceMethodRef) (fun _ _ _ _ ho ht => ⟨ho, ht⟩) fun _ _ o t hi hr => ⟨o, t, hi, hr⟩

/-- `shareHandle` writes the handle of a static method. -/
theorem writes_handle {owner name descriptor : String} (h : isMember owner name descriptor) :
    Writes s (shareHandle owner name descriptor) fun i p _ =>
      p.methodHandle i = .ok ⟨staticHandle, ⟨10, owner, name, descriptor⟩⟩ := by
  refine (writes_method hs h).bind fun r s₁ hs₁ _ hmethod => ?_
  have hle := le_of_lt_size (hmethod s₁.within_self).lt_size
  have hhandle := writes_share hs₁ (k := .handle r) trivial (c := .methodHandle staticHandle r)
    ⟨by decide, hle⟩ fun _ _ _ _ hi => hi
  refine hhandle.imp fun i p table hw hi => ?_
  obtain ⟨o, t, hr, hm⟩ := hmethod hw
  exact Pool.methodHandle_eq_ok.2 ⟨r, hi, Pool.memberRef_eq_ok.2 ⟨o, t, .inr (.inl ⟨hr, hm⟩)⟩⟩

/-- `shareMethodType` writes what the key of the type `Means`. -/
theorem writes_methodType {descriptor : String} (hd : isWritable descriptor) :
    Writes s (shareMethodType descriptor) fun i p _ => (Key.methodType descriptor).Means p i := by
  refine (writes_text hs hd).bind fun d s₁ hs₁ _ htext => ?_
  have hlt := Key.Means.lt_size (k := .text descriptor) (htext s₁.within_self)
  refine writes_share hs₁ (k := .methodType descriptor) trivial (le_of_lt_size hlt) ?_
  intro p table hw i hi
  exact ⟨d, hi, htext hw⟩

/-- `shareDynamic` writes a dynamic call with the given bootstrap method. -/
theorem writes_dynamic {b : Nat} (hb : b < s.bootstrap.length) {name descriptor : String}
    (hclear : (Key.nameAndType name descriptor).IsClear) (hn : isWritable name)
    (hd : isWritable descriptor) :
    Writes s (shareDynamic b name descriptor) fun i p _ =>
      p.invokeDynamic i = .ok (b, name, descriptor) := by
  refine (writes_nameAndType hs hclear hn hd).bind fun t s₁ hs₁ hs₀₁ hmember => ?_
  have hlt := Key.Means.lt_size (k := .nameAndType name descriptor) (hmember s₁.within_self)
  have hb₁ := Nat.lt_of_lt_of_le hb hs₀₁.2.length_le
  have hdynamic := writes_share hs₁ (k := .dynamic b t) trivial (c := .invokeDynamic b t)
    ⟨hb₁, le_of_lt_size hlt⟩ fun _ _ _ _ hi => hi
  refine hdynamic.imp fun i p table hw hi => ?_
  exact Pool.invokeDynamic_eq_ok.2 ⟨t, hi, hmember hw⟩

/-- `addBootstrap` adds a bootstrap method behind the others. -/
theorem writes_bootstrap {handle : Nat} {arguments : List Nat}
    (hhandle : handle ≤ s.constants.entries.length) (hcount : arguments.length ≤ 3)
    (harguments : ∀ a ∈ arguments, a ≤ s.constants.entries.length) :
    Writes s (addBootstrap handle arguments) fun b _ table =>
      table[b]? = some ⟨handle, arguments⟩ := by
  have hadded : s.bootstrap <+: s.bootstrap ++ [⟨handle, arguments⟩] := List.prefix_append _ _
  refine ⟨⟨hs.means, fun e he => (hs.fits e he).mono (Nat.le_refl _) hadded.length_le, ?_⟩,
    ⟨List.prefix_rfl, hadded⟩, fun p table hw => ?_⟩
  · intro b hb
    rcases List.mem_append.1 hb with hb | hb
    · exact hs.bootstrap b hb
    · rw [List.mem_singleton.1 hb]
      exact ⟨hhandle, hcount, harguments⟩
  · -- whatever is added later stands behind it, so that its number stays
    obtain ⟨more, rfl⟩ := hw.bootstrap
    show ((s.bootstrap ++ [_]) ++ more)[s.bootstrap.length]? = _
    simp

end
end CallAtlas.ClassFile.Assembler
