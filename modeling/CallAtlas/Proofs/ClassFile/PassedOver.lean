import CallAtlas.Proofs.ClassFile.Image
import Mathlib.Logic.Relation

/-!
# Parts without a meaning

Fields, exception tables and attributes of other names can come into a class anywhere, and it stays the class
that it was. `ClassImage.Grows` is one such insertion: in the class, in a field or method, in the code of a
method, or inside an attribute that is itself passed over. Counts and lengths are those of the image that
results, so the enclosing ones follow.
-/

namespace CallAtlas.ClassFile

open Reader

/-! ### Insertions -/

section Lists

variable {α β γ : Type}

/-- `ys` is `xs` with `x` put in somewhere. -/
def Inserted (x : α) (xs ys : List α) : Prop :=
  ∃ before after, xs = before ++ after ∧ ys = before ++ x :: after

/-- `ys` is `xs` with `y` in place of one `x`. -/
def Exchanged (x y : α) (xs ys : List α) : Prop :=
  ∃ before after, xs = before ++ x :: after ∧ ys = before ++ y :: after

/-- An item may be `Exchanged` for one with the same result. -/
theorem mapM_exchanged {g : α → Option β} {x y : α} {xs ys : List α} (h : Exchanged x y xs ys)
    (hg : g y = g x) : ys.mapM g = xs.mapM g := by
  obtain ⟨before, after, rfl, rfl⟩ := h
  simp only [List.mapM_append, List.mapM_cons, hg]

/-- An item whose result does not count may be `Inserted` anywhere. -/
private theorem map_mapM_inserted {g : α → Option β} {x : α} {xs ys : List α} {e : β} {f : List β → γ}
    (hf : ∀ as bs, f (as ++ e :: bs) = f (as ++ bs)) (h : Inserted x xs ys) (hg : g x = some e) :
    (ys.mapM g).map f = (xs.mapM g).map f := by
  obtain ⟨before, after, rfl, rfl⟩ := h
  rw [List.mapM_append, List.mapM_append, List.mapM_cons, hg]
  -- an item without a result makes all of them fail, with the new one and without
  cases before.mapM g with
  | none => rfl
  | some as =>
    cases after.mapM g with
    | none => rfl
    | some bs => exact congrArg some (hf as bs)

end Lists

/-- An attribute whose name is a text of the pool, but none of those that mean something at its place. -/
def AttributeImage.IsPassedOver (p : Pool) (known : List String) (a : AttributeImage) : Prop :=
  ∃ s, p.text a.name.toNat = .ok s ∧ s ∉ known

/-- An attribute that is passed over comes in, or what such an attribute holds is another. -/
inductive AttributesGrow (p : Pool) (known : List String) (as bs : Counted AttributeImage) : Prop
  | one {a : AttributeImage} (h : Inserted a as.val bs.val) (ha : a.IsPassedOver p known)
  | inside {a b : AttributeImage} (h : Exchanged a b as.val bs.val) (hname : b.name = a.name)
      (ha : a.IsPassedOver p known)

/-- A handler or an attribute comes into the code of a method. -/
inductive CodeImage.Grows (p : Pool) (c : CodeImage) : CodeImage → Prop
  | handler {h : HandlerImage} {hs : Counted HandlerImage} (hh : Inserted h c.handlers.val hs.val) :
      Grows p c { c with handlers := hs }
  | attributes {as : Counted AttributeImage} (h : AttributesGrow p ["LineNumberTable"] c.attributes as) :
      Grows p c { c with attributes := as }

/-- An attribute comes into a method, or something comes into its code. -/
inductive MethodImage.Grows (p : Pool) (m : MethodImage) : MethodImage → Prop
  | attributes {as : Counted AttributeImage} (h : AttributesGrow p ["Code"] m.attributes as) :
      Grows p m { m with attributes := as }
  | code {as : Counted AttributeImage} {a b : AttributeImage} {c d : CodeImage}
      (h : Exchanged a b m.attributes.val as.val) (hname : b.name = a.name) (ha : a.body.val = c.bytes)
      (hb : b.body.val = d.bytes) (hcode : c.Grows p d) : Grows p m { m with attributes := as }

/-- A field comes into a class or has another content, or something comes into a method or the attributes of the
    class. -/
inductive ClassImage.Grows (image : ClassImage) : ClassImage → Prop
  | field {f : FieldImage} {fs : Counted FieldImage} (h : Inserted f image.fields.val fs.val) :
      Grows image { image with fields := fs }
  | insideField {f g : FieldImage} {fs : Counted FieldImage} (h : Exchanged f g image.fields.val fs.val) :
      Grows image { image with fields := fs }
  | method {m n : MethodImage} {ms : Counted MethodImage} (h : Exchanged m n image.methods.val ms.val)
      (hm : m.Grows image.pool n) : Grows image { image with methods := ms }
  | attributes {as : Counted AttributeImage}
      (h : AttributesGrow image.pool ["SourceFile", "BootstrapMethods"] image.attributes as) :
      Grows image { image with attributes := as }

/-! ### What stays -/

section Attributes

variable {p : Pool} {a : AttributeImage}

/-- Whether an attribute `IsPassedOver` is a question of its name alone. -/
private theorem AttributeImage.IsPassedOver.of_name {b : AttributeImage} {known : List String}
    (ha : a.IsPassedOver p known) (hname : b.name = a.name) : b.IsPassedOver p known := by
  obtain ⟨s, hs, hknown⟩ := ha
  exact ⟨s, by rw [hname, hs], hknown⟩

/-- An attribute that `IsPassedOver` is found under a name that means nothing. -/
theorem AttributeImage.IsPassedOver.named?_eq {known : List String} (ha : a.IsPassedOver p known) :
    ∃ s, a.named? p = some ⟨s, a.body.val⟩ ∧ s ∉ known := by
  obtain ⟨s, hs, hknown⟩ := ha
  exact ⟨s, by rw [AttributeImage.named?, hs]; rfl, hknown⟩

/-- An attribute that `IsPassedOver` in code gives no lines. -/
private theorem AttributeImage.IsPassedOver.lines?_eq (ha : a.IsPassedOver p ["LineNumberTable"]) :
    a.lines? p = some [] := by
  obtain ⟨s, hs, hknown⟩ := ha.named?_eq
  rw [AttributeImage.lines?, hs, Option.bind_some, if_neg (hknown ∘ List.mem_singleton.2)]

/-- An attribute that `IsPassedOver` in a method gives no code. -/
private theorem AttributeImage.IsPassedOver.code?_eq (ha : a.IsPassedOver p ["Code"]) :
    a.code? p = some none := by
  obtain ⟨s, hs, hknown⟩ := ha.named?_eq
  rw [AttributeImage.code?, hs, Option.bind_some, if_neg (hknown ∘ List.mem_singleton.2)]

/-- An attribute that `IsPassedOver` in a class says nothing about it. -/
private theorem AttributeImage.IsPassedOver.detail?_eq
    (ha : a.IsPassedOver p ["SourceFile", "BootstrapMethods"]) : a.detail? p = some .other := by
  obtain ⟨s, hs, hknown⟩ := ha.named?_eq
  have hsource : s ≠ "SourceFile" := List.ne_of_not_mem_cons hknown
  have hbootstrap : s ≠ "BootstrapMethods" := List.ne_of_not_mem_cons (List.not_mem_of_not_mem_cons hknown)
  rw [AttributeImage.detail?, hs, Option.bind_some, if_neg hsource, if_neg hbootstrap]

/-- Of a code attribute only the name and what `Code.read` makes of its content count. -/
private theorem AttributeImage.code?_congr {b : AttributeImage} (hname : b.name = a.name)
    (hbody : (Code.read p).value? b.body.val = (Code.read p).value? a.body.val) :
    b.code? p = a.code? p := by
  simp only [AttributeImage.code?, AttributeImage.named?, hname]
  cases (p.text a.name.toNat).toOption with
  | none => rfl
  | some s => simp only [Option.map_some, Option.bind_some, hbody]

/-- Attributes that are passed over make no difference to what the list of all gives. -/
theorem AttributesGrow.map_mapM_eq {β γ : Type} {known : List String} {as bs : Counted AttributeImage}
    {g : AttributeImage → Option β} {e : β} {f : List β → γ} (h : AttributesGrow p known as bs)
    (hg : ∀ a : AttributeImage, a.IsPassedOver p known → g a = some e)
    (hf : ∀ xs ys, f (xs ++ e :: ys) = f (xs ++ ys)) :
    (bs.val.mapM g).map f = (as.val.mapM g).map f := by
  cases h with
  | one h ha => exact map_mapM_inserted hf h (hg _ ha)
  | inside h hname ha => rw [mapM_exchanged h ((hg _ (ha.of_name hname)).trans (hg _ ha).symm)]

end Attributes

/-- Code that `Grows` keeps its meaning. -/
theorem CodeImage.Grows.meaning?_eq {p : Pool} {c d : CodeImage} (h : c.Grows p d) :
    d.meaning? p = c.meaning? p := by
  cases h with
  -- the meaning does not mention handlers
  | handler _ => rfl
  | attributes h =>
    refine congrArg c.code?.bind (funext fun code => h.map_mapM_eq (fun a ha => ha.lines?_eq) ?_)
    intro xs ys
    simp only [List.flatten_append, List.flatten_cons, List.nil_append]

/-- A method that `Grows` keeps its meaning. -/
theorem MethodImage.Grows.meaning?_eq {p : Pool} {m n : MethodImage} (h : m.Grows p n) :
    n.meaning? p = m.meaning? p := by
  cases h with
  | attributes h =>
    refine congrArg (p.text m.name.toNat).toOption.bind (funext fun name => ?_)
    refine congrArg (p.text m.descriptor.toNat).toOption.bind (funext fun descriptor => ?_)
    refine h.map_mapM_eq (fun a ha => ha.code?_eq) fun xs ys => ?_
    simp only [List.filterMap_append, List.filterMap_cons, id_eq]
  | code h hname ha hb hcode =>
    -- what the code attribute gives is settled by its content alone
    have hbody : (Code.read p).value? _ = (Code.read p).value? _ :=
      ((CodeImage.settles p _).value?_eq.trans hcode.meaning?_eq).trans (CodeImage.settles p _).value?_eq.symm
    rw [← ha, ← hb] at hbody
    rw [MethodImage.meaning?, MethodImage.meaning?, mapM_exchanged h (AttributeImage.code?_congr hname hbody)]

/-- A class that `Grows` keeps its meaning. -/
theorem ClassImage.Grows.meaning?_eq {image image' : ClassImage} (h : image.Grows image')
    (path : Text.RawText) : image'.meaning? path = image.meaning? path := by
  cases h with
  | field _ => rfl
  | insideField _ => rfl
  | method h hm =>
    -- the pool is the one of `image`, in which the methods are looked up
    show (Option.bind _ fun name => Option.bind _ fun super => Option.bind _ fun interfaces =>
      Option.bind (List.mapM (MethodImage.meaning? image.pool) _) _) = _
    rw [mapM_exchanged h hm.meaning?_eq]
    rfl
  | attributes h =>
    -- only the details come from the attributes, behind all other parts
    refine congrArg (image.pool.className image.thisClass.toNat).toOption.bind (funext fun name => ?_)
    refine congrArg image.super?.bind (funext fun super => ?_)
    refine congrArg (Option.bind _) (funext fun interfaces => ?_)
    refine congrArg (Option.bind _) (funext fun methods => ?_)
    refine h.map_mapM_eq (fun a ha => ha.detail?_eq) fun xs ys => ?_
    simp only [ClassDetail.sourceFileOf, ClassDetail.bootstrapOf, List.filterMap_append,
      List.filterMap_cons]

/-- Whatever fields, exception table entries and attributes without a meaning come into a class, one after
    another and at any depth, `parse` yields the same class. -/
theorem parse_of_grows {image image' : ClassImage} (h : Relation.ReflTransGen ClassImage.Grows image image')
    {path : Text.RawText} {limit limit' : Nat} {c : ClassFile} (hparse : parse path image.bytes limit = .ok c)
    (hfits : limit' = 0 ∨ image'.bytes.length ≤ limit') : parse path image'.bytes limit' = .ok c := by
  obtain ⟨-, hmeaning⟩ := ClassImage.parse_bytes_eq_ok.1 hparse
  refine ClassImage.parse_bytes_eq_ok.2 ⟨hfits, ?_⟩
  -- whether the file keeps the limit is asked of the last image only
  clear hfits
  induction h with
  | refl => exact hmeaning
  | tail _ hgrows ih => exact (hgrows.meaning?_eq path).trans ih

/-! ### A class that grows -/

/-- Code that only returns. -/
def plainCode : CodeImage :=
  ⟨0, 1, ⟨[0xb1], by decide⟩, ⟨[], by decide⟩, ⟨[], by decide⟩⟩

def plainMethod : MethodImage :=
  ⟨9, 3, 4, ⟨[⟨5, ⟨plainCode.bytes, by decide⟩⟩], by decide⟩⟩

def plainClass : ClassImage where
  minor := 0
  major := 52
  constants := ⟨[.ofText ['A'] (by decide), .classInfo 1, .ofText ['f'] (by decide),
    .ofText ['(', ')', 'V'] (by decide), .ofText ['C', 'o', 'd', 'e'] (by decide)], by decide⟩
  access := 0x21
  thisClass := 2
  superClass := 0
  interfaces := ⟨[], by decide⟩
  fields := ⟨[], by decide⟩
  methods := ⟨[plainMethod], by decide⟩
  attributes := ⟨[], by decide⟩

/-- The code with a handler. -/
def guardedCode : CodeImage :=
  { plainCode with handlers := ⟨[⟨0, 1, 0, 0⟩], by decide⟩ }

def guardedMethod : MethodImage :=
  { plainMethod with attributes := ⟨[⟨5, ⟨guardedCode.bytes, by decide⟩⟩], by decide⟩ }

/-- An attribute with the name of the method. -/
def plainAttribute : AttributeImage :=
  ⟨3, ⟨[1, 2, 3], by decide⟩⟩

/-- The class with a field, a handler in its method and an attribute. -/
def grownClass : ClassImage :=
  { plainClass with
    fields := ⟨[⟨0, 3, 4, ⟨[plainAttribute], by decide⟩⟩], by decide⟩
    methods := ⟨[guardedMethod], by decide⟩
    attributes := ⟨[plainAttribute], by decide⟩ }

/-- `grownClass` comes of `plainClass` by three insertions, the second of them inside a method. -/
private theorem grows_grownClass : Relation.ReflTransGen ClassImage.Grows plainClass grownClass := by
  have hfield : plainClass.Grows { plainClass with fields := grownClass.fields } :=
    .field ⟨[], [], rfl, rfl⟩
  -- a handler in the code makes the method grow, and with it the class
  have hcode : plainCode.Grows plainClass.pool guardedCode := .handler ⟨[], [], rfl, rfl⟩
  have hguarded : plainMethod.Grows plainClass.pool guardedMethod :=
    .code ⟨[], [], rfl, rfl⟩ rfl rfl rfl hcode
  have hmethod : ClassImage.Grows { plainClass with fields := grownClass.fields }
      { plainClass with fields := grownClass.fields, methods := grownClass.methods } :=
    .method ⟨[], [], rfl, rfl⟩ hguarded
  have hpassed : plainAttribute.IsPassedOver plainClass.pool ["SourceFile", "BootstrapMethods"] :=
    ⟨"f", rfl, by decide⟩
  have hattribute : ClassImage.Grows
      { plainClass with fields := grownClass.fields, methods := grownClass.methods } grownClass :=
    .attributes (.one ⟨[], [], rfl, rfl⟩ hpassed)
  exact .tail (.tail (.single hfield) hmethod) hattribute

/-- `parse_of_grows` on `grownClass`, which has 34 bytes more than `plainClass` and is read as the same
    class. -/
theorem parse_of_grows_grownClass : Relation.ReflTransGen ClassImage.Grows plainClass grownClass ∧
    grownClass.bytes.length = plainClass.bytes.length + 34 ∧
    ∃ c, parse "A.class" plainClass.bytes 0 = .ok c ∧ c.methods.length = 1 ∧
      parse "A.class" grownClass.bytes 0 = .ok c := by
  obtain ⟨c, hparse, hmethods⟩ := Result.exists_ok_of_any (x := parse "A.class" plainClass.bytes 0)
    (p := fun c => c.methods.length = 1) (by decide +kernel)
  exact ⟨grows_grownClass, by decide +kernel, c, hparse, of_decide_eq_true hmethods,
    parse_of_grows grows_grownClass hparse (.inl rfl)⟩

end CallAtlas.ClassFile
