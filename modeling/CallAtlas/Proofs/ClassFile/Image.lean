import CallAtlas.Proofs.Bytes.Settling
import CallAtlas.Proofs.ClassFile.PoolIndices

/-!
# Classes as they are written

A class file part by part: `ClassImage` holds every field, exception table and attribute, also those that
have no meaning here, and counts and lengths follow from the parts (`ClassImage.bytes`). `ClassImage.meaning?`
says what becomes of them, each part by itself, and `parse_bytes_eq_ok` that this is what `parse` yields.
-/

namespace CallAtlas.ClassFile

open Reader

/-! ### What is written -/

/-- A list whose length sixteen bits can count. -/
abbrev Counted (α : Type) : Type := { xs : List α // xs.length < 65536 }

/-- The items of a list behind their number. -/
def Counted.bytes {α : Type} (xs : Counted α) (f : α → List UInt8) : List UInt8 :=
  bigEndianBytes 2 xs.val.length ++ xs.val.flatMap f

/-- A stretch of bytes whose length thirty-two bits can count. -/
abbrev Stretch : Type := { bs : List UInt8 // bs.length < 4294967296 }

/-- The bytes behind their number. -/
def Stretch.bytes (s : Stretch) : List UInt8 :=
  bigEndianBytes 4 s.val.length ++ s.val

/-- An attribute: the index of its name and its content. -/
structure AttributeImage where
  name : UInt16
  body : Stretch

def AttributeImage.bytes (a : AttributeImage) : List UInt8 :=
  bigEndianBytes 2 a.name.toNat ++ a.body.bytes

/-- A field. -/
structure FieldImage where
  access : UInt16
  name : UInt16
  descriptor : UInt16
  attributes : Counted AttributeImage

def FieldImage.bytes (f : FieldImage) : List UInt8 :=
  (bigEndianBytes 2 f.access.toNat ++ bigEndianBytes 2 f.name.toNat ++
    bigEndianBytes 2 f.descriptor.toNat) ++ f.attributes.bytes AttributeImage.bytes

/-- An entry of an exception table. -/
structure HandlerImage where
  first : UInt16
  last : UInt16
  target : UInt16
  caught : UInt16

def HandlerImage.bytes (h : HandlerImage) : List UInt8 :=
  ConstantImage.pairBytes h.first h.last ++ ConstantImage.pairBytes h.target h.caught

/-- The content of a code attribute. -/
structure CodeImage where
  maxStack : UInt16
  maxLocals : UInt16
  code : Stretch
  handlers : Counted HandlerImage
  attributes : Counted AttributeImage

def CodeImage.bytes (c : CodeImage) : List UInt8 :=
  bigEndianBytes 2 c.maxStack.toNat ++ (bigEndianBytes 2 c.maxLocals.toNat ++ (c.code.bytes ++
    (c.handlers.bytes HandlerImage.bytes ++ c.attributes.bytes AttributeImage.bytes)))

/-- A method. -/
structure MethodImage where
  access : UInt16
  name : UInt16
  descriptor : UInt16
  attributes : Counted AttributeImage

def MethodImage.bytes (m : MethodImage) : List UInt8 :=
  bigEndianBytes 2 m.access.toNat ++ (bigEndianBytes 2 m.name.toNat ++
    (bigEndianBytes 2 m.descriptor.toNat ++ m.attributes.bytes AttributeImage.bytes))

/-- A class. -/
structure ClassImage where
  minor : UInt16
  major : UInt16
  constants : { ws : List ConstantImage // slots ws < 65535 }
  access : UInt16
  thisClass : UInt16
  superClass : UInt16
  interfaces : Counted UInt16
  fields : Counted FieldImage
  methods : Counted MethodImage
  attributes : Counted AttributeImage

def ClassImage.bytes (image : ClassImage) : List UInt8 :=
  bigEndianBytes 4 magic ++ (bigEndianBytes 2 image.minor.toNat ++ (bigEndianBytes 2 image.major.toNat ++
    (poolBytes image.constants.val ++ (bigEndianBytes 2 image.access.toNat ++
      (bigEndianBytes 2 image.thisClass.toNat ++ (bigEndianBytes 2 image.superClass.toNat ++
        (image.interfaces.bytes (fun i => bigEndianBytes 2 i.toNat) ++
          (image.fields.bytes FieldImage.bytes ++ (image.methods.bytes MethodImage.bytes ++
            image.attributes.bytes AttributeImage.bytes)))))))))

def ClassImage.pool (image : ClassImage) : Pool :=
  poolOfImages image.constants.val

/-! ### What it means -/

section Meaning

variable (p : Pool)

/-- The attribute with its name looked up. -/
def AttributeImage.named? (a : AttributeImage) : Option Attribute :=
  (p.text a.name.toNat).toOption.map fun name => ⟨name, a.body.val⟩

/-- The lines that an attribute of a method's code gives. -/
def AttributeImage.lines? (a : AttributeImage) : Option (List LineEntry) :=
  (a.named? p).bind fun a =>
    if a.name = "LineNumberTable" then LineEntry.readAll.value? a.body else some []

/-- The code that an attribute of a method gives. -/
def AttributeImage.code? (a : AttributeImage) : Option (Option Code) :=
  (a.named? p).bind fun a =>
    if a.name = "Code" then ((Code.read p).value? a.body).map some else some none

/-- What an attribute of a class says. -/
def AttributeImage.detail? (a : AttributeImage) : Option ClassDetail :=
  (a.named? p).bind fun a =>
    if a.name = "SourceFile" then
      ((u16 : Reader Problem Nat).value? a.body).bind fun index =>
        (p.text index).toOption.map .sourceFile
    else if a.name = "BootstrapMethods" then (Bootstrap.readAll.value? a.body).map .bootstrap
    else some .other

/-- Code is neither empty nor longer than sixteen bits can count. -/
def CodeImage.code? (c : CodeImage) : Option (List UInt8) :=
  if c.code.val.length = 0 ∨ 65535 < c.code.val.length then none else some c.code.val

def CodeImage.meaning? (c : CodeImage) : Option Code :=
  c.code?.bind fun code => (c.attributes.val.mapM (AttributeImage.lines? p)).map fun lines =>
    { maxStack := c.maxStack.toNat, maxLocals := c.maxLocals.toNat, bytes := code, lines := lines.flatten }

def MethodImage.meaning? (m : MethodImage) : Option Method :=
  (p.text m.name.toNat).toOption.bind fun name =>
    (p.text m.descriptor.toNat).toOption.bind fun descriptor =>
      (m.attributes.val.mapM (AttributeImage.code? p)).map fun codes =>
        { access := m.access.toNat, name, descriptor, code := (codes.filterMap id).getLast? }

end Meaning

/-- The superclass; index zero stands for none. -/
def ClassImage.super? (image : ClassImage) : Option String :=
  if image.superClass.toNat = 0 then some ""
  else (image.pool.className image.superClass.toNat).toOption

def ClassImage.meaning? (path : Text.RawText) (image : ClassImage) : Option ClassFile :=
  (image.pool.className image.thisClass.toNat).toOption.bind fun name =>
    image.super?.bind fun super =>
      (image.interfaces.val.mapM fun i => (image.pool.className i.toNat).toOption).bind fun interfaces =>
        (image.methods.val.mapM (MethodImage.meaning? image.pool)).bind fun methods =>
          (image.attributes.val.mapM (AttributeImage.detail? image.pool)).map fun details =>
            { path, minor := image.minor.toNat, major := image.major.toNat, access := image.access.toNat,
              name, super, interfaces, methods, pool := image.pool,
              sourceFile := ClassDetail.sourceFileOf details,
              bootstrap := ClassDetail.bootstrapOf details }

/-! ### Reading the parts -/

theorem Stretch.reads_length (s : Stretch) :
    (u32 : Reader Problem Nat).Reads (bigEndianBytes 4 s.val.length) s.val.length :=
  reads_bigEndianBytes s.property

/-- `during` only names the place of a problem, and changes nothing of what is settled. -/
theorem settles_during {α : Type} {r : Reader Problem α} {bs : List UInt8} {x : Option α} (place : Place)
    (hr : r.Settles bs x) : (during place r).Settles bs x :=
  hr.mapCause (Problem.inside place)

section Counted

variable {α β γ : Type} (xs : Counted β)

theorem Counted.reads_length :
    (u16 : Reader Problem Nat).Reads (bigEndianBytes 2 xs.val.length) xs.val.length :=
  reads_bigEndianBytes xs.property

/-- `Counted` items are settled one by one, and then what follows them. -/
theorem Counted.settles {r : Nat → Reader Problem α} {f : β → List UInt8} {g : β → Option α}
    (hr : ∀ x i, (r i).Settles (f x) (g x)) {k : List α → Reader Problem γ} {bs : List UInt8}
    {y : List α → Option γ} (hk : ∀ as, (k as).Settles bs (y as)) :
    (u16 >>= fun n => times n r >>= k).Settles (xs.bytes f ++ bs) ((xs.val.mapM g).bind y) := by
  rw [Counted.bytes, List.append_assoc]
  exact xs.reads_length.bind_settles ((settles_times fun x _ i => hr x i).bind hk)

/-- `Counted` items at the end. -/
theorem Counted.settles_last {r : Nat → Reader Problem α} {f : β → List UInt8} {g : β → Option α}
    (hr : ∀ x i, (r i).Settles (f x) (g x)) (k : List α → γ) :
    (u16 >>= fun n => times n r >>= fun as => pure (k as)).Settles (xs.bytes f)
      ((xs.val.mapM g).map k) :=
  xs.reads_length.bind_settles ((settles_times fun x _ i => hr x i).map k)

/-- `Counted` items that are passed over leave it to what follows them. -/
private theorem Counted.settles_skip {r : Nat → Reader Problem Unit} {f : β → List UInt8}
    (hr : ∀ x i, (r i).Reads (f x) ()) {k : List Unit → Reader Problem γ} {bs : List UInt8}
    {y : Option γ} (hk : ∀ us, (k us).Settles bs y) :
    (u16 >>= fun n => times n r >>= k).Settles (xs.bytes f ++ bs) y := by
  -- each of them is read as nothing, so that the whole list is
  have hread : List.Forall₂ (fun x u => ∀ i, (r i).Reads (f x) u) xs.val (xs.val.map fun _ => ()) :=
    List.forall₂_map_right_iff.2 (List.forall₂_same.2 fun x _ i => hr x i)
  rw [Counted.bytes, List.append_assoc]
  exact xs.reads_length.bind_settles ((reads_times hread).bind_settles (hk _))

end Counted

/-- `Attribute.skip` gets behind any attribute. -/
theorem AttributeImage.reads_skip (a : AttributeImage) : Attribute.skip.Reads a.bytes () := by
  have hname : (Reader.skip 2 : Reader Problem Unit).Reads (bigEndianBytes 2 a.name.toNat) () :=
    Reader.reads_skip (bigEndianBytes 2 a.name.toNat)
  exact hname.bind (a.body.reads_length.bind (Reader.reads_skip a.body.val))

/-- `skipField` gets behind any field. -/
theorem FieldImage.reads_skip (f : FieldImage) : skipField.Reads f.bytes () := by
  have hhead : (Reader.skip 6 : Reader Problem Unit).Reads (bigEndianBytes 2 f.access.toNat ++
      bigEndianBytes 2 f.name.toNat ++ bigEndianBytes 2 f.descriptor.toNat) () :=
    Reader.reads_skip (bigEndianBytes 2 f.access.toNat ++ bigEndianBytes 2 f.name.toNat ++
      bigEndianBytes 2 f.descriptor.toNat)
  refine hhead.bind_settles (y := some ()) ?_
  rw [← List.append_nil (f.attributes.bytes AttributeImage.bytes)]
  exact f.attributes.settles_skip (fun a _ => a.reads_skip) fun _ => reads_pure ()

/-- The entries of an exception table take eight bytes each. -/
private theorem length_handlers (hs : List HandlerImage) :
    (hs.flatMap HandlerImage.bytes).length = hs.length * 8 := by
  induction hs with
  | nil => rfl
  | cons h hs ih =>
    have hlength : h.bytes.length = 8 := rfl
    rw [List.flatMap_cons, List.length_append, hlength, ih, List.length_cons]
    omega

/-- An exception table is passed over by the number of its entries, whatever they hold. -/
private theorem settles_skip_handlers {α : Type} (hs : Counted HandlerImage) {k : Unit → Reader Problem α}
    {bs : List UInt8} {y : Option α} (hk : (k ()).Settles bs y) :
    (u16 >>= fun n => Reader.skip (n * 8) >>= k).Settles (hs.bytes HandlerImage.bytes ++ bs) y := by
  have hskip : (Reader.skip (hs.val.length * 8 : Nat) : Reader Problem Unit).Reads
      (hs.val.flatMap HandlerImage.bytes) () := by
    rw [← length_handlers hs.val]
    exact Reader.reads_skip _
  rw [Counted.bytes, List.append_assoc]
  exact hs.reads_length.bind_settles (hskip.bind_settles hk)

section Attributes

variable (p : Pool) (a : AttributeImage)

/-- `Attribute.read` gives an attribute with its name looked up, as `named?` does. -/
theorem AttributeImage.settles_named : (Attribute.read p).Settles a.bytes (a.named? p) := by
  refine (reads_half a.name).bind_settles (a.body.reads_length.bind_settles
    ((reads_bytes a.body.val).last_settles ?_))
  exact (settles_during .attributeName (settles_ofExcept (p.text a.name.toNat))).map _

/-- `Code.readLines` gives the lines that `lines?` says. -/
private theorem AttributeImage.settles_lines : (Code.readLines p).Settles a.bytes (a.lines? p) := by
  refine (a.settles_named p).last fun b => ?_
  split
  · exact settles_inside b.body LineEntry.readAll
  · exact reads_pure []

/-- `Method.readCode` gives the code that `code?` says. -/
private theorem AttributeImage.settles_code (name descriptor : String) :
    (Method.readCode p name descriptor).Settles a.bytes (a.code? p) := by
  refine (a.settles_named p).last fun b => ?_
  split
  · exact (settles_during (.code name descriptor) (settles_inside b.body (Code.read p))).map some
  · exact reads_pure none

/-- `ClassDetail.read` gives what `detail?` says. -/
private theorem AttributeImage.settles_detail : (ClassDetail.read p).Settles a.bytes (a.detail? p) := by
  refine (a.settles_named p).last fun b => ?_
  -- one case for each name that means something in a class
  split
  · refine (settles_inside b.body u16).last fun index => ?_
    exact (settles_during .sourceFile (settles_ofExcept (p.text index))).map ClassDetail.sourceFile
  · split
    · exact (settles_during .bootstrapMethods (settles_inside b.body Bootstrap.readAll)).map
        ClassDetail.bootstrap
    · exact reads_pure ClassDetail.other

end Attributes

/-- `Code.readBytes` refuses code that is empty or too long, as `CodeImage.code?` does. -/
private theorem CodeImage.settles_bytes (c : CodeImage) : Code.readBytes.Settles c.code.bytes c.code? := by
  refine c.code.reads_length.bind_settles ?_
  rw [CodeImage.code?]
  split
  · exact fun cursor _ _ => ⟨_, rfl⟩
  · exact reads_bytes c.code.val

/-- `Code.read` gives what `CodeImage.meaning?` says. -/
theorem CodeImage.settles (p : Pool) (c : CodeImage) : (Code.read p).Settles c.bytes (c.meaning? p) := by
  refine (reads_half c.maxStack).bind_settles ((reads_half c.maxLocals).bind_settles ?_)
  refine c.settles_bytes.bind fun code => ?_
  -- of the exception table only its length matters, to get behind it
  refine settles_skip_handlers c.handlers ?_
  exact c.attributes.settles_last (fun a _ => a.settles_lines p) _

/-- `Method.read` gives what `MethodImage.meaning?` says. -/
theorem MethodImage.settles (p : Pool) (m : MethodImage) :
    (Method.read p).Settles m.bytes (m.meaning? p) := by
  refine (reads_half m.access).bind_settles ((reads_half m.name).bind_settles
    ((reads_half m.descriptor).bind_settles ?_))
  refine (settles_ofExcept (p.text m.name.toNat)).after fun name => ?_
  refine (settles_ofExcept (p.text m.descriptor.toNat)).after fun descriptor => ?_
  exact m.attributes.settles_last (fun a _ => a.settles_code p name descriptor) _

/-! ### Reading the class -/

/-- `readMagic` accepts the mark of class files. -/
theorem reads_magic : readMagic.Reads (bigEndianBytes 4 magic) () := by
  refine (reads_bigEndianBytes (by decide)).last ?_
  exact reads_pure ()

/-- `readSuper` gives what `ClassImage.super?` says. -/
private theorem ClassImage.settles_super (image : ClassImage) :
    (readSuper image.pool).Settles (bigEndianBytes 2 image.superClass.toNat) image.super? := by
  refine (reads_half image.superClass).last_settles ?_
  rw [ClassImage.super?]
  split
  · exact reads_pure ""
  · exact settles_during .superClass (settles_ofExcept _)

/-- `ClassFile.read` gives what `ClassImage.meaning?` says. -/
theorem ClassImage.settles (path : Text.RawText) (image : ClassImage) :
    (read path).Settles image.bytes (image.meaning? path) := by
  refine reads_magic.bind_settles ((reads_half image.minor).bind_settles
    ((reads_half image.major).bind_settles ((reads_poolOfImages image.constants.property).bind_settles
      ((reads_half image.access).bind_settles ((reads_half image.thisClass).bind_settles ?_)))))
  -- from here on lookups may fail, so that the meaning is an option
  refine (settles_during .thisClass (settles_ofExcept _)).after fun name => ?_
  refine image.settles_super.bind fun super => ?_
  refine image.interfaces.settles (fun index i => ?_) fun interfaces => ?_
  · exact (reads_half index).last_settles (settles_during (.interface i) (settles_ofExcept _))
  -- fields leave nothing behind, so the meaning does not mention them
  refine image.fields.settles_skip (fun f _ => f.reads_skip) fun _ => ?_
  refine image.methods.settles
    (fun m i => settles_during (.method i) (m.settles image.pool)) fun methods => ?_
  exact image.attributes.settles_last (fun a _ => a.settles_detail image.pool) _

/-- `parse` accepts a written class exactly if it keeps the limit and has a `meaning?`, and yields that. -/
theorem ClassImage.parse_bytes_eq_ok {image : ClassImage} {path : Text.RawText} {limit : Nat}
    {c : ClassFile} : parse path image.bytes limit = .ok c ↔
      (limit = 0 ∨ image.bytes.length ≤ limit) ∧ image.meaning? path = some c := by
  rw [← (image.settles path).value?_eq, Reader.value?, parse]
  split
  · -- a file that is too large is refused before it is looked at
    next hlarge =>
    constructor
    · intro h
      cases h
    · rintro ⟨hfits, -⟩
      omega
  · next hfits =>
    have hfits : limit = 0 ∨ image.bytes.length ≤ limit := by omega
    cases h : read path (.ofBytes image.bytes) with
    | error e => simp [Except.toOption]
    | ok q => simp [Except.toOption, hfits]

end CallAtlas.ClassFile
