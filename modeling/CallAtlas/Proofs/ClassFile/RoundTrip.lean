import CallAtlas.Proofs.ClassFile.Naming

/-!
# Reading what was written: classes

Every part of a class file is read back from the bytes that the assembler writes for it: attributes, line
tables, code, methods and bootstrap methods. Put together, a class that fits into the format is read back
as it was described (`parse_assemble`), and the index in each of its calls leads to the method that was to
be called.
-/

namespace CallAtlas.ClassFile.Assembler

open Reader

/-! ### Names and attributes -/

section
variable {p : Pool} (hp : p.size < 65536)
include hp

/-- The index of a text is a number of sixteen bits. -/
theorem lt_of_text {i : Nat} {s : String} (h : p.text i = .ok s) : i < 65536 :=
  Nat.lt_trans (Pool.lt_size_of_get (Pool.text_eq_ok.1 h)) hp

/-- The index of a class is a number of sixteen bits. -/
theorem lt_of_className {i : Nat} {s : String} (h : p.className i = .ok s) : i < 65536 := by
  obtain ⟨n, hn, -⟩ := Pool.className_eq_ok.1 h
  exact Nat.lt_trans (Pool.lt_size_of_get hn) hp

/-- A class is read by its index. -/
private theorem reads_className {i : Nat} {s : String} (h : p.className i = .ok s) (place : Place) :
    (u16 >>= fun i => during place (ofExcept (p.className i))).Reads (word16 i) s := by
  refine (reads_u16 (lt_of_className hp h)).last ?_
  rw [h]
  exact (reads_ofExcept s).mapCause _

/-- `Attribute.read` reads back what `attributeBytes` writes. -/
theorem reads_attribute {name : Nat} {s : String} {content : List UInt8} (hname : p.text name = .ok s)
    (hlength : content.length < 4294967296) :
    (Attribute.read p).Reads (attributeBytes name content) ⟨s, content⟩ := by
  rw [attributeBytes, List.append_assoc]
  refine (reads_u16 (lt_of_text hp hname)).bind ((reads_u32 hlength).bind ?_)
  have hbytes : (Reader.bytes content.length : Reader Problem (List UInt8)).Reads content content :=
    reads_bytes content
  refine hbytes.last ?_
  rw [hname]
  exact ((reads_ofExcept s).mapCause _).map fun s => Attribute.mk s content

end

/-! ### Code -/

/-- Code and lines of lengths and numbers that a class file can hold. -/
structure Body.Fits (b : Body) : Prop where
  pos : 0 < b.bytes.length
  bytes : b.bytes.length < 65536
  lines : b.lines.length < 65536
  entries : ∀ e ∈ b.lines, e.pc < 65536 ∧ e.line < 65536

/-- A line table takes four bytes for each line. -/
private theorem length_lineTable_le (lines : List LineEntry) :
    (lineTable lines).length ≤ 2 + 4 * lines.length :=
  length_counted_le fun _ _ => Nat.le_refl 4

/-- The length of code that `Fits` is one of thirty-two bits, with room to spare. -/
private theorem length_codeContent_lt {b : Body} (hb : b.Fits) (lineAttribute : Nat) :
    (codeContent lineAttribute b).length < 4294967296 := by
  have hbytes := hb.bytes
  have hlines := hb.lines
  have htable := length_lineTable_le b.lines
  have hattributes : (counted (attributeBytes lineAttribute)
      (if b.lines.isEmpty then [] else [lineTable b.lines])).length ≤ 8 + (lineTable b.lines).length := by
    -- a table of no lines is not written at all
    split
    · simp only [counted, List.length_append, length_word16, List.flatMap_nil, List.length_nil]
      omega
    · simp only [counted, attributeBytes, List.length_append, length_word16, length_word32,
        List.flatMap_singleton]
      omega
  simp only [codeContent, List.length_append, length_word16, length_word32]
  omega

/-- `LineEntry.readAll` reads the lines back. -/
private theorem reads_lineTable {b : Body} (hb : b.Fits) :
    LineEntry.readAll.Reads (lineTable b.lines) b.lines := by
  refine reads_counted hb.lines (List.forall₂_same.2 fun e he i => ?_)
  obtain ⟨hpc, hline⟩ := hb.entries e he
  exact (reads_u16 hpc).bind ((reads_u16 hline).map fun l => LineEntry.mk e.pc l)

/-- `Code.readBytes` reads the code back, which is neither empty nor too long. -/
private theorem reads_codeBytes {bytes : List UInt8} (hpos : 0 < bytes.length) (hlt : bytes.length < 65536) :
    Code.readBytes.Reads (word32 bytes.length ++ bytes) bytes := by
  refine (reads_u32 (by omega)).bind ?_
  rw [if_neg (by omega)]
  exact reads_bytes bytes

section
variable {p : Pool} (hp : p.size < 65536) {lineAttribute codeAttribute : Nat}
  (hline : p.text lineAttribute = .ok "LineNumberTable") (hcode : p.text codeAttribute = .ok "Code")
include hp hline

/-- `Code.readLines` reads the lines back from their attribute. -/
private theorem reads_readLines {b : Body} (hb : b.Fits) :
    (Code.readLines p).Reads (attributeBytes lineAttribute (lineTable b.lines)) b.lines := by
  have hlength := length_lineTable_le b.lines
  have hlines := hb.lines
  refine (reads_attribute hp hline (by omega)).last ?_
  rw [if_pos rfl]
  exact (reads_lineTable hb).inside

/-- A line table is only written if there are lines, and read as no lines otherwise. -/
private theorem reads_lines {b : Body} (hb : b.Fits) :
    (u16 >>= fun count => times count fun _ => Code.readLines p).Reads
      (counted (attributeBytes lineAttribute) (if b.lines.isEmpty then [] else [lineTable b.lines]))
      (if b.lines.isEmpty then [] else [b.lines]) := by
  split
  · exact reads_counted (by simp) .nil
  · exact reads_counted (by simp) (.cons (fun _ => reads_readLines hp hline hb) .nil)

/-- `Code.read` reads code and lines back. -/
private theorem reads_code {b : Body} (hb : b.Fits) :
    (Code.read p).Reads (codeContent lineAttribute b) ⟨8, 8, b.bytes, b.lines⟩ := by
  rw [codeContent]
  simp only [List.append_assoc]
  -- the length of the code and the code itself are read by one step
  rw [← List.append_assoc (word32 _)]
  refine (reads_u16 (by decide)).bind ((reads_u16 (by decide)).bind ?_)
  refine (reads_codeBytes hb.pos hb.bytes).bind ((reads_u16 (by decide)).bind ?_)
  have hskip : (Reader.skip (0 * 8) : Reader Problem Unit).Reads [] () := reads_skip []
  refine hskip.after ?_
  have hlines : b.lines = (if b.lines.isEmpty then [] else [b.lines]).flatten := by
    cases b.lines <;> simp
  have hread := (reads_lines hp hline hb).map fun lines => Code.mk 8 8 b.bytes lines.flatten
  rw [bind_assoc, ← hlines] at hread
  exact hread

include hcode

/-- `Method.readCode` reads code back from its attribute. -/
private theorem reads_readCode {b : Body} (hb : b.Fits) (name descriptor : String) :
    (Method.readCode p name descriptor).Reads
      (attributeBytes codeAttribute (codeContent lineAttribute b))
      (some ⟨8, 8, b.bytes, b.lines⟩) := by
  refine (reads_attribute hp hcode (length_codeContent_lt hb lineAttribute)).last ?_
  rw [if_pos rfl]
  exact ((reads_code hp hline hb).inside.mapCause _).map some

/-! ### Methods -/

/-- A method has one code attribute or none, and is read back so. -/
private theorem reads_codes {body : Option Body} (hbody : ∀ b ∈ body, b.Fits) (name descriptor : String) :
    (u16 >>= fun count => times count fun _ => Method.readCode p name descriptor).Reads
      (counted (attributeBytes codeAttribute) (body.toList.map (codeContent lineAttribute)))
      (body.toList.map fun b => some ⟨8, 8, b.bytes, b.lines⟩) := by
  cases body with
  | none => exact reads_counted (by simp) .nil
  | some b =>
    exact reads_counted (by simp)
      (.cons (fun _ => reads_readCode hp hline hcode (hbody b rfl) name descriptor) .nil)

/-- `Method.read` reads a method back from `methodBytes`. -/
private theorem reads_method {w : WrittenMethod} {n d : Nat} (hn : p.text n = .ok w.spec.name)
    (hd : p.text d = .ok w.spec.descriptor) (hw : ∀ b ∈ w.body, b.Fits) :
    (Method.read p).Reads (methodBytes codeAttribute lineAttribute (w, n, d)) w.parsed := by
  have haccess : w.spec.kind.access < 65536 := by cases w.spec.kind <;> decide
  rw [methodBytes]
  simp only [List.append_assoc]
  refine (reads_u16 haccess).bind ((reads_u16 (lt_of_text hp hn)).bind ?_)
  refine (reads_u16 (lt_of_text hp hd)).bind ?_
  rw [hn, hd]
  refine (reads_ofExcept _).after ((reads_ofExcept _).after ?_)
  rw [← bind_assoc]
  -- of at most one code the last is the one that was written
  have hparsed : w.parsed = ⟨w.spec.kind.access, w.spec.name, w.spec.descriptor,
      ((w.body.toList.map fun b => some ⟨8, 8, b.bytes, b.lines⟩).filterMap id).getLast?⟩ := by
    rw [WrittenMethod.parsed]
    cases w.body <;> rfl
  rw [hparsed]
  exact (reads_codes hp hline hcode hw w.spec.name w.spec.descriptor).map fun codes =>
    Method.mk w.spec.kind.access w.spec.name w.spec.descriptor (codes.filterMap id).getLast?

end

/-! ### Details of a class -/

/-- `Bootstrap.read` reads a bootstrap method back. -/
private theorem reads_bootstrap {b : Bootstrap} (hhandle : b.handle < 65536) (hcount : b.arguments.length ≤ 3)
    (harguments : ∀ a ∈ b.arguments, a < 65536) :
    Bootstrap.read.Reads (word16 b.handle ++ counted word16 b.arguments) b := by
  refine (reads_u16 hhandle).bind ?_
  rw [← bind_assoc]
  have hread := reads_counted (r := fun _ => u16) (f := word16) (Nat.lt_of_le_of_lt hcount (by decide))
    (List.forall₂_same.2 fun a ha _ => reads_u16 (harguments a ha))
  exact hread.map fun arguments => Bootstrap.mk b.handle arguments

/-- Bootstrap methods that a class file can hold. -/
structure FitTable (table : List Bootstrap) : Prop where
  length : table.length < 65536
  handle : ∀ b ∈ table, b.handle < 65536
  count : ∀ b ∈ table, b.arguments.length ≤ 3
  arguments : ∀ b ∈ table, ∀ a ∈ b.arguments, a < 65536

/-- `Bootstrap.readAll` reads the bootstrap methods back. -/
private theorem reads_bootstrapTable {table : List Bootstrap} (h : FitTable table) :
    Bootstrap.readAll.Reads (bootstrapTable table) table :=
  reads_counted h.length (List.forall₂_same.2 fun b hb _ =>
    reads_bootstrap (h.handle b hb) (h.count b hb) (h.arguments b hb))

/-- The bootstrap methods that a class can hold take fewer bytes than thirty-two bits can count. -/
private theorem length_bootstrapTable_lt {table : List Bootstrap} (h : FitTable table) :
    (bootstrapTable table).length < 4294967296 := by
  -- a bootstrap method is a handle, a number and at most three arguments: ten bytes
  have hlength := h.length
  have hle : (bootstrapTable table).length ≤ 2 + 10 * table.length := by
    refine length_counted_le fun b hb => ?_
    have hcount := h.count b hb
    have harguments : (counted word16 b.arguments).length ≤ 2 + 2 * b.arguments.length :=
      length_counted_le fun _ _ => Nat.le_refl 2
    rw [List.length_append, length_word16]
    omega
  omega

/-- The only bootstrap methods in `details` are those of the class. -/
private theorem bootstrap_of_mem_details {c : ClassSpec} {table t : List Bootstrap}
    (h : .bootstrap t ∈ details c table) : t = table := by
  rcases List.mem_append.1 h with h | h
  · split at h <;> simp at h
  · split at h
    · exact nomatch h
    · exact ClassDetail.bootstrap.inj (List.mem_singleton.1 h)

/-- `ClassDetail.read` reads back what an attribute says. -/
private theorem reads_detail {p : Pool} (hp : p.size < 65536) {table : List Bootstrap} (htable : FitTable table)
    {c : ClassSpec} {d : ClassDetail} (hd : d ∈ details c table) {a : Nat × List UInt8}
    (h : Says p d a) : (ClassDetail.read p).Reads (attributeBytes a.1 a.2) d := by
  obtain ⟨name, content⟩ := a
  cases d with
  | sourceFile s =>
    obtain ⟨hname, i, rfl, hi⟩ := h
    have hlength : (word16 i).length < 4294967296 := show 2 < 4294967296 by decide
    refine (reads_attribute hp hname hlength).last ?_
    rw [if_pos rfl]
    refine (reads_u16 (lt_of_text hp hi)).inside.after ?_
    rw [hi]
    exact ((reads_ofExcept s).mapCause _).map _
  | bootstrap t =>
    obtain ⟨hname, rfl⟩ := h
    obtain rfl := bootstrap_of_mem_details hd
    refine (reads_attribute hp hname (length_bootstrapTable_lt htable)).last ?_
    rw [if_neg (show "BootstrapMethods" ≠ "SourceFile" by decide), if_pos rfl]
    exact ((reads_bootstrapTable htable).inside.mapCause _).map _
  -- no attribute of another name is written
  | other => exact h.elim

/-- The source file is the one that the details name, or empty if they name none. -/
private theorem sourceFileOf_details (c : ClassSpec) (table : List Bootstrap) :
    ClassDetail.sourceFileOf (details c table) = c.source := by
  unfold details
  cases hsource : c.source.isEmpty with
  | true =>
    rw [String.isEmpty_iff.1 hsource]
    cases table <;> rfl
  | false => cases table <;> rfl

/-- A class has at most two attributes. -/
private theorem length_details_le (c : ClassSpec) (table : List Bootstrap) : (details c table).length ≤ 2 := by
  unfold details
  cases c.source.isEmpty <;> cases table <;> simp

/-- The bootstrap methods are those that the details hold, or none. -/
private theorem bootstrapOf_details (c : ClassSpec) (table : List Bootstrap) :
    ClassDetail.bootstrapOf (details c table) = table := by
  unfold details
  cases table with
  | nil => split <;> rfl
  | cons b table => split <;> rfl

/-! ### Classes -/

/-- The mark of class files is read back. -/
theorem reads_magic : readMagic.Reads (word32 0xCAFEBABE) () := by
  refine (reads_u32 (by decide)).last ?_
  rw [if_neg (fun h => h rfl)]
  exact reads_pure ()

/-- `readSuper` reads the superclass back, and zero as none. -/
private theorem reads_super {p : Pool} (hp : p.size < 65536) {i : Nat} {name : String}
    (h : if name.isEmpty then i = 0 else p.className i = .ok name) :
    (readSuper p).Reads (word16 i) name := by
  split at h
  · next hempty =>
    rw [h, String.isEmpty_iff.1 hempty]
    exact (reads_u16 (by decide)).last (reads_pure "")
  · refine (reads_u16 (lt_of_className hp h)).last ?_
    rw [if_neg (Pool.ne_zero_of_className h), h]
    exact (reads_ofExcept name).mapCause _

/-- A class as it is read back from a layout. -/
def parsedClass (path : Text.RawText) (c : ClassSpec) (methods : List WrittenMethod)
    (table : List Bootstrap) (p : Pool) : ClassFile :=
  { path, minor := 0, major := 52
    access := if c.isInterface then 0x0601 else 0x0021
    name := c.name, super := c.super, interfaces := c.interfaces, sourceFile := c.source
    methods := methods.map WrittenMethod.parsed
    bootstrap := table, pool := p }

/-- The bootstrap methods of a `Sound` state fit if there are not too many constants. -/
private theorem State.Sound.fitTable {s : State} (hs : s.Sound) (hsize : s.pool.size < 65536)
    (htable : s.bootstrap.length < 65536) : FitTable s.bootstrap := by
  have hlength : s.constants.entries.length < 65536 := by
    rw [size_pool] at hsize
    omega
  refine ⟨htable, fun b hb => ?_, fun b hb => (hs.bootstrap b hb).2.1, fun b hb a ha => ?_⟩
  · exact Nat.lt_of_le_of_lt (hs.bootstrap b hb).1 hlength
  · exact Nat.lt_of_le_of_lt ((hs.bootstrap b hb).2.2 a ha) hlength

section
variable {s : State} (hs : s.Sound) (hsize : s.pool.size < 65536)
  (htable : s.bootstrap.length < 65536) {c : ClassSpec} {methods : List WrittenMethod} {l : Layout}
  (hl : l.Names c methods s.bootstrap s.pool)

include hsize hl

/-- All methods are read back from what their layout names. -/
private theorem reads_methods (hmethods : ∀ w ∈ methods, ∀ b ∈ w.body, b.Fits) :
    List.Forall₂ (fun m r => ∀ i, (during (.method i) (Method.read s.pool)).Reads
      (methodBytes l.codeAttribute l.lineAttribute m) r) l.methods
      (methods.map WrittenMethod.parsed) := by
  have hnamed := (List.forall₂_and_left _ _).2 ⟨hmethods, hl.methods⟩
  rw [List.forall₂_map_right_iff]
  refine hnamed.flip.imp fun m w hw i => ?_
  obtain ⟨hbody, rfl, hname, hdescriptor⟩ := hw
  exact (reads_method hsize hl.lines hl.code hname hdescriptor hbody).mapCause _

include hs htable

/-- `ClassFile.read` reads a class back from what its layout names. -/
private theorem reads_layout (hmethods : ∀ w ∈ methods, ∀ b ∈ w.body, b.Fits)
    (hinterfaces : c.interfaces.length < 65536) (hcount : methods.length < 65536)
    (path : Text.RawText) :
    (ClassFile.read path).Reads (l.encode s.constants)
      (parsedClass path c methods s.bootstrap s.pool) := by
  have hlength : s.constants.entries.length + 1 < 65536 := by rwa [size_pool] at hsize
  have haccess : l.access < 65536 := by
    rw [hl.access]
    split <;> decide
  have hpool : Pool.read.Reads s.constants.encode s.pool := reads_pool hlength htable hs.fits
  have hfields : (times 0 fun _ => skipField : Reader Problem (List Unit)).Reads [] [] :=
    reads_times (f := fun _ : Unit => []) .nil
  have hattributes : l.attributes.length < 65536 := by
    have := length_details_le c s.bootstrap
    rw [← hl.attributes.length_eq]
    omega
  rw [Layout.encode]
  simp only [List.append_assoc]
  -- the mark, the version, the pool and the class itself
  refine reads_magic.bind ((reads_u16 (by decide)).bind ((reads_u16 (by decide)).bind ?_))
  refine hpool.bind ((reads_u16 haccess).bind ((reads_u16 (lt_of_className hsize hl.this)).bind ?_))
  rw [hl.this]
  refine ((reads_ofExcept c.name).mapCause _).after ((reads_super hsize hl.super).bind ?_)
  -- interfaces, no fields, and methods
  refine reads_counted_bind (hl.interfaces.length_eq ▸ hinterfaces)
    (hl.interfaces.flip.imp fun i name h k => reads_className hsize h (.interface k)) ?_
  refine (reads_u16 (by decide)).bind (hfields.after ?_)
  refine reads_counted_bind (hl.methods.length_eq ▸ hcount) (reads_methods hsize hl hmethods) ?_
  rw [← bind_assoc]
  -- the attributes of the class say no more than the details do
  have hdetails := (List.forall₂_and_left _ _).2 ⟨fun d hd => hd, hl.attributes⟩
  have hread := reads_counted hattributes (hdetails.flip.imp fun a d h _ =>
    reads_detail hsize (hs.fitTable hsize htable) h.1 h.2)
  -- the class as it is put together by the reader
  have hparsed : parsedClass path c methods s.bootstrap s.pool =
      { path, minor := 0, major := 52, access := l.access, name := c.name, super := c.super
        interfaces := c.interfaces, methods := methods.map WrittenMethod.parsed, pool := s.pool
        sourceFile := ClassDetail.sourceFileOf (details c s.bootstrap)
        bootstrap := ClassDetail.bootstrapOf (details c s.bootstrap) } := by
    rw [sourceFileOf_details, bootstrapOf_details, hl.access, parsedClass]
  rw [hparsed]
  exact hread.map _

end
/-! ### Described classes -/

/-- What is written for a class: its methods, its layout, and the constants and bootstrap methods. -/
def assembly (c : ClassSpec) : (List WrittenMethod × Layout) × State :=
  assemble.run c ⟨.empty, []⟩

namespace ClassSpec

/-- A class that fits into the format: its texts can be written, the names in its calls can be told apart, and
    nothing there is to count exceeds sixteen bits. -/
structure WellFormed (c : ClassSpec) : Prop where
  name : isWritable c.name
  super : isWritable c.super
  source : isWritable c.source
  interfaces : ∀ i ∈ c.interfaces, isWritable i
  methods : ∀ m ∈ c.methods, m.isWellFormed
  interface_count : c.interfaces.length < 65536
  method_count : c.methods.length < 65536
  constant_count : (assembly c).2.constants.entries.length + 1 < 65536
  bootstrap_count : (assembly c).2.bootstrap.length < 65536

/-- A class file that is what its description says. -/
structure Describes (c : ClassSpec) (f : ClassFile) : Prop where
  version : f.minor = 0 ∧ f.major = 52
  access : f.access = if c.isInterface then 0x0601 else 0x0021
  name : f.name = c.name
  super : f.super = c.super
  interfaces : f.interfaces = c.interfaces
  sourceFile : f.sourceFile = c.source
  /-- The methods with what their steps say, the indices in the code taken in this very class. -/
  methods : List.Forall₂ (MethodSpec.Describes f.pool f.bootstrap) c.methods f.methods
  /-- The methods byte by byte. -/
  written : f.methods = (assembly c).1.1.map WrittenMethod.parsed
  bootstrap : f.bootstrap = (assembly c).2.bootstrap

end ClassSpec

/-- The code of a method that fits into the format does so too. -/
theorem MethodSpec.Describes.fits {p : Pool} {table : List Bootstrap} {m : MethodSpec}
    (hm : m.isWellFormed) {w : WrittenMethod} (h : m.Describes p table w.parsed) :
    ∀ b ∈ w.body, b.Fits := by
  intro b hb
  have hcode : w.parsed.code = some ⟨8, 8, b.bytes, b.lines⟩ := by
    rw [WrittenMethod.parsed, Option.mem_def.1 hb]
    rfl
  have hdescribed := h.code
  rw [hcode] at hdescribed
  split at hdescribed
  · exact nomatch hdescribed
  · next hkind =>
    simp only [isWellFormed, Bool.and_eq_true, Bool.or_eq_true, beq_iff_eq, hkind, false_or,
      List.all_eq_true, decide_eq_true_eq] at hm
    obtain ⟨-, ⟨-, hsize⟩, hcount⟩ := hm
    obtain ⟨c, hc, code, hemitted, rfl⟩ := hdescribed
    obtain ⟨-, -, hbytes, hlines⟩ := Code.mk.inj (Option.some.inj hc)
    -- the code is as long as its steps say, which was checked
    have hlength := hemitted.length_eq
    refine ⟨?_, ?_, hlines ▸ hcount, fun e he => ?_⟩
    · -- code without steps is a single return, so it is never empty
      rw [hbytes]
      split
      · exact Nat.one_pos
      · next hne => exact List.length_pos_of_ne_nil fun h => hne (List.isEmpty_iff.2 h)
    · rw [hbytes]
      split
      · decide
      · omega
    · rw [hlines] at he
      obtain ⟨hpc, hline⟩ := bounds_of_mem_linesFrom he
      exact ⟨by omega, hline⟩

/-- What each item of one list gives the item of the other at its place holds of all those. -/
private theorem forall_mem_of_forall₂ {α β : Type} {R : α → β → Prop} {P : β → Prop} {xs : List α}
    {ys : List β} (h : List.Forall₂ R xs ys) (hP : ∀ x ∈ xs, ∀ y, R x y → P y) : ∀ y ∈ ys, P y := by
  induction h with
  | nil => exact nofun
  | cons hxy _ ih =>
    rw [List.forall_mem_cons]
    exact ⟨hP _ List.mem_cons_self _ hxy, ih fun x hx => hP x (List.mem_cons_of_mem _ hx)⟩

/-- The name and the descriptor of a well-formed method can be written. -/
private theorem MethodSpec.isWritable_of_isWellFormed {m : MethodSpec} (hm : m.isWellFormed) :
    isWritable m.name ∧ isWritable m.descriptor := by
  simp only [isWellFormed, Bool.and_eq_true] at hm
  exact hm.1

/-- What is written for a class names and describes it. -/
private theorem names_assembly {c : ClassSpec} (hc : c.WellFormed) :
    (assembly c).2.Sound ∧
      (assembly c).1.2.Names c (assembly c).1.1 (assembly c).2.bootstrap (assembly c).2.pool ∧
      List.Forall₂ (fun m w => m.Describes (assembly c).2.pool (assembly c).2.bootstrap w.parsed)
        c.methods (assembly c).1.1 := by
  have hcode := Writes.mapM sound_empty fun m hm s hs => writes_writeMethod hs (hc.methods m hm)
  -- the code of the methods is written first, and the names behind it
  cases hwritten : c.methods.mapM writeMethod ⟨.empty, []⟩ with | _ ws s₁ =>
  have hassembly : assembly c = ((ws, (layout c ws s₁).1), (layout c ws s₁).2) := by
    simp only [assembly, assemble.run, bind, StateT.bind, hwritten]
    rfl
  obtain ⟨hs₁, -, hws⟩ := hcode
  rw [hwritten] at hs₁ hws
  have htexts : ∀ w ∈ ws, isWritable w.spec.name ∧ isWritable w.spec.descriptor := by
    refine forall_mem_of_forall₂ (hws s₁.within_self) fun m hm w h => ?_
    rw [h.1]
    exact m.isWritable_of_isWellFormed (hc.methods m hm)
  have hlayout := writes_layout hs₁ hc.name hc.super hc.interfaces hc.source htexts
  have hkept := keeps_layout c ws s₁
  obtain ⟨t, hfirst, hlast, hnames⟩ := hlayout.holds (State.within_self _)
  -- no bootstrap method was added meanwhile
  rw [hkept] at hlast
  obtain rfl := hlast.eq_of_length_le hfirst.length_le
  have hsize : (layout c ws s₁).2.pool.size < 65536 := by
    have hcount := hc.constant_count
    rw [hassembly] at hcount
    rwa [size_pool]
  rw [hassembly]
  refine ⟨hlayout.sound, by rw [hkept]; exact hnames, ?_⟩
  -- what the code was stated of is an earlier state, which the layout has only extended
  refine (hws ((State.within_self _).of_extends hlayout.extended)).imp fun m w h => ?_
  exact h.2 hsize

/-- A class that `assemble` writes is read back by `parse` as it was described. -/
theorem parse_assemble {c : ClassSpec} (hc : c.WellFormed) (path : Text.RawText) {limit : Nat}
    (hlimit : limit = 0 ∨ (assemble c).bytes.length ≤ limit) :
    ∃ f, parse path (assemble c).bytes limit = .ok f ∧ c.Describes f := by
  obtain ⟨hs, hnames, hmethods⟩ := names_assembly hc
  have hsize : (assembly c).2.pool.size < 65536 := by
    rw [size_pool]
    exact hc.constant_count
  have hfits : ∀ w ∈ (assembly c).1.1, ∀ b ∈ w.body, b.Fits :=
    forall_mem_of_forall₂ hmethods fun m hm w h => h.fits (hc.methods m hm)
  have hread := reads_layout hs hsize hc.bootstrap_count hnames hfits hc.interface_count
    (hmethods.length_eq ▸ hc.method_count) path
  -- nothing follows the class
  have hrest : (Cursor.ofBytes (assemble c).bytes).rest =
      (assembly c).1.2.encode (assembly c).2.constants ++ [] := (List.append_nil _).symm
  obtain ⟨cursor, hok, -⟩ := hread hrest
  refine ⟨parsedClass path c (assembly c).1.1 (assembly c).2.bootstrap (assembly c).2.pool, ?_,
    ⟨rfl, rfl⟩, rfl, rfl, rfl, rfl, rfl, List.forall₂_map_right_iff.2 hmethods, rfl, rfl⟩
  rw [parse, if_neg (by omega), hok]

/-- A class with every kind of call, with and without code and lines. -/
def everyCall : ClassSpec where
  name := "a/B"
  interfaces := ["a/I"]
  source := "B.java"
  methods := [
    ⟨.isAbstract, "f", "()V", []⟩,
    ⟨.isStatic, "g", "()V", [.line 7, .invokeStatic "a/B" "h" "()V", .line 8,
      .invokeVirtual "a/B" "h" "()V", .invokeSpecial "a/B" "h" "()V",
      .invokeInterface "a/I" "f" "()V", .lambda "a/B" "h" "()V" "run" "()V" "()La/R;",
      .invokeDynamic "a/B" "h" "()V" "x" "()V", .branch 0xa7 (-3), .raw [0xb1]]⟩,
    ⟨.isPublic, "h", "()V", []⟩]

private theorem wellFormed_everyCall : everyCall.WellFormed where
  name := by decide +kernel
  super := by decide +kernel
  source := by decide +kernel
  interfaces := by decide +kernel
  methods := by decide +kernel
  interface_count := by decide
  method_count := by decide
  constant_count := by decide +kernel
  bootstrap_count := by decide +kernel

/-- `parse_assemble` on `everyCall`. -/
theorem parse_assemble_everyCall : everyCall.WellFormed ∧
    ∃ f, parse "a/B.class" (assemble everyCall).bytes 0 = .ok f ∧ everyCall.Describes f :=
  ⟨wellFormed_everyCall, parse_assemble wellFormed_everyCall "a/B.class" (.inl rfl)⟩

end CallAtlas.ClassFile.Assembler
