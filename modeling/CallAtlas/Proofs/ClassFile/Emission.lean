import CallAtlas.Proofs.ClassFile.Interning

/-!
# Written code

What the steps of a method become: `Step.Emits` says which bytes stand for a step in a class with given
constants and bootstrap methods, where the index in a call has to lead back to the very method that is
called. Code is written step by step (`writes_step`), and all of it stands for all the steps
(`writes_steps`), with the line table that the sizes of the steps give (`linesFrom`).
-/

namespace CallAtlas.ClassFile.Assembler

/-! ### The bytes of a step -/

/-- An instruction with two bytes for the index of a method. -/
def Invokes (p : Pool) (opcode : UInt8) (r : MemberRef) (rest code : List UInt8) : Prop :=
  ∃ a b, code = opcode :: a :: b :: rest ∧ p.methodRef (Cursor.bigEndian [a, b]) = .ok r

/-- An instruction with two bytes for the index of a dynamic call, which is started by a bootstrap method of the
    kind asked for. -/
def InvokesDynamic (p : Pool) (table : List Bootstrap) (name descriptor : String)
    (starts : Bootstrap → Prop) (code : List UInt8) : Prop :=
  ∃ a b k m, code = [0xba, a, b, 0, 0] ∧
    p.invokeDynamic (Cursor.bigEndian [a, b]) = .ok (k, name, descriptor) ∧ table[k]? = some m ∧
    starts m

/-- The handle of a static method. -/
def staticMethod (owner name descriptor : String) : MethodHandle :=
  ⟨staticHandle, 10, owner, name, descriptor⟩

/-- The method that makes the object behind a lambda expression. -/
def metafactory : MethodHandle :=
  staticMethod "java/lang/invoke/LambdaMetafactory" "metafactory" metafactoryDescriptor

/-- A bootstrap method that makes a lambda expression of a static method. -/
def MakesLambda (p : Pool) (body : MethodHandle) (samDescriptor : String) (m : Bootstrap) : Prop :=
  ∃ t b d, m.arguments = [t, b, t] ∧ p.methodHandle m.handle = .ok metafactory ∧
    p.methodHandle b = .ok body ∧ p.get t = .ok (.methodType d) ∧ p.text d = .ok samDescriptor

namespace Step

/-- The bytes that stand for a step. -/
def Emits (p : Pool) (table : List Bootstrap) : Step → List UInt8 → Prop
  | raw bytes, code => code = bytes
  | line _, code => code = []
  | invokeVirtual o n d, code => Invokes p 0xb6 ⟨10, o, n, d⟩ [] code
  | invokeSpecial o n d, code => Invokes p 0xb7 ⟨10, o, n, d⟩ [] code
  | invokeStatic o n d, code => Invokes p 0xb8 ⟨10, o, n, d⟩ [] code
  | invokeInterface o n d, code => Invokes p 0xb9 ⟨11, o, n, d⟩ [1, 0] code
  | lambda o n d sn sd fd, code =>
    InvokesDynamic p table sn fd (MakesLambda p (staticMethod o n d) sd) code
  | invokeDynamic o bn bd n d, code =>
    InvokesDynamic p table n d (fun m => m.arguments = [] ∧
      p.methodHandle m.handle = .ok (staticMethod o bn bd)) code
  | branch op relative, code => code = op :: word16 (low16 relative)

/-- How many bytes stand for a step. -/
def size : Step → Nat
  | raw bytes => bytes.length
  | line _ => 0
  | invokeInterface _ _ _ => 5
  | lambda _ _ _ _ _ _ => 5
  | invokeDynamic _ _ _ _ _ => 5
  | _ => 3

/-- What a step at a place adds to the line table. -/
def lineEntries (pc : Nat) : Step → List LineEntry
  | line n => [⟨pc, low16 n⟩]
  | _ => []

/-- The names of a step can be written and told apart. -/
def isWellFormed : Step → Bool
  | invokeVirtual o n d => isMember o n d
  | invokeSpecial o n d => isMember o n d
  | invokeStatic o n d => isMember o n d
  | invokeInterface o n d => isMember o n d
  | lambda o n d sn sd fd => isMember o n d && isWritable sd && isDynamic sn fd
  | invokeDynamic o bn bd n d => isMember o bn bd && isDynamic n d
  | _ => true
where
  /-- The name and descriptor of a dynamic call. -/
  isDynamic (name descriptor : String) : Bool :=
    isWritable name && isWritable descriptor && name.toList.all (· != ':')

/-- The bytes that a step `Emits` are as many as its `size` says. -/
private theorem size_of_emits {p : Pool} {table : List Bootstrap} {x : Step} {code : List UInt8}
    (h : x.Emits p table code) : code.length = x.size := by
  cases x with
  | raw bytes => rw [show code = bytes from h, size]
  | line n => rw [show code = [] from h, size, List.length_nil]
  | lambda o n d sn sd fd =>
    obtain ⟨a, b, k, m, rfl, -⟩ := h
    rfl
  | invokeDynamic o bn bd n d =>
    obtain ⟨a, b, k, m, rfl, -⟩ := h
    rfl
  | branch op relative => rw [show code = op :: word16 (low16 relative) from h]; rfl
  | _ =>
    -- all other steps are an opcode with an index of two bytes, and what an interface needs
    obtain ⟨a, b, rfl, -⟩ := h
    rfl

end Step

/-- The bytes that stand for steps one after the other. -/
inductive Emitted (p : Pool) (table : List Bootstrap) : List Step → List UInt8 → Prop
  | nil : Emitted p table [] []
  | cons {x : Step} {xs : List Step} {code rest : List UInt8} :
      x.Emits p table code → Emitted p table xs rest → Emitted p table (x :: xs) (code ++ rest)

/-- How many bytes stand for steps. -/
def codeSize : List Step → Nat
  | [] => 0
  | x :: xs => x.size + codeSize xs

/-- The line table of steps from a place on. -/
def linesFrom (pc : Nat) : List Step → List LineEntry
  | [] => []
  | x :: xs => x.lineEntries pc ++ linesFrom (pc + x.size) xs

/-- The bytes `Emitted` for steps are as many as `codeSize` says. -/
theorem Emitted.length_eq {p : Pool} {table : List Bootstrap} {xs : List Step} {code : List UInt8}
    (h : Emitted p table xs code) : code.length = codeSize xs := by
  induction h with
  | nil => rfl
  | cons hx _ ih => rw [List.length_append, Step.size_of_emits hx, ih, codeSize]

/-- The entries of `linesFrom` stand inside the code, with lines of sixteen bits. -/
theorem bounds_of_mem_linesFrom {pc : Nat} {xs : List Step} {e : LineEntry}
    (he : e ∈ linesFrom pc xs) : e.pc ≤ pc + codeSize xs ∧ e.line < 65536 := by
  induction xs generalizing pc with
  | nil => exact nomatch he
  | cons x xs ih =>
    rw [codeSize]
    rcases List.mem_append.1 he with he | he
    · cases x with
      | line n =>
        -- only a line adds an entry, at the place it has reached
        rw [List.mem_singleton.1 he]
        refine ⟨Nat.le_add_right _ _, ?_⟩
        show (n % 65536).toNat < 65536
        omega
      | _ => exact nomatch he
    · obtain ⟨hpc, hline⟩ := ih he
      exact ⟨by omega, hline⟩

/-! ### Indices in code -/

/-- An index of a pool of fewer than 65536 places is read back from the two bytes of an instruction. -/
private theorem bigEndian_operand {p : Pool} {i : Nat} (hi : i < p.size) (hp : p.size < 65536) :
    Cursor.bigEndian [UInt8.ofNat (i / 256), UInt8.ofNat i] = i :=
  bigEndian_word16 (Nat.lt_trans hi hp)

/-- An instruction with the index of a method `Invokes` it. -/
theorem invokes_word16 {p : Pool} {i : Nat} {r : MemberRef} (hp : p.size < 65536)
    (hr : p.methodRef i = .ok r) (opcode : UInt8) (rest : List UInt8) :
    Invokes p opcode r rest (opcode :: word16 i ++ rest) := by
  refine ⟨_, _, rfl, ?_⟩
  -- the index stands below the size of the pool, whichever kind of method it is
  obtain ⟨o, t, ⟨hi, -⟩ | ⟨hi, -⟩⟩ := Pool.methodRef_eq_ok.1 hr
  all_goals rwa [bigEndian_operand (Pool.lt_size_of_get hi) hp]

/-- An instruction with the index of a dynamic call is one that `InvokesDynamic` allows. -/
private theorem invokesDynamic_word16 {p : Pool} {table : List Bootstrap} {i k : Nat} {name descriptor : String}
    {m : Bootstrap} {starts : Bootstrap → Prop} (hp : p.size < 65536)
    (hi : p.invokeDynamic i = .ok (k, name, descriptor)) (hk : table[k]? = some m) (hm : starts m) :
    InvokesDynamic p table name descriptor starts (0xba :: word16 i ++ [0, 0]) := by
  refine ⟨_, _, k, m, rfl, ?_, hk, hm⟩
  obtain ⟨t, ht, -⟩ := Pool.invokeDynamic_eq_ok.1 hi
  rwa [bigEndian_operand (Pool.lt_size_of_get ht) hp]

/-! ### Writing steps -/

/-- The code after a step is the code before it with the bytes of the step behind it. -/
def Step.Appended (x : Step) (b b' : Body) (p : Pool) (table : List Bootstrap) : Prop :=
  ∃ code, b' = ⟨b.bytes ++ code, b.lines ++ x.lineEntries b.bytes.length⟩ ∧ code.length = x.size ∧
    (p.size < 65536 → x.Emits p table code)

/-- An instruction is `Appended` once its index is written. -/
theorem writes_instruction {s : State} {b : Body} {x : Step} {index : Assembly Nat}
    {encode : Nat → List UInt8} {P : Nat → Pool → List Bootstrap → Prop} (hindex : Writes s index P)
    (hlines : x.lineEntries b.bytes.length = []) (hsize : ∀ i, (encode i).length = x.size)
    (hemits : ∀ ⦃i p table⦄, P i p table → p.size < 65536 → x.Emits p table (encode i)) :
    Writes s (do return b.append (encode (← index))) (x.Appended b) := by
  refine hindex.bind fun i s₁ hs₁ _ hi => .pure hs₁ fun p table hw => ?_
  refine ⟨encode i, ?_, hsize i, hemits (hi hw)⟩
  rw [hlines, List.append_nil]
  rfl

/-- The names of the method behind lambda expressions can be written and told apart. -/
private theorem isMember_metafactory :
    isMember "java/lang/invoke/LambdaMetafactory" "metafactory" metafactoryDescriptor := by
  -- the characters of a long text take long to evaluate, those of its parts do not
  unfold isMember isWritable metafactoryDescriptor
  rewrite [String.toList_append, String.toList_append]
  decide +kernel

section
variable {s : State} (hs : s.Sound)
include hs

/-- `shareMethod` writes a method that is read back as such. -/
theorem writes_methodRef {owner name descriptor : String} (h : isMember owner name descriptor) :
    Writes s (shareMethod owner name descriptor) fun i p _ =>
      p.methodRef i = .ok ⟨10, owner, name, descriptor⟩ := by
  refine (writes_method hs h).imp fun i p table _ hi => ?_
  obtain ⟨o, t, hr⟩ := hi
  exact Pool.methodRef_eq_ok.2 ⟨o, t, .inl hr⟩

/-- `shareInterfaceMethod` writes an interface method that is read back as such. -/
private theorem writes_interfaceMethodRef {owner name descriptor : String}
    (h : isMember owner name descriptor) :
    Writes s (shareInterfaceMethod owner name descriptor) fun i p _ =>
      p.methodRef i = .ok ⟨11, owner, name, descriptor⟩ := by
  refine (writes_interfaceMethod hs h).imp fun i p table _ hi => ?_
  obtain ⟨o, t, hr⟩ := hi
  exact Pool.methodRef_eq_ok.2 ⟨o, t, .inr hr⟩

/-- A dynamic call is written with a bootstrap method of its own. -/
private theorem writes_started {handle : Nat} (arguments : List Nat) {name descriptor : String}
    (hhandle : handle ≤ s.constants.entries.length) (hcount : arguments.length ≤ 3)
    (harguments : ∀ a ∈ arguments, a ≤ s.constants.entries.length)
    (hname : Step.isWellFormed.isDynamic name descriptor) :
    Writes s (do shareDynamic (← addBootstrap handle arguments) name descriptor)
      fun i p table => ∃ k, p.invokeDynamic i = .ok (k, name, descriptor) ∧
        table[k]? = some ⟨handle, arguments⟩ := by
  simp only [Step.isWellFormed.isDynamic, Bool.and_eq_true, List.all_eq_true, bne_iff_ne] at hname
  obtain ⟨⟨hn, hd⟩, hclear⟩ := hname
  refine (writes_bootstrap hs hhandle hcount harguments).bind fun k s₁ hs₁ _ hk => ?_
  -- the number of the bootstrap method counts from the state in which it was added
  have hlt : k < s₁.bootstrap.length := (List.getElem?_eq_some_iff.1 (hk s₁.within_self)).1
  refine (writes_dynamic hs₁ hlt (fun hm => hclear _ hm rfl) hn hd).imp fun i p table hw hi => ?_
  exact ⟨k, hi, hk hw⟩

/-- `shareLambda` writes a dynamic call that `MakesLambda` of the static method asked for. -/
private theorem writes_lambda {o n d sn sd fd : String} (h : isMember o n d) (hsd : isWritable sd)
    (hname : Step.isWellFormed.isDynamic sn fd) :
    Writes s (shareLambda o n d sn sd fd) fun i p table =>
      ∃ k m, p.invokeDynamic i = .ok (k, sn, fd) ∧ table[k]? = some m ∧
        MakesLambda p (staticMethod o n d) sd m := by
  refine (writes_handle hs isMember_metafactory).bind fun f s₁ hs₁ _ hf => ?_
  refine (writes_handle hs₁ h).bind fun b s₂ hs₂ hs₁₂ hb => ?_
  refine (writes_methodType hs₂ hsd).bind fun t s₃ hs₃ hs₂₃ ht => ?_
  have hf := fun ⦃p table⦄ (hw : s₃.Within p table) => hf (hw.of_extends (hs₁₂.trans hs₂₃))
  have hb := fun ⦃p table⦄ (hw : s₃.Within p table) => hb (hw.of_extends hs₂₃)
  -- the three indices stand in the pool when the bootstrap method is added
  have hltf := le_of_lt_size (Pool.lt_size_of_methodHandle (hf s₃.within_self))
  have hltb := le_of_lt_size (Pool.lt_size_of_methodHandle (hb s₃.within_self))
  have hltt := le_of_lt_size (ht s₃.within_self).lt_size
  have harguments : ∀ a ∈ [t, b, t], a ≤ s₃.constants.entries.length := by
    simp only [List.forall_mem_cons]
    exact ⟨hltt, hltb, hltt, nofun⟩
  refine (writes_started hs₃ [t, b, t] hltf (Nat.le_refl 3) harguments hname).imp fun i p table hw hi => ?_
  obtain ⟨k, hk, hm⟩ := hi
  obtain ⟨d, htype, htext⟩ := ht hw
  exact ⟨k, _, hk, hm, t, b, d, rfl, hf hw, hb hw, htype, htext⟩

/-- `step` writes a step behind the code so far. -/
theorem writes_step {b : Body} {x : Step} (hx : x.isWellFormed) (hb : b.bytes.length < 65536) :
    Writes s (step b x) (x.Appended b) := by
  cases x with
  | raw bytes =>
    exact .pure hs fun p table _ =>
      ⟨bytes, by simp [Body.append, Step.lineEntries], rfl, fun _ => rfl⟩
  | line n =>
    -- a line adds no bytes, but an entry at the place where the code stands
    refine .pure hs fun p table _ => ⟨[], ?_, rfl, fun _ => rfl⟩
    rw [List.append_nil, Nat.mod_eq_of_lt hb]
    rfl
  | invokeVirtual o n d =>
    -- the calls of methods differ in their operation and in what follows the index
    exact writes_instruction (writes_methodRef hs hx) rfl (fun _ => rfl)
      fun i p _ hi hp => invokes_word16 hp hi 0xb6 []
  | invokeSpecial o n d =>
    exact writes_instruction (writes_methodRef hs hx) rfl (fun _ => rfl)
      fun i p _ hi hp => invokes_word16 hp hi 0xb7 []
  | invokeStatic o n d =>
    exact writes_instruction (writes_methodRef hs hx) rfl (fun _ => rfl)
      fun i p _ hi hp => invokes_word16 hp hi 0xb8 []
  | invokeInterface o n d =>
    exact writes_instruction (writes_interfaceMethodRef hs hx) rfl (fun _ => rfl)
      fun i p _ hi hp => invokes_word16 hp hi 0xb9 [1, 0]
  | lambda o n d sn sd fd =>
    -- the dynamic calls differ in the bootstrap method that starts them
    simp only [Step.isWellFormed, Bool.and_eq_true] at hx
    refine writes_instruction (writes_lambda hs hx.1.1 hx.1.2 hx.2) rfl (fun _ => rfl) ?_
    rintro i p table ⟨k, m, hi, hk, hm⟩ hp
    exact invokesDynamic_word16 hp hi hk hm
  | invokeDynamic o bn bd n d =>
    simp only [Step.isWellFormed, Bool.and_eq_true] at hx
    refine (writes_handle hs hx.1).bind fun f s₁ hs₁ _ hf => ?_
    have hltf := le_of_lt_size (Pool.lt_size_of_methodHandle (hf s₁.within_self))
    have hdynamic := writes_started hs₁ [] hltf (Nat.zero_le 3) (fun _ => nofun) hx.2
    have hstarted := hdynamic.imp fun i p table hw hi => And.intro (hf hw) hi
    -- the handle and the call are one index for `writes_instruction`
    rw [← bind_assoc]
    refine writes_instruction hstarted rfl (fun _ => rfl) ?_
    rintro i p table ⟨hf, k, hi, hk⟩ hp
    exact invokesDynamic_word16 hp hi hk ⟨rfl, hf⟩
  | branch op relative =>
    exact .pure hs fun p table _ =>
      ⟨_, by simp [Body.append, Step.lineEntries], rfl, fun _ => rfl⟩

/-- `steps` writes steps one after the other, with their line table. -/
theorem writes_steps {b : Body} {xs : List Step} (hxs : ∀ x ∈ xs, x.isWellFormed)
    (hsize : b.bytes.length + codeSize xs < 65536) :
    Writes s (steps b xs) fun r p table =>
      ∃ code, r.1 = ⟨b.bytes ++ code, b.lines ++ linesFrom b.bytes.length xs⟩ ∧
        (p.size < 65536 → Emitted p table xs code) := by
  -- on the steps; the state and the code so far change with each of them
  induction xs generalizing s b with
  | nil => exact .pure hs fun p table _ => ⟨[], by simp [linesFrom], fun _ => .nil⟩
  | cons x xs ih =>
    rw [codeSize] at hsize
    refine (writes_step hs (hxs x List.mem_cons_self) (by omega)).bind fun b₁ s₁ hs₁ _ hb₁ => ?_
    -- the bytes of the step do not depend on what comes of the pool, only their meaning does
    obtain ⟨code, rfl, hlength, -⟩ := hb₁ s₁.within_self
    have hsize₁ : (b.bytes ++ code).length + codeSize xs < 65536 := by
      rw [List.length_append]
      omega
    have hrest := ih hs₁ (b := ⟨b.bytes ++ code, b.lines ++ x.lineEntries b.bytes.length⟩)
      (fun y hy => hxs y (List.mem_cons_of_mem x hy)) hsize₁
    refine hrest.bind fun r s₂ hs₂ hs₁₂ hr => .pure hs₂ fun p table hw => ?_
    obtain ⟨rest, hlast, hemitted⟩ := hr hw
    -- what the first step wrote means the same in the pool that comes of all
    obtain ⟨code', hcode, -, hemits⟩ := hb₁ (hw.of_extends hs₁₂)
    obtain rfl := List.append_cancel_left (Body.mk.inj hcode).1
    refine ⟨code ++ rest, ?_, fun hp => .cons (hemits hp) (hemitted hp)⟩
    rw [hlast, linesFrom, List.length_append, hlength, List.append_assoc, List.append_assoc]

end

/-! ### Writing methods -/

/-- A method as it is read back. -/
def WrittenMethod.parsed (w : WrittenMethod) : Method :=
  ⟨w.spec.kind.access, w.spec.name, w.spec.descriptor, w.body.map fun b => ⟨8, 8, b.bytes, b.lines⟩⟩

namespace MethodSpec

/-- The names of a method can be written, and its code and its line table fit. -/
def isWellFormed (m : MethodSpec) : Bool :=
  isWritable m.name && isWritable m.descriptor && (m.kind == .isAbstract ||
    m.steps.all Step.isWellFormed && decide (codeSize m.steps < 65536) &&
      decide ((linesFrom 0 m.steps).length < 65536))

/-- The code of a method: the bytes of its steps, or a mere return if there are none, with the line table that
    the steps give. -/
def HasCode (p : Pool) (table : List Bootstrap) (m : MethodSpec) (r : Code) : Prop :=
  ∃ code, Emitted p table m.steps code ∧
    r = ⟨8, 8, if code.isEmpty then [0xb1] else code, linesFrom 0 m.steps⟩

/-- A method that is what its description says. -/
structure Describes (p : Pool) (table : List Bootstrap) (m : MethodSpec) (r : Method) : Prop where
  access : r.access = m.kind.access
  name : r.name = m.name
  descriptor : r.descriptor = m.descriptor
  code : if m.kind = .isAbstract then r.code = none else ∃ c, r.code = some c ∧ m.HasCode p table c

end MethodSpec

/-- `finish` puts a return into code that would be empty. -/
private theorem Body.finish_eq (b : Body) :
    b.finish = ⟨if b.bytes.isEmpty then [0xb1] else b.bytes, b.lines⟩ := by
  obtain ⟨bytes, lines⟩ := b
  cases bytes <;> rfl

/-- A method that is not abstract is written with the code of its steps. -/
private theorem writeMethod_of_ne_abstract {m : MethodSpec} (h : m.kind ≠ .isAbstract) :
    writeMethod m = steps Body.empty m.steps >>= fun r => pure ⟨m, some r.1.finish, r.2⟩ := by
  unfold writeMethod
  cases hkind : m.kind with
  | isAbstract => exact absurd hkind h
  | _ => rfl

/-- `writeMethod` writes a method that `Describes` its description. -/
theorem writes_writeMethod {s : State} (hs : s.Sound) {m : MethodSpec} (hm : m.isWellFormed) :
    Writes s (writeMethod m) fun w p table =>
      w.spec = m ∧ (p.size < 65536 → m.Describes p table w.parsed) := by
  -- an abstract method has no code to write
  by_cases hkind : m.kind = .isAbstract
  · have hwrite : writeMethod m = pure ⟨m, none, []⟩ := by rw [writeMethod, hkind]
    rw [hwrite]
    exact .pure hs fun p table _ => ⟨rfl, fun _ => ⟨rfl, rfl, rfl, by rw [if_pos hkind]; rfl⟩⟩
  · rw [writeMethod_of_ne_abstract hkind]
    simp only [MethodSpec.isWellFormed, Bool.and_eq_true, Bool.or_eq_true, beq_iff_eq, hkind, false_or,
      List.all_eq_true, decide_eq_true_eq] at hm
    obtain ⟨-, ⟨hsteps, hsize⟩, -⟩ := hm
    have hbody := writes_steps hs (b := .empty) hsteps (by simpa [Body.empty] using hsize)
    refine hbody.bind fun r s₁ hs₁ _ hr => .pure hs₁ fun p table hw => ⟨rfl, fun hp => ?_⟩
    obtain ⟨code, hcode, hemitted⟩ := hr hw
    refine ⟨rfl, rfl, rfl, ?_⟩
    rw [if_neg hkind]
    -- nothing comes before the code of the steps, and nothing but a return behind it
    refine ⟨_, rfl, code, hemitted hp, ?_⟩
    rw [hcode, Body.finish_eq]
    simp [Body.empty]

end CallAtlas.ClassFile.Assembler
