/-
PotatoOS/Switch.lean

`switchTask` of switch.S, which saves the registers of one task in its record
and resumes another task from its own.

The model is the text of the routine over the registers and the memory it
touches; memory is the one that both values of `cr3` map.  `pushf` and `popf`
move the whole flags word, and `mov` to `cr3` leaves the flags alone.  The
code has no jumps, so only `ret` sets `eip`.

The routine falls into three parts, each with an equation for the state it
leaves: everything is pushed and the record of the old task is written
(`exec_save`), the registers of the new task are fetched (`exec_fetch`), the
stack is switched and the new task entered (`exec_leave`).  Together they give
`exec_switchTask`, the specification of a call, and a task that is resumed
after any number of other switches finds its registers as it left them.
-/
import PotatoOS.Word

namespace PotatoOS

/-! ### The machine -/

/-- The general registers. -/
inductive Reg where
  | eax | ecx | edx | ebx | esp | ebp | esi | edi
  deriving DecidableEq, Repr

/-- The registers and the memory of the processor. -/
structure Machine where
  regs : Reg → Word
  eip : Word
  eflags : Word
  cr3 : Word
  mem : Ram

/-- The instructions of `switchTask`. -/
inductive Instr where
  | pusha
  | pushf
  | popf
  | ret
  | push (src : Reg)
  | pop (dst : Reg)
  /-- `mov disp(base), dst` -/
  | movLoad (disp : Word) (base dst : Reg)
  /-- `mov src, disp(base)` -/
  | movStore (src : Reg) (disp : Word) (base : Reg)
  /-- `add $imm, dst` -/
  | add (imm : Word) (dst : Reg)
  /-- `mov %cr3, dst` -/
  | readCr3 (dst : Reg)
  /-- `mov src, %cr3` -/
  | writeCr3 (src : Reg)
  /-- `xchg (base), dst` -/
  | xchg (base dst : Reg)
  deriving DecidableEq, Repr

namespace Machine

/-- A register is set. -/
def set (m : Machine) (r : Reg) (v : Word) : Machine :=
  { m with regs := Function.update m.regs r v }

/-- A word is pushed. -/
def pushWord (m : Machine) (v : Word) : Machine :=
  { m.set .esp (m.regs .esp - 4) with mem := store m.mem (m.regs .esp - 4) v }

end Machine

/-- Carry, parity, adjust, zero, sign and overflow after an addition. -/
def addFlags (flags a b : Word) : Word :=
  let sum := a + b
  let put (flags : Word) (bit : Nat) (on : Bool) : Word :=
    flags &&& ~~~(1#32 <<< bit) ||| (BitVec.ofBool on).setWidth 32 <<< bit
  let flags := put flags 0 (decide (2 ^ 32 ≤ a.toNat + b.toNat))
  let flags := put flags 2 (((List.range 8).countP fun i => sum.getLsbD i) % 2 == 0)
  let flags := put flags 4 (decide (16 ≤ a.toNat % 16 + b.toNat % 16))
  let flags := put flags 6 (sum == 0)
  let flags := put flags 7 sum.msb
  put flags 11 (a.msb == b.msb && sum.msb != a.msb)

/-- What one instruction does. -/
def Instr.exec (m : Machine) : Instr → Machine
  | .pusha =>
      -- the stack pointer is pushed as it was before the instruction
      let esp := m.regs .esp
      ((((((((m.pushWord (m.regs .eax)).pushWord (m.regs .ecx)).pushWord (m.regs .edx)).pushWord
        (m.regs .ebx)).pushWord esp).pushWord (m.regs .ebp)).pushWord (m.regs .esi)).pushWord
        (m.regs .edi))
  | .pushf => m.pushWord m.eflags
  | .popf => { m.set .esp (m.regs .esp + 4) with eflags := load m.mem (m.regs .esp) }
  | .ret => { m.set .esp (m.regs .esp + 4) with eip := load m.mem (m.regs .esp) }
  | .push src => m.pushWord (m.regs src)
  | .pop dst => (m.set .esp (m.regs .esp + 4)).set dst (load m.mem (m.regs .esp))
  | .movLoad disp base dst => m.set dst (load m.mem (m.regs base + disp))
  | .movStore src disp base => { m with mem := store m.mem (m.regs base + disp) (m.regs src) }
  | .add imm dst =>
      { m.set dst (m.regs dst + imm) with eflags := addFlags m.eflags (m.regs dst) imm }
  | .readCr3 dst => m.set dst m.cr3
  | .writeCr3 src => { m with cr3 := m.regs src }
  | .xchg base dst =>
      { m.set dst (load m.mem (m.regs base)) with
        mem := store m.mem (m.regs base) (m.regs dst) }

/-- The text of `switchTask`. -/
def switchTask : List Instr :=
  [.pusha,
   .pushf,
   .readCr3 .eax,
   .push .eax,
   -- the record of the task that is left, with what the registers still hold
   .movLoad 44 .esp .eax,
   .movStore .ebx 4 .eax,
   .movStore .ecx 8 .eax,
   .movStore .edx 12 .eax,
   .movStore .esi 16 .eax,
   .movStore .edi 20 .eax,
   -- eax, the return address, esp, ebp and the flags, as they were pushed
   .movLoad 36 .esp .ebx,
   .movLoad 40 .esp .ecx,
   .movLoad 20 .esp .edx,
   .add 4 .edx,
   .movLoad 16 .esp .esi,
   .movLoad 4 .esp .edi,
   .movStore .ebx 0 .eax,
   .movStore .edx 24 .eax,
   .movStore .esi 28 .eax,
   .movStore .ecx 32 .eax,
   .movStore .edi 36 .eax,
   .pop .ebx,
   .movStore .ebx 40 .eax,
   .push .ebx,
   -- the record of the task that is resumed
   .movLoad 48 .esp .eax,
   .movLoad 4 .eax .ebx,
   .movLoad 8 .eax .ecx,
   .movLoad 12 .eax .edx,
   .movLoad 16 .eax .esi,
   .movLoad 20 .eax .edi,
   .movLoad 28 .eax .ebp,
   -- its flags, its stack and its page directory
   .push .eax,
   .movLoad 36 .eax .eax,
   .push .eax,
   .popf,
   .pop .eax,
   .movLoad 24 .eax .esp,
   .push .eax,
   .movLoad 40 .eax .eax,
   .writeCr3 .eax,
   .pop .eax,
   .push .eax,
   -- its instruction pointer takes the place of the record on the stack, for `ret`
   .movLoad 32 .eax .eax,
   .xchg .esp .eax,
   .movLoad 0 .eax .eax,
   .ret]

/-- Run straight-line code. -/
def Machine.exec (m : Machine) (l : List Instr) : Machine := l.foldl Instr.exec m

theorem exec_append (m : Machine) (l l' : List Instr) :
    m.exec (l ++ l') = (m.exec l).exec l' :=
  List.foldl_append

/-! ### The record of a task -/

/-- `Registers` of tty.c. -/
structure Registers where
  eax : Word
  ebx : Word
  ecx : Word
  edx : Word
  esi : Word
  edi : Word
  esp : Word
  ebp : Word
  eip : Word
  eflags : Word
  cr3 : Word
  deriving DecidableEq

namespace Registers

/-- The record at address `p`. -/
def at_ (mem : Ram) (p : Word) : Registers where
  eax := load mem (p + 0)
  ebx := load mem (p + 4)
  ecx := load mem (p + 8)
  edx := load mem (p + 12)
  esi := load mem (p + 16)
  edi := load mem (p + 20)
  esp := load mem (p + 24)
  ebp := load mem (p + 28)
  eip := load mem (p + 32)
  eflags := load mem (p + 36)
  cr3 := load mem (p + 40)

/-- The record as `switchTask` writes it, in the order of its stores. -/
def save (r : Registers) (mem : Ram) (p : Word) : Ram :=
  store (store (store (store (store (store (store (store (store (store (store mem
    (p + 4) r.ebx) (p + 8) r.ecx) (p + 12) r.edx) (p + 16) r.esi) (p + 20) r.edi)
    (p + 0) r.eax) (p + 24) r.esp) (p + 28) r.ebp) (p + 32) r.eip) (p + 36) r.eflags)
    (p + 40) r.cr3

variable {mem mem' : Ram} {p q x v : Word}

theorem at_congr (h : ∀ c : Word, c.toNat + 4 ≤ 44 → load mem' (p + c) = load mem (p + c)) :
    at_ mem' p = at_ mem p := by
  simp (disch := decide) only [at_, h]

/-- The record is read as it was written. -/
theorem at_save (r : Registers) (mem : Ram) (p : Word) : at_ (r.save mem p) p = r := by
  simp (disch := exact Separate.add_add (by decide) p) only [at_, save, load_store_self,
    load_store_of_separate]

/-- Words outside the record are kept. -/
theorem load_save_of_separate (r : Registers) (h : Separate p 44 x 4) :
    load (r.save mem p) x = load mem x := by
  simp (disch := exact h.left (by decide)) only [save, load_store_of_separate]

/-- A store elsewhere leaves the record alone. -/
theorem at_store (h : Separate p 44 x 4) : at_ (store mem x v) p = at_ mem p :=
  at_congr fun _ hc => load_store_of_separate (h.left hc).symm

/-- So does a record elsewhere. -/
theorem at_save_of_separate (r : Registers) (h : Separate p 44 q 44) :
    at_ (r.save mem q) p = at_ mem p := by
  simp (disch := exact h.right (by decide)) only [save, at_store]

end Registers

/-- The registers of the machine. -/
def Machine.current (m : Machine) : Registers where
  eax := m.regs .eax
  ebx := m.regs .ebx
  ecx := m.regs .ecx
  edx := m.regs .edx
  esi := m.regs .esi
  edi := m.regs .edi
  esp := m.regs .esp
  ebp := m.regs .ebp
  eip := m.eip
  eflags := m.eflags
  cr3 := m.cr3

/-- The registers with which a task that calls a function goes on behind the
call: the return address is taken off the stack. -/
def Machine.returned (m : Machine) : Registers :=
  { m.current with esp := m.regs .esp + 4, eip := load m.mem (m.regs .esp) }

/-! ### Saving -/

/-- What `pusha`, `pushf` and the push of `cr3` leave on the stack. -/
def pushAll (m : Machine) : Ram :=
  store (store (store (store (store (store (store (store (store (store m.mem
    (m.regs .esp + -4) (m.regs .eax)) (m.regs .esp + -8) (m.regs .ecx))
    (m.regs .esp + -12) (m.regs .edx)) (m.regs .esp + -16) (m.regs .ebx))
    (m.regs .esp + -20) (m.regs .esp)) (m.regs .esp + -24) (m.regs .ebp))
    (m.regs .esp + -28) (m.regs .esi)) (m.regs .esp + -32) (m.regs .edi))
    (m.regs .esp + -36) m.eflags) (m.regs .esp + -40) m.cr3

section

variable {m : Machine} {a b p x : Word}

/-- Words above the stack pointer are kept. -/
theorem load_pushAll_of_separate {d : Word} (h : Separate (-48) 48 d 4) :
    load (pushAll m) (m.regs .esp + d) = load m.mem (m.regs .esp + d) := by
  have hpart : ∀ c : Word, (c - -48).toNat + 4 ≤ 48 →
      Separate (m.regs .esp + c) 4 (m.regs .esp + d) 4 := by
    intro c hc
    have hleft := h.left hc
    rw [add_sub_cancel] at hleft
    exact hleft.add_add _
  simp (disch := exact hpart _ (by decide)) only [pushAll, load_store_of_separate]

theorem at_pushAll (h : Separate p 44 (m.regs .esp + -48) 60) :
    Registers.at_ (pushAll m) p = Registers.at_ m.mem p := by
  simp (disch := exact h.right_sub (by decide)) only [pushAll, Registers.at_store]

theorem exec_enter (m : Machine) :
    m.exec (switchTask.take 4)
      = { m with
          regs := Function.update (Function.update m.regs .eax m.cr3) .esp (m.regs .esp + -40)
          mem := pushAll m } := by
  simp only [switchTask, List.take_succ_cons, List.take_zero, Machine.exec, List.foldl_cons,
    List.foldl_nil, Instr.exec, Machine.pushWord, Machine.set, pushAll, Function.update_self,
    Function.update_apply, reduceCtorEq, if_false, BitVec.sub_eq_add_neg, BitVec.add_assoc,
    BitVec.reduceNeg, BitVec.reduceAdd, BitVec.ofNat_eq_ofNat]
  congr 1
  funext r
  cases r <;> simp only [Function.update_apply, reduceCtorEq, if_false, if_true]

/-- Half way through, the record of the old task is complete and everything
pushed so far is still on its stack. -/
theorem exec_save (ha : load m.mem (m.regs .esp + 4) = a)
    (hs : Separate a 44 (m.regs .esp + -48) 60) :
    (m.exec (switchTask.take 24)).regs .esp = m.regs .esp + -40 ∧
      (m.exec (switchTask.take 24)).mem
        = store (m.returned.save (pushAll m) a) (m.regs .esp + -40) m.cr3 := by
  -- the words that are read back, by their distance from the stack pointer at entry
  have harg : load (pushAll m) (m.regs .esp + 4#32) = a :=
    (load_pushAll_of_separate (by decide)).trans ha
  have hret : load (pushAll m) (m.regs .esp + 0#32) = load m.mem (m.regs .esp) := by
    rw [load_pushAll_of_separate (by decide), BitVec.add_zero]
  have hpushed : load (pushAll m) (m.regs .esp + 4294967292#32) = m.regs .eax ∧
      load (pushAll m) (m.regs .esp + 4294967276#32) = m.regs .esp ∧
      load (pushAll m) (m.regs .esp + 4294967272#32) = m.regs .ebp ∧
      load (pushAll m) (m.regs .esp + 4294967260#32) = m.eflags ∧
      load (pushAll m) (m.regs .esp + 4294967256#32) = m.cr3 := by
    simp (disch := exact Separate.add_add (by decide) _) only [pushAll, BitVec.reduceNeg,
      BitVec.ofNat_eq_ofNat, load_store_self, load_store_of_separate, and_self]
  obtain ⟨heax, hesp, hebp, hflags, hcr3⟩ := hpushed
  rw [show switchTask.take 24 = switchTask.take 4 ++ (switchTask.drop 4).take 20 from rfl,
    exec_append, exec_enter]
  simp (disch := exact Separate.words hs (by decide) (by decide)) only [switchTask,
    List.drop_succ_cons, List.drop_zero, List.take_succ_cons, List.take_zero, Machine.exec,
    List.foldl_cons, List.foldl_nil, Instr.exec, Machine.pushWord, Machine.set,
    Function.update_self, Function.update_apply, reduceCtorEq, if_false, BitVec.sub_eq_add_neg,
    BitVec.add_assoc, BitVec.reduceNeg, BitVec.reduceAdd, BitVec.ofNat_eq_ofNat,
    load_store_of_separate, harg, hret, heax, hesp, hebp, hflags, hcr3, Machine.returned,
    Machine.current, Registers.save, and_self]

/-! ### Resuming -/

/-- The registers that are loaded before the stack is switched. -/
theorem exec_fetch (hb : load m.mem (m.regs .esp + 48#32) = b)
    (hs : Separate b 44 (m.regs .esp + -8) 8) :
    m.exec ((switchTask.drop 24).take 12)
      = { m with
          regs := fun
            | .eax => b
            | .ecx => (Registers.at_ m.mem b).ecx
            | .edx => (Registers.at_ m.mem b).edx
            | .ebx => (Registers.at_ m.mem b).ebx
            | .esp => m.regs .esp
            | .ebp => (Registers.at_ m.mem b).ebp
            | .esi => (Registers.at_ m.mem b).esi
            | .edi => (Registers.at_ m.mem b).edi
          eflags := (Registers.at_ m.mem b).eflags
          mem := store (store m.mem (m.regs .esp + -4) b) (m.regs .esp + -8)
            (Registers.at_ m.mem b).eflags } := by
  simp (disch := first
    | (refine Separate.symm (Separate.words hs ?_ ?_) <;> decide)
    | (refine Separate.add_add ?_ _; decide)) only [switchTask, List.drop_succ_cons,
    List.drop_zero, List.take_succ_cons, List.take_zero, Machine.exec, List.foldl_cons,
    List.foldl_nil, Instr.exec, Machine.pushWord, Machine.set, Function.update_self,
    Function.update_apply, reduceCtorEq, if_false, BitVec.sub_eq_add_neg, BitVec.add_assoc,
    BitVec.reduceNeg, BitVec.reduceAdd, BitVec.ofNat_eq_ofNat, load_store_of_separate,
    load_store_self, hb, Registers.at_]
  congr 1
  funext r
  cases r <;> simp only [Function.update_apply, reduceCtorEq, if_false, if_true, BitVec.add_zero]

/-- The switch of the stack and the return. -/
theorem exec_leave (hb : m.regs .eax = b) (hx : (Registers.at_ m.mem b).esp = x)
    (hn : Separate b 44 (x + -4) 4) :
    m.exec (switchTask.drop 36)
      = { regs := Function.update (Function.update m.regs .eax (Registers.at_ m.mem b).eax) .esp x
          eip := (Registers.at_ m.mem b).eip
          eflags := m.eflags
          cr3 := (Registers.at_ m.mem b).cr3
          mem := store (store (store m.mem (x + -4) b) (x + -4) b) (x + -4)
            (Registers.at_ m.mem b).eip } := by
  have hx' : load m.mem (b + 24#32) = x := hx
  simp (disch := first
    | (refine Separate.symm (Separate.words hn ?_ ?_) <;> decide)
    | (refine Separate.add_add ?_ _; decide)) only [switchTask, List.drop_succ_cons,
    List.drop_zero, Machine.exec, List.foldl_cons, List.foldl_nil, Instr.exec, Machine.pushWord,
    Machine.set, Function.update_self, Function.update_apply, reduceCtorEq, if_false,
    BitVec.sub_eq_add_neg, BitVec.add_assoc, BitVec.reduceNeg, BitVec.reduceAdd,
    BitVec.ofNat_eq_ofNat, load_store_of_separate, load_store_self, hb, hx', Registers.at_]
  congr 1
  funext r
  cases r <;> simp only [Function.update_apply, reduceCtorEq, if_false, if_true, BitVec.add_zero]

end

/-! ### The whole switch -/

/-- The machine is about to run `switchTask(a, b)`, with the records apart from
each other, from the stack that the call uses and from the word below the top
of the stack that is resumed. -/
structure SwitchCall (m : Machine) (a b : Word) : Prop where
  old : load m.mem (m.regs .esp + 4) = a
  new : load m.mem (m.regs .esp + 8) = b
  old_stack : Separate a 44 (m.regs .esp + -48) 60
  new_stack : Separate b 44 (m.regs .esp + -48) 60
  records : Separate a 44 b 44
  old_resumed : Separate a 44 ((Registers.at_ m.mem b).esp + -4) 4
  new_resumed : Separate b 44 ((Registers.at_ m.mem b).esp + -4) 4

section

variable {m m₂ : Machine} {a b c : Word}

/-- A switch saves the state of the old task as it is to go on, and resumes the
new task from its record. -/
theorem exec_switchTask (h : SwitchCall m a b) :
    (m.exec switchTask).current = Registers.at_ m.mem b ∧
      Registers.at_ (m.exec switchTask).mem a = m.returned := by
  obtain ⟨hesp, hmem⟩ := exec_save h.old h.old_stack
  rw [show switchTask = switchTask.take 24 ++ ((switchTask.drop 24).take 12 ++ switchTask.drop 36)
    from rfl, exec_append, exec_append]
  generalize m.exec (switchTask.take 24) = m₁ at hesp hmem ⊢
  -- the first half has left the other record and the second argument alone
  have hb₁ : Registers.at_ m₁.mem b = Registers.at_ m.mem b := by
    rw [hmem, Registers.at_store (h.new_stack.right_sub (by decide)),
      Registers.at_save_of_separate _ h.records.symm, at_pushAll h.new_stack]
  have ha₁ : Registers.at_ m₁.mem a = m.returned := by
    rw [hmem, Registers.at_store (h.old_stack.right_sub (by decide)), Registers.at_save]
  have hnew : load m₁.mem (m₁.regs .esp + 48#32) = b := by
    rw [hesp, add_assoc, show (-40 : Word) + 48#32 = 8 from rfl, hmem,
      load_store_of_separate (Separate.add_add (by decide) _),
      Registers.load_save_of_separate _ (h.old_stack.right_sub (by decide)),
      load_pushAll_of_separate (by decide), h.new]
  have hs : ∀ {p : Word}, Separate p 44 (m.regs .esp + -48) 60 →
      Separate p 44 (m₁.regs .esp + -8) 8 := by
    intro p hp
    rw [hesp, add_assoc]
    exact hp.right_sub (by decide)
  rw [exec_fetch hnew (hs h.new_stack), hb₁]
  set x := (Registers.at_ m.mem b).esp with hx
  -- the two words on the old stack are outside of both records
  have hpushed : ∀ {p v w : Word}, Separate p 44 (m.regs .esp + -48) 60 →
      Registers.at_ (store (store m₁.mem (m₁.regs .esp + -4) v) (m₁.regs .esp + -8) w) p
        = Registers.at_ m₁.mem p := by
    intro p v w hp
    rw [Registers.at_store ((hs hp).right_sub (by decide)),
      Registers.at_store ((hs hp).right_sub (by decide))]
  rw [exec_leave rfl (by rw [hpushed h.new_stack, hb₁]) h.new_resumed]
  constructor
  · simp only [hpushed h.new_stack, hb₁]
    simp only [Machine.current, Function.update_apply, reduceCtorEq, if_false, if_true]
  · simp only [Registers.at_store h.old_resumed, hpushed h.old_stack, ha₁]

/-- The state in which a task left the processor is the state in which it gets
it back, whatever ran in between, as long as its record was not touched. -/
theorem switchTask_roundTrip (h₁ : SwitchCall m a b) (h₂ : SwitchCall m₂ c a)
    (hkeep : ∀ i < 44, m₂.mem (a + BitVec.ofNat 32 i)
      = (m.exec switchTask).mem (a + BitVec.ofNat 32 i)) :
    (m₂.exec switchTask).eip = load m.mem (m.regs .esp) ∧
      (m₂.exec switchTask).regs .esp = m.regs .esp + 4 ∧
      (∀ r ≠ .esp, (m₂.exec switchTask).regs r = m.regs r) ∧
      (m₂.exec switchTask).eflags = m.eflags ∧ (m₂.exec switchTask).cr3 = m.cr3 := by
  -- what is loaded is the record that was stored
  have hrecord : Registers.at_ m₂.mem a = Registers.at_ (m.exec switchTask).mem a := by
    refine Registers.at_congr fun d hd => load_congr fun i hi => ?_
    have he : a + d + BitVec.ofNat 32 i = a + BitVec.ofNat 32 (d.toNat + i) := by
      rw [BitVec.ofNat_add, BitVec.ofNat_toNat, BitVec.setWidth_eq, add_assoc]
    rw [he]
    exact hkeep _ (by omega)
  have hcur : (m₂.exec switchTask).current = m.returned := by
    rw [(exec_switchTask h₂).1, hrecord, (exec_switchTask h₁).2]
  generalize m₂.exec switchTask = m' at hcur ⊢
  obtain ⟨heax, hebx, hecx, hedx, hesi, hedi, hesp, hebp, heip, hflags, hcr3⟩ :=
    Registers.mk.inj hcur
  refine ⟨heip, hesp, ?_, hflags, hcr3⟩
  intro r hr
  cases r <;> first | assumption | exact absurd rfl hr

end

/-- A call of `switchTask(0x2000, 0x3000)` with the stack at 0x1000. -/
def firstCall : Machine where
  regs := fun r => if r = .esp then 0x1000 else 7
  eip := 0
  eflags := 2
  cr3 := 0x4000
  mem := store (store (store (fun _ => 0) 0x1000 0x500) 0x1004 0x2000) 0x1008 0x3000

/-- A later call of `switchTask(0x6000, 0x2000)` with the stack at 0x5000. -/
def secondCall : Machine where
  regs := fun r => if r = .esp then 0x5000 else 9
  eip := 0
  eflags := 0
  cr3 := 0x8000
  mem := store (store (firstCall.exec switchTask).mem 0x5004 0x6000) 0x5008 0x2000

theorem switchCall_firstCall : SwitchCall firstCall 0x2000 0x3000 := by
  have hx : (Registers.at_ firstCall.mem 0x3000).esp = 0 := by decide +kernel
  refine ⟨by decide +kernel, by decide +kernel, ?_, ?_, .of_le (by decide) (by decide), ?_, ?_⟩
  · exact (Separate.of_le (by decide) (by decide)).symm
  · exact (Separate.of_le (by decide) (by decide)).symm
  · rw [hx]
    exact .of_le (by decide) (by decide)
  · rw [hx]
    exact .of_le (by decide) (by decide)

theorem record_secondCall :
    Registers.at_ secondCall.mem 0x2000 = firstCall.returned := by
  have hold : Separate 0x2000 44 0x5004 4 := .of_le (by decide) (by decide)
  have hnew : Separate 0x2000 44 0x5008 4 := .of_le (by decide) (by decide)
  rw [secondCall, Registers.at_store hnew, Registers.at_store hold,
    (exec_switchTask switchCall_firstCall).2]

theorem switchCall_secondCall : SwitchCall secondCall 0x6000 0x2000 := by
  have hx : (Registers.at_ secondCall.mem 0x2000).esp = 0x1004 := by
    rw [record_secondCall]
    rfl
  refine ⟨?_, load_store_self _ _ _, ?_, .of_le (by decide) (by decide), ?_, ?_, ?_⟩
  · show load (store _ 0x5008 0x2000) 0x5004 = 0x6000
    rw [load_store_of_separate (by decide), load_store_self]
  · exact (Separate.of_le (by decide) (by decide)).symm
  · exact (Separate.of_le (by decide) (by decide)).symm
  · rw [hx]
    exact (Separate.of_le (by decide) (by decide)).symm
  · rw [hx]
    exact (Separate.of_le (by decide) (by decide)).symm

theorem switchTask_roundTrip_sample :
    (secondCall.exec switchTask).eip = 0x500 ∧ (secondCall.exec switchTask).regs .esp = 0x1004 := by
  have h := switchTask_roundTrip switchCall_firstCall switchCall_secondCall fun i hi =>
    (store_apply_of_separate (by decide +kernel) hi).trans
      (store_apply_of_separate (by decide +kernel) hi)
  exact ⟨h.1.trans (by decide +kernel), h.2.1⟩

end PotatoOS
