/-
PotatoOS/PowerOn.lean

Whole runs of the kernel, from the boot loader on.

Start-up and shell are put together here: what the page tables make of an address
while the shell runs, and where the keys of a user can lead.  The shell keeps its
line in the buffer in a clean run, and that is a condition on the states that the
run comes through.  Here it is one on the keys: a run without the letters 'u' and
'U' is clean, since no line then starts with "un".  What is to be carried along
beside the column and the index is the first byte of the line (`Unnamed`).
-/
import PotatoOS.Startup

namespace PotatoOS

open Startup

/-! ### The map of the memory -/

section

variable {A : PageArrays} {m : Ram} {a : Word} {i n : Nat}

theorem framebufferAddress_eq : framebufferAddress = 655360 := rfl

theorem framebufferSize_eq : framebufferSize = 15000 := rfl

theorem fillFramebuffer_succ (n : Nat) (m : Ram) : fillFramebuffer (n + 1) m =
    Function.update (fillFramebuffer n m) (BitVec.ofNat 32 (framebufferAddress + n)) 0x03 := by
  rw [fillFramebuffer, List.range_succ, List.foldl_append]
  rfl

theorem fillFramebuffer_apply (hn : n ≤ framebufferSize) (x : Word) :
    fillFramebuffer n m x =
      if framebufferAddress ≤ x.toNat ∧ x.toNat < framebufferAddress + n then 0x03 else m x := by
  induction n with
  | zero =>
      rw [if_neg (by omega)]
      rfl
  | succ n ih =>
      have hlt : framebufferAddress + n < 2 ^ 32 := by
        have hA := framebufferAddress_eq
        have hS := framebufferSize_eq
        omega
      rw [fillFramebuffer_succ]
      -- the address of this round, or one that only the rounds before have stored at
      by_cases hx : x.toNat = framebufferAddress + n
      · have hself : x = BitVec.ofNat 32 (framebufferAddress + n) := by
          rw [← hx, BitVec.ofNat_toNat, BitVec.setWidth_eq]
        rw [hself, Function.update_self, if_pos]
        rw [BitVec.toNat_ofNat, Nat.mod_eq_of_lt hlt]
        omega
      · have hne : x ≠ BitVec.ofNat 32 (framebufferAddress + n) := by
          rintro rfl
          exact hx (by rw [BitVec.toNat_ofNat, Nat.mod_eq_of_lt hlt])
        rw [Function.update_of_ne hne, ih (by omega)]
        congr 1
        exact propext (by omega)

/-- The framebuffer lies below the first MiB, and the kernel above it. -/
theorem load_setupFramebuffer (hal : Aligned a) (ha : 2 ^ 20 ≤ a.toNat) (hi : i < 1024) :
    load (setupFramebuffer m) (element a i) = load m (element a i) := by
  refine load_congr fun j hj => ?_
  rw [setupFramebuffer, fillFramebuffer_apply (Nat.le_refl _), if_neg]
  have hlt := a.isLt
  rw [Aligned, pageSize] at hal
  have haddr : (element a i + BitVec.ofNat 32 j).toNat = a.toNat + 4 * i + j := by
    rw [element, BitVec.toNat_add, BitVec.toNat_add, BitVec.toNat_ofNat, BitVec.toNat_ofNat]
    omega
  have hA := framebufferAddress_eq
  have hS := framebufferSize_eq
  omega

theorem Mapped.setupFramebuffer (h : Mapped A m) (hd : 2 ^ 20 ≤ A.pageDirectory.toNat)
    (ht : 2 ^ 20 ≤ A.pageTable.toNat) : Mapped A (setupFramebuffer m) where
  first := (load_setupFramebuffer A.directory_aligned hd (by decide)).trans h.first
  directory i h₀ hi :=
    (load_setupFramebuffer A.directory_aligned hd hi).trans (h.directory i h₀ hi)
  table i hi := (load_setupFramebuffer A.table_aligned ht hi).trans (h.table i hi)

end

section

variable (out : Outside) (A : PageArrays) (cmos : Cmos) (fuel : Nat) (century : UInt8)
  {k : Kernel}

theorem setupPaging_cr0 (s : PagingState) : (setupPaging out A s).cr0.getLsbD 31 = true := by
  show (_ ||| (0x80000000 : Word)).getLsbD 31 = true
  rw [BitVec.getLsbD_or]
  exact Bool.or_true _

theorem setupPaging_cr3 (s : PagingState) : (setupPaging out A s).cr3 = A.pageDirectory := rfl

/-- In the shell paging is on, every address below 4 MiB is the address that it
seems to be and the others are not mapped; and the framebuffer is filled. -/
theorem kernelMain_identity (hkeys : setupKeys k.keys ≤ k.keys.length)
    (hnet : k.networkinit = false) (hfs : k.shell.fsinit = false)
    (hclock : Settled cmos fuel k.moment k.stamp century)
    (hd : 2 ^ 20 ≤ A.pageDirectory.toNat) (ht : 2 ^ 20 ≤ A.pageTable.toNat) :
    ∃ (st : Status) (k' : Kernel),
      kernelMain out A cmos fuel century k = (.value st, k') ∧
      k'.cr0.getLsbD 31 = true ∧
      (∀ v : Word, walk k'.ram k'.cr3 v = if v.toNat < 2 ^ 22 then .page v true else .noTable) ∧
      ∀ i < framebufferSize, k'.ram (BitVec.ofNat 32 (framebufferAddress + i)) = 0x03 := by
  obtain ⟨s, k', hrun, -, p, hram, hcr0, hcr3⟩ :=
    kernelMain_run out A cmos fuel century hkeys hnet hfs hclock
  refine ⟨_, k', hrun, ?_, fun v => ?_, fun i hi => ?_⟩
  · rw [hcr0]
    exact setupPaging_cr0 out A p
  · rw [hram, hcr3, setupPaging_cr3]
    exact ((setupPaging_mapped out A p).setupFramebuffer hd ht).walk v
  · have hlt : framebufferAddress + i < 2 ^ 32 := by
      have hA := framebufferAddress_eq
      have hS := framebufferSize_eq
      omega
    rw [hram, setupFramebuffer, fillFramebuffer_apply (Nat.le_refl _), if_pos]
    rw [BitVec.toNat_ofNat, Nat.mod_eq_of_lt hlt]
    omega

end

/-- The text screen is where it was. -/
theorem kernelMain_identity_loaded :
    ∃ (st : Status) (k' : Kernel),
      kernelMain emptyOutside sampleArrays loadedCmos 1 0 loadedKernel = (.value st, k') ∧
      walk k'.ram k'.cr3 0xB8000 = .page 0xB8000 true := by
  obtain ⟨st, k', hrun, -, hwalk, -⟩ := kernelMain_identity emptyOutside sampleArrays loadedCmos
    1 0 (k := loadedKernel) (by decide) rfl rfl
    (settled_of_holds (Rtc.holds_still 2 _) (Nat.le_refl 1) _ _ 0) (by decide) (by decide)
  exact ⟨st, k', hrun, (hwalk 0xB8000).trans (if_pos (by decide))⟩

/-! ### The first byte of the line -/

/-- The key is neither 'u' nor 'U'. -/
structure PlainKey (key : UInt8) : Prop where
  upper : readKeyboard key ≠ 0x55
  lower : readKeyboard key ≠ 0x75

theorem eq_of_strncmp_eq_zero {m m' : Mem} {n : Nat} (h : strncmp m m' (n + 1) = 0) :
    m 0 = m' 0 := by
  have hsub (h : ((m 0).toNat : Int) - (m' 0).toNat = 0) : m 0 = m' 0 :=
    UInt8.toNat_inj.mp (by omega)
  rw [strncmp] at h
  split at h
  · exact hsub h
  · split at h
    · exact hsub h
    next heq => exact not_not.mp heq

theorem strtok_apply (m : Mem) (size str : Nat) (delim : List UInt8) (a : Nat) :
    (strtok m size str delim).2 a = m a ∨ (strtok m size str delim).2 a = 0 := by
  rw [strtok]
  dsimp only
  split
  · exact .inl rfl
  · split
    · show Function.update m _ 0 a = m a ∨ Function.update m _ 0 a = 0
      rw [Function.update_apply]
      split
      · exact .inr rfl
      · exact .inl rfl
    · exact .inl rfl

namespace Shell

variable {out : Outside} {s s' s'' : Shell} {key : UInt8}

/-- The first byte of the line is the same, or the line is empty. -/
def SameFirst (s s' : Shell) : Prop :=
  s'.inputBuffer 0 = s.inputBuffer 0 ∨ s'.inputBuffer 0 = 0

theorem SameFirst.trans (h : s.SameFirst s') (h' : s'.SameFirst s'') : s.SameFirst s'' := by
  rcases h' with he | hz
  · rw [SameFirst, he]
    exact h
  · exact .inr hz

theorem Drawn.sameFirst (h : s.Drawn s') : s.SameFirst s' := .inl (congrFun h.inputBuffer 0)

theorem SameFirst.strtok (s : Shell) (str : Nat) (delim : List UInt8) : s.SameFirst
    { s with inputBuffer := (strtok s.inputBuffer inputBufferSize str delim).2 } :=
  strtok_apply _ _ _ _ 0

theorem sameFirst_panic (s : Shell) (msg : List UInt8) : s.SameFirst (s.panic msg) := by
  have hD := s.panicScreen.drawn_printInv
  have hscreen : s.panicScreen.inputBuffer = s.inputBuffer := by
    unfold panicScreen
    generalize text "PANIC!!!" = data
    rfl
  have hpanic := (hD.reboot (hD.panicTimeout (hD.panicTexts msg (.refl _)))).inputBuffer
  exact .inl (congrFun (hpanic.trans hscreen) 0)

theorem sameFirst_shutdown (s : Shell) : s.SameFirst s.shutdown := by
  have hD := s.drawn_printInv
  unfold shutdown
  refine SameFirst.trans (Drawn.sameFirst ?_) (sameFirst_panic _ _)
  apply hD.task
  apply hD.task
  apply hD.task
  apply hD.task
  apply hD.task
  exact hD.task _ _ (.refl s)

theorem sameFirst_un (out : Outside) (s : Shell) : s.SameFirst (s.un out) := by
  have hnamed (u : Username) : s.SameFirst { s with
      inputBuffer := (strtok s.inputBuffer inputBufferSize 8 (text " ")).2
      username := u } := strtok_apply _ _ _ _ 0
  have hdrawn (s₁ : Shell) (data data' : List UInt8) :
      s₁.Drawn ((s₁.newline.writestring data).writestring data') :=
    s₁.drawn_printInv.writestring _ (s₁.drawn_printInv.writestring _
      (s₁.drawn_printInv.newline (.refl s₁)))
  unfold un
  exact (hnamed _).trans (hdrawn _ _ _).sameFirst

/-- No command puts a letter there. -/
theorem command_sameFirst (out : Outside) (s : Shell) :
    (s.command out).Has s.SameFirst := by
  have hD := s.drawn_printInv
  have hany : ∀ call, OwnCall out call → True := fun _ _ => trivial
  -- one branch for each command, in the order in which the shell compares
  unfold command
  refine .ite (fun _ => ?_) fun _ => ?_
  · exact .ite (fun _ => .running (hD.list out hany (.refl s)).sameFirst)
      fun _ => .halted ((hD.newline (.refl s)).sameFirst.trans (sameFirst_panic _ _))
  refine .ite (fun _ => .running (hD.le out hany (.refl s)).sameFirst) fun _ => ?_
  refine .ite (fun _ => .running ?_) fun _ => ?_
  · exact (SameFirst.strtok s 5 _).trans (s.echo_drawn out).sameFirst
  refine .ite (fun _ => .running ((Drawn.refl s).draw _).sameFirst) fun _ => ?_
  refine .ite (fun _ => .running (hD.ppm (.refl s)).sameFirst) fun _ => ?_
  refine .ite (fun _ => .running (hD.help out hany (.refl s)).sameFirst) fun _ => ?_
  refine .ite (fun _ => .running ((Drawn.refl s).draw _).sameFirst) fun _ => ?_
  refine .ite (fun _ => .running (.inl rfl)) fun _ => ?_
  refine .ite (fun _ => .running (.inl rfl)) fun _ => ?_
  refine .ite (fun _ => .halted (hD.reboot (.refl s)).sameFirst) fun _ => ?_
  refine .ite (fun _ => .running (.inl rfl)) fun _ => ?_
  refine .ite (fun _ => .running ?_) fun _ => ?_
  · obtain ⟨s₁, hdrawn, hs₁⟩ := s.fatinit_eq
    rw [hs₁]
    exact hdrawn.sameFirst
  refine .ite (fun _ => .running (.inl rfl)) fun _ => ?_
  refine .ite (fun _ => .halted (sameFirst_shutdown s)) fun _ => ?_
  refine .ite (fun _ => .running (sameFirst_un out s)) fun _ => ?_
  refine .ite (fun _ => .looping (.inl rfl)) fun _ => ?_
  exact .running (hD.unknown out hany (fun _ => trivial) (.refl s)).sameFirst

/-- No line starts with 'u'. -/
def Unnamed (s : Shell) : Prop := s.inputBuffer 0 ≠ 0x75

theorem SameFirst.unnamed (h : s.SameFirst s') (hs : s.Unnamed) : s'.Unnamed := by
  rcases h with he | hz
  · rw [Unnamed, he]
    exact hs
  · rw [Unnamed, hz]
    decide

theorem sameFirst_terminated (s : Shell) : s.SameFirst s.terminated := by
  rw [SameFirst]
  show Function.update s.inputBuffer s.inputBufferIndex 0 0 = _ ∨
    Function.update s.inputBuffer s.inputBufferIndex 0 0 = 0
  rw [Function.update_apply]
  split
  · exact .inr rfl
  · exact .inl rfl

theorem Unnamed.typed (h : s.Unnamed) {data : UInt8} (hd : data ≠ 0x75) :
    (s.typed data).Unnamed := by
  rw [Shell.typed]
  split
  · show Function.update s.inputBuffer s.inputBufferIndex data 0 ≠ 0x75
    rw [Function.update_apply]
    split
    · exact hd
    · exact h
  · exact h

theorem sameFirst_restart (s : Shell) : s.SameFirst s.restart := .inl rfl

theorem sameFirst_backspace (out : Outside) (s : Shell) : s.SameFirst (s.backspace out) := by
  rw [backspace]
  split <;> exact .inl rfl

theorem sameFirst_enter (out : Outside) (s : Shell) : (s.enter out).Has s.SameFirst := by
  have hcommand := s.command_sameFirst out
  rw [enter]
  generalize s.command out = st at hcommand ⊢
  rcases st with s' | s' | s' | s'
  · have hprompt := (s'.drawn_printInv.prompt out (.refl s')).sameFirst
    exact .running ((hcommand.shell.trans hprompt).trans (sameFirst_restart _))
  all_goals exact hcommand

/-- Without these letters no line becomes a command "un". -/
theorem Unnamed.harmless (h : s.Unnamed) (hk : PlainKey key) : s.Harmless key where
  reset hU := absurd hU hk.upper
  rename _ hstarts :=
    (sameFirst_terminated s).unnamed h (eq_of_strncmp_eq_zero (n := 1) hstarts)

/-- A key keeps it so. -/
theorem Unnamed.handle (h : s.Unnamed) (hk : PlainKey key) :
    (s.handleKeyboardInput out key).Has Unnamed := by
  have hend := (sameFirst_terminated s).unnamed h
  rw [handleKeyboardInput]
  refine .ite (fun _ => .running h) fun _ => ?_
  refine .ite (fun _ => .overrun h) fun _ => ?_
  refine .ite (fun _ => .running ?_) fun _ => ?_
  · exact (sameFirst_backspace out s.terminated).unnamed hend
  refine .ite (fun hU => absurd hU hk.upper) fun _ => ?_
  refine .ite (fun _ => ?_) fun _ => ?_
  · exact ⟨(sameFirst_enter out s.terminated).shell.unnamed hend⟩
  · exact .running (hend.typed hk.lower)

end Shell

/-! ### Runs without these letters -/

section

variable (out : Outside) {st : Status} {s : Shell} {key : UInt8} {keys : List UInt8}

theorem Status.Has.step (h : st.Has Shell.Unnamed) (hk : PlainKey key) :
    (shellStep out st key).Has Shell.Unnamed := by
  rcases st with s | s | s | s
  · rw [shellStep]
    exact .ite (fun _ => h) fun _ => h.shell.handle hk
  all_goals exact h

/-- They are clean. -/
theorem clean_of_plain (h : st.Has Shell.Unnamed) (hk : ∀ key ∈ keys, PlainKey key) :
    Clean out st keys := by
  induction keys generalizing st with
  | nil => trivial
  | cons key keys ih =>
      have hkey := hk key List.mem_cons_self
      refine ⟨?_, ih (h.step out hkey) fun key' hmem => hk key' (List.mem_cons_of_mem _ hmem)⟩
      rcases st with s | s | s | s
      · exact fun _ => h.shell.harmless hkey
      all_goals trivial

theorem Status.Good.leave (h : st.Good) (msg : List UInt8) : (st.leave msg).Good := by
  rcases st with s | s | s | s
  · rw [Status.leave]
    split
    · exact (s.panic_index msg).le.trans (Nat.zero_le _)
    · exact h
  all_goals exact h

theorem Status.Good.overran (h : st.Good) : st.overran = false := by
  rcases st with s | s | s | s
  · rfl
  · rfl
  · rfl
  · exact h.elim

variable (A : PageArrays) (cmos : Cmos) (fuel : Nat) (century : UInt8) {k : Kernel}

/-- From power-on on, whatever else is typed: without 'u' and 'U' no key leads to
a store outside the input buffer. -/
theorem kernelMain_bounded (hkeys : setupKeys k.keys ≤ k.keys.length)
    (hnet : k.networkinit = false) (hfs : k.shell.fsinit = false)
    (hclock : Settled cmos fuel k.moment k.stamp century)
    (hname : k.shell.username = .literal) (hbuffer : k.shell.inputBuffer 0 = 0)
    (hplain : ∀ key ∈ k.keys, PlainKey key) :
    ∃ (st : Status) (k' : Kernel),
      kernelMain out A cmos fuel century k = (.value st, k') ∧
      st.overran = false ∧ st.shell.inputBufferIndex ≤ 255 := by
  obtain ⟨s, k', hrun, hs, -⟩ := kernelMain_run out A cmos fuel century hkeys hnet hfs hclock
  have hstart : s.Drawn (s.start out) :=
    s.drawn_printInv.prompt out (s.drawn_printInv.task _ 1 (.refl s))
  have hfirst : (s.start out).Unnamed := by
    rw [Shell.Unnamed, hstart.inputBuffer, hs.inputBuffer, hbuffer]
    decide
  have hclean : Clean out (.running (s.start out)) (k.keys.drop (setupKeys k.keys)) :=
    clean_of_plain out (.running hfirst) fun key hmem => hplain key (List.mem_of_mem_drop hmem)
  have hgood : (Status.running (s.start out)).Good :=
    Shell.coupled_start out (hs.username.trans hname) hs.index
  have hlast := (hgood.run out hclean).leave []
  exact ⟨_, k', hrun, hlast.overran, hlast.index⟩

end

theorem kernelMain_bounded_loaded :
    ∃ (st : Status) (k' : Kernel),
      kernelMain emptyOutside sampleArrays loadedCmos 1 0 loadedKernel = (.value st, k') ∧
      st.overran = false ∧ st.shell.inputBufferIndex ≤ 255 := by
  have hkeys : ∀ key ∈ loadedKernel.keys,
      readKeyboard key ≠ 0x55 ∧ readKeyboard key ≠ 0x75 := by decide +kernel
  exact kernelMain_bounded emptyOutside sampleArrays loadedCmos 1 0 (by decide) rfl rfl
    (settled_of_holds (Rtc.holds_still 2 _) (Nat.le_refl 1) _ _ 0) rfl rfl
    fun key hmem => ⟨(hkeys key hmem).1, (hkeys key hmem).2⟩

end PotatoOS
