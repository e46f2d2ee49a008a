/-
PotatoOS/Paging.lean

The page tables of the boot: `setup_paging`, `load_page_directory` and
`enable_paging` of tty.c, and the walk that the processor makes through them.

The directory and the one table are arrays of 1024 words, each on a page of
its own.  A first loop fills both, a second one writes the pages of the
framebuffer again, and then the first entry of the directory is made to point
to the table.  What the rounds of the first loop have built is `Filled`; the
second loop writes what is there already, so it keeps it.

The dots and the messages go to the terminal.  Its cells are not part of the
memory here: the arrays lie above 1 MiB, with the rest of the kernel.

Main result: `setupPaging_identity`, the translation of all addresses.
-/
import PotatoOS.Word
import PotatoOS.Shell

namespace PotatoOS

/-! ### The two arrays -/

/-- `PAGE_SIZE`. -/
def pageSize : Nat := 4096

/-- `FRAMEBUFFER_ADDRESS`. -/
def framebufferAddress : Nat := 0xA0000

/-- `FRAMEBUFFER_SIZE`, from the height of the text screen. -/
def framebufferSize : Nat := vgaHeight * 600

/-- The address of a page. -/
def Aligned (a : Word) : Prop := a.toNat % pageSize = 0

/-- Where `page_directory` and `page_table` lie. -/
structure PageArrays where
  pageDirectory : Word
  pageTable : Word
  directory_aligned : Aligned pageDirectory
  table_aligned : Aligned pageTable
  ne : pageDirectory ≠ pageTable

/-- What the boot code works on: the terminal, the memory and the two control
registers of the paging unit. -/
structure PagingState where
  shell : Shell
  ram : Ram
  cr0 : Word
  cr3 : Word

/-! ### The code -/

namespace PagingState

variable (out : Outside) (A : PageArrays) (s : PagingState)

/-- A message of the boot. -/
def task (name : String) (state : Nat) : PagingState :=
  { s with shell := s.shell.task (text name) state }

/-- The dot that every round of a loop prints. -/
def dot : PagingState := { s with shell := s.shell.print 0 out.stack (text ".") }

/-- `array[i] = v` -/
def assign (array : Word) (i : Nat) (v : Word) : PagingState :=
  { s with ram := store s.ram (element array i) v }

@[simp] theorem task_ram (name : String) (state : Nat) : (s.task name state).ram = s.ram := rfl

@[simp] theorem assign_ram (array : Word) (i : Nat) (v : Word) :
    (s.assign array i v).ram = store s.ram (element array i) v := rfl

end PagingState

/-- An entry for the page at `address`: present and writable. -/
def pageEntry (address : Nat) : Word := BitVec.ofNat 32 address ||| 3

section

variable (out : Outside) (A : PageArrays)

/-- One round of the first loop. -/
def initRound (s : PagingState) (i : Nat) : PagingState :=
  ((s.assign A.pageDirectory i 0x00000002).assign A.pageTable i (pageEntry (i * pageSize))).dot out

/-- One round of the second loop. -/
def framebufferRound (s : PagingState) (i : Nat) : PagingState :=
  (s.dot out).assign A.pageTable (framebufferAddress / pageSize + i)
    (pageEntry (framebufferAddress + i * pageSize))

/-- The loop that fills the directory and the table. -/
def initTables (s : PagingState) : PagingState := (List.range 1024).foldl (initRound out A) s

/-- The loop that writes the pages of the framebuffer. -/
def mapFramebuffer (s : PagingState) : PagingState :=
  (List.range (framebufferSize / pageSize)).foldl (framebufferRound out A) s

/-- `load_page_directory`. -/
def loadPageDirectory (s : PagingState) (pageDirectory : Word) : PagingState :=
  { s with cr3 := pageDirectory }

/-- `enable_paging`: bit 31 of `cr0`. -/
def enablePaging (s : PagingState) : PagingState := { s with cr0 := s.cr0 ||| 0x80000000 }

@[simp] theorem loadPageDirectory_ram (s : PagingState) (pageDirectory : Word) :
    (loadPageDirectory s pageDirectory).ram = s.ram := rfl

@[simp] theorem enablePaging_ram (s : PagingState) : (enablePaging s).ram = s.ram := rfl

/-- `setup_paging`: fill both arrays, write the pages of the framebuffer, link the table into the
directory, and switch paging on. -/
def setupPaging (s : PagingState) : PagingState :=
  let s := s.task "Initialize page directory and page table..." 0
  let s := initTables out A s
  let s := s.task "Initialize page directory and page table..." 1
  let s := s.task "Map the framebuffer..." 0
  let s := mapFramebuffer out A s
  let s := s.task "Map the framebuffer..." 1
  let s := s.task "Point the page directory to the page table..." 0
  let s := s.assign A.pageDirectory 0 (A.pageTable ||| 3)
  let s := s.task "Point the page directory to the page table..." 1
  let s := s.task "Load the page directory..." 0
  let s := enablePaging (loadPageDirectory s A.pageDirectory)
  s.task "Load the page directory..." 1

end

/-! ### The walk of the processor -/

/-- Bit 0 of an entry. -/
def present (entry : Word) : Bool := entry.getLsbD 0

/-- Bit 1 of an entry. -/
def writable (entry : Word) : Bool := entry.getLsbD 1

/-- The page that an entry, or `cr3`, points to. -/
def frame (entry : Word) : Word := entry &&& 0xFFFFF000

/-- The upper ten bits of an address select the entry of the directory. -/
def directoryIndex (v : Word) : Nat := (v >>> 22).toNat

/-- The ten bits below select the entry of the table. -/
def tableIndex (v : Word) : Nat := (v >>> 12 &&& 0x3FF).toNat

/-- The last twelve bits are the place in the page. -/
def pageOffset (v : Word) : Word := v &&& 0xFFF

/-- What the processor makes of an address. -/
inductive Translation where
  | noTable
  | noPage
  | page (physical : Word) (writable : Bool)
  deriving DecidableEq, Repr

/-- The walk for the address `v` from the directory that `cr3` points to. -/
def walk (m : Ram) (cr3 v : Word) : Translation :=
  let pde := load m (element (frame cr3) (directoryIndex v))
  if present pde then
    let pte := load m (element (frame pde) (tableIndex v))
    if present pte then .page (frame pte ||| pageOffset v) (writable pde && writable pte)
    else .noPage
  else .noTable

/-! ### Addresses -/

section

variable {a v : Word}

theorem directoryIndex_eq (v : Word) : directoryIndex v = v.toNat / 2 ^ 22 := by
  rw [directoryIndex, BitVec.toNat_ushiftRight, Nat.shiftRight_eq_div_pow]

theorem directoryIndex_lt (v : Word) : directoryIndex v < 1024 := by
  rw [directoryIndex_eq]
  have := v.isLt
  omega

theorem tableIndex_eq (v : Word) : tableIndex v = v.toNat / 2 ^ 12 % 1024 := by
  rw [tableIndex, BitVec.toNat_and, BitVec.toNat_ushiftRight, Nat.shiftRight_eq_div_pow]
  exact Nat.and_two_pow_sub_one_eq_mod _ 10

theorem tableIndex_lt (v : Word) : tableIndex v < 1024 := by
  rw [tableIndex_eq]
  exact Nat.mod_lt _ (by decide)

theorem pageOffset_toNat (v : Word) : (pageOffset v).toNat = v.toNat % pageSize := by
  rw [pageOffset, BitVec.toNat_and]
  exact Nat.and_two_pow_sub_one_eq_mod _ 12

theorem pageOffset_of_aligned (h : Aligned a) : pageOffset a = 0#32 := by
  apply BitVec.eq_of_toNat_eq
  rw [pageOffset_toNat]
  exact h

/-- The two masks cover the word. -/
theorem frame_or_pageOffset (v : Word) : frame v ||| pageOffset v = v := by
  rw [frame, pageOffset, ← BitVec.and_or_distrib_left]
  exact BitVec.and_allOnes

theorem frame_of_aligned (h : Aligned a) : frame a = a := by
  have hor := frame_or_pageOffset a
  rwa [pageOffset_of_aligned h, BitVec.or_zero] at hor

/-- The flags are not part of the frame. -/
theorem frame_or_flags (h : Aligned a) : frame (a ||| 3) = a := by
  have hdist : frame (a ||| 3) = frame a ||| frame 3 := BitVec.and_or_distrib_right
  rw [hdist, frame_of_aligned h]
  exact BitVec.or_zero

theorem present_or_flags (a : Word) : present (a ||| 3) = true := by
  rw [present, BitVec.getLsbD_or]
  exact Bool.or_true _

theorem writable_or_flags (a : Word) : writable (a ||| 3) = true := by
  rw [writable, BitVec.getLsbD_or]
  exact Bool.or_true _

theorem aligned_page (k : Nat) : Aligned (BitVec.ofNat 32 (k * pageSize)) := by
  rw [Aligned, BitVec.toNat_ofNat, pageSize]
  omega

/-- A page and an offset have no bit in common. -/
theorem or_pageOffset_of_aligned (h : Aligned a) (v : Word) :
    a ||| pageOffset v = a + pageOffset v := by
  refine (BitVec.add_eq_or_of_and_eq_zero _ _ ?_).symm
  have hzero : a &&& 0xFFF = 0#32 := pageOffset_of_aligned h
  rw [pageOffset, BitVec.and_comm v, ← BitVec.and_assoc, hzero, BitVec.zero_and]

/-- An address below 4 MiB is its page and its offset. -/
theorem page_or_pageOffset (h : v.toNat < 2 ^ 22) :
    BitVec.ofNat 32 (tableIndex v * pageSize) ||| pageOffset v = v := by
  rw [or_pageOffset_of_aligned (aligned_page _)]
  apply BitVec.eq_of_toNat_eq
  rw [BitVec.toNat_add, BitVec.toNat_ofNat, pageOffset_toNat, tableIndex_eq, pageSize]
  omega

end

/-! ### What the loops build -/

/-- A loop over the first `n` numbers: what holds of the rounds so far holds
of all of them in the end. -/
theorem foldl_range_induction {σ : Type*} {P : Nat → σ → Prop} {round : σ → Nat → σ} {s : σ}
    (n : Nat) (h₀ : P 0 s) (hround : ∀ i < n, ∀ s, P i s → P (i + 1) (round s i)) :
    P n ((List.range n).foldl round s) := by
  induction n with
  | zero => exact h₀
  | succ n ih =>
      rw [List.range_succ, List.foldl_append]
      exact hround n n.lt_succ_self _ (ih fun i hi => hround i (Nat.lt_succ_of_lt hi))

section

variable {A : PageArrays} {m : Ram} {a b v : Word} {i j n : Nat}

/-- Pages that are not the same do not meet. -/
theorem PageArrays.separate (A : PageArrays) :
    Separate A.pageDirectory pageSize A.pageTable pageSize := by
  have hd := A.directory_aligned
  have ht := A.table_aligned
  have hd' := A.pageDirectory.isLt
  have ht' := A.pageTable.isLt
  have hne : A.pageDirectory.toNat ≠ A.pageTable.toNat := fun h => A.ne (BitVec.eq_of_toNat_eq h)
  rw [Aligned, pageSize] at hd ht
  rw [pageSize]
  rcases Nat.lt_or_gt_of_ne hne with hlt | hlt
  · exact .of_le (by omega) (by omega)
  · exact (Separate.of_le (by omega) (by omega)).symm

/-- A store to one page changes no word of another. -/
theorem load_store_page (h : Separate a pageSize b pageSize) (hi : i < 1024) (hj : j < 1024) :
    load (store m (element a i) v) (element b j) = load m (element b j) := by
  refine load_store_of_separate (h.element ?_ ?_)
  all_goals
    rw [pageSize]
    omega

/-- The first `n` entries of both arrays are as the first loop leaves them. -/
structure Filled (A : PageArrays) (n : Nat) (m : Ram) : Prop where
  directory : ∀ i < n, load m (element A.pageDirectory i) = 2
  table : ∀ i < n, load m (element A.pageTable i) = pageEntry (i * pageSize)

theorem Filled.zero (A : PageArrays) (m : Ram) : Filled A 0 m :=
  ⟨fun i hi => absurd hi (Nat.not_lt_zero i), fun i hi => absurd hi (Nat.not_lt_zero i)⟩

theorem Filled.initRound {s : PagingState} (out : Outside) (h : Filled A n s.ram)
    (hn : n < 1024) : Filled A (n + 1) (initRound out A s n).ram where
  directory i hi := by
    refine (load_store_page A.separate.symm hn (by omega)).trans ?_
    refine (load_store_element (by omega) (by omega)).trans ?_
    split
    next => rfl
    next hne => exact h.directory i (by omega)
  table i hi := by
    refine (load_store_element (by omega) (by omega)).trans ?_
    split
    next he => rw [he]
    next hne =>
      refine (load_store_page A.separate hn (by omega)).trans ?_
      exact h.table i (by omega)

/-- The framebuffer is mapped where the first loop has mapped it. -/
theorem Filled.framebufferRound {s : PagingState} (out : Outside) (h : Filled A 1024 s.ram)
    (hi : i < framebufferSize / pageSize) : Filled A 1024 (framebufferRound out A s i).ram := by
  have hpage : framebufferAddress + i * pageSize
      = (framebufferAddress / pageSize + i) * pageSize :=
    (Nat.add_mul (framebufferAddress / pageSize) i pageSize).symm
  have hlt : framebufferAddress / pageSize + i < 1024 := by
    have : framebufferSize / pageSize = 3 := rfl
    have : framebufferAddress / pageSize = 160 := rfl
    omega
  refine ⟨fun j hj => ?_, fun j hj => ?_⟩
  · exact (load_store_page A.separate.symm hlt hj).trans (h.directory j hj)
  · refine (load_store_element (by omega) (by omega)).trans ?_
    split
    next he => rw [hpage, he]
    next => exact h.table j hj

/-- The tables that the processor is given. -/
structure Mapped (A : PageArrays) (m : Ram) : Prop where
  first : load m (element A.pageDirectory 0) = A.pageTable ||| 3
  directory : ∀ i, 0 < i → i < 1024 → load m (element A.pageDirectory i) = 2
  table : ∀ i < 1024, load m (element A.pageTable i) = pageEntry (i * pageSize)

theorem Filled.mapped (h : Filled A 1024 m) :
    Mapped A (store m (element A.pageDirectory 0) (A.pageTable ||| 3)) where
  first := load_store_self ..
  directory i h₀ hi := by
    rw [load_store_element (by omega) (by omega), if_neg h₀.ne]
    exact h.directory i hi
  table i hi := (load_store_page A.separate (by decide) hi).trans (h.table i hi)

/-! ### The translation -/

/-- The walk through these tables. -/
theorem Mapped.walk (h : Mapped A m) (v : Word) :
    walk m A.pageDirectory v = if v.toNat < 2 ^ 22 then .page v true else .noTable := by
  have hdir := directoryIndex_eq v
  unfold PotatoOS.walk
  dsimp only
  rw [frame_of_aligned A.directory_aligned]
  by_cases hlow : v.toNat < 2 ^ 22
  · -- the first entry of the directory, and then an entry of the table
    have hzero : directoryIndex v = 0 := by omega
    rw [hzero, h.first, if_pos (present_or_flags _), frame_or_flags A.table_aligned,
      h.table _ (tableIndex_lt v), pageEntry, if_pos (present_or_flags _),
      frame_or_flags (aligned_page _), page_or_pageOffset hlow, writable_or_flags,
      writable_or_flags, if_pos hlow]
    rfl
  · rw [h.directory _ (by omega) (directoryIndex_lt v), if_neg hlow]
    exact if_neg (by decide)

end

section

variable (out : Outside) (A : PageArrays) (s : PagingState)

theorem initTables_filled : Filled A 1024 (initTables out A s).ram :=
  foldl_range_induction (P := fun n (s : PagingState) => Filled A n s.ram) 1024 (.zero A s.ram)
    fun _ hi _ h => h.initRound out hi

theorem Filled.mapFramebuffer {s : PagingState} (h : Filled A 1024 s.ram) :
    Filled A 1024 (mapFramebuffer out A s).ram :=
  foldl_range_induction (P := fun _ (s : PagingState) => Filled A 1024 s.ram) _ h
    fun _ hi _ h => h.framebufferRound out hi

theorem setupPaging_mapped : Mapped A (setupPaging out A s).ram := by
  rw [setupPaging, PagingState.task_ram, enablePaging_ram, loadPageDirectory_ram,
    PagingState.task_ram, PagingState.task_ram, PagingState.assign_ram]
  apply Filled.mapped
  rw [PagingState.task_ram, PagingState.task_ram]
  apply Filled.mapFramebuffer
  rw [PagingState.task_ram, PagingState.task_ram]
  exact initTables_filled out A _

/-- After `setup_paging` paging is on, and every address below 4 MiB is
translated to itself, as a page that can be written; the others find an entry
of the directory that is not present. -/
theorem setupPaging_identity (v : Word) :
    (setupPaging out A s).cr0.getLsbD 31 = true ∧
      (setupPaging out A s).cr3 = A.pageDirectory ∧
      walk (setupPaging out A s).ram A.pageDirectory v
        = if v.toNat < 2 ^ 22 then .page v true else .noTable := by
  refine ⟨?_, rfl, (setupPaging_mapped out A s).walk v⟩
  show (_ ||| (0x80000000 : Word)).getLsbD 31 = true
  rw [BitVec.getLsbD_or]
  exact Bool.or_true _

end

/-- Two pages above the first MiB. -/
def sampleArrays : PageArrays where
  pageDirectory := 0x00110000
  pageTable := 0x00111000
  directory_aligned := rfl
  table_aligned := rfl
  ne := by decide

/-- Memory of zeros, and paging off. -/
def samplePagingState : PagingState := ⟨bootShell, fun _ => 0, 0x11, 0⟩

/-- The text screen stays where it is, and 4 MiB is not mapped. -/
theorem setupPaging_identity_screen :
    walk (setupPaging emptyOutside sampleArrays samplePagingState).ram 0x00110000 0xB8000
        = .page 0xB8000 true ∧
      walk (setupPaging emptyOutside sampleArrays samplePagingState).ram 0x00110000 0x400000
        = .noTable :=
  ⟨(setupPaging_identity emptyOutside sampleArrays samplePagingState 0xB8000).2.2.trans
      (if_pos (by decide)),
    (setupPaging_identity emptyOutside sampleArrays samplePagingState 0x400000).2.2.trans
      (if_neg (by decide))⟩

end PotatoOS
