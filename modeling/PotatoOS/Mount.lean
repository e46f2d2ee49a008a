/-
PotatoOS/Mount.lean

Mounting a drive: `mount_drive` of tty.c on the array `mounted_drives` as it
lies in memory.

The other modules about mounted drives start from a descriptor.  Here it is
made.  `read_boot_sector` gives `read_block` the address of the packed boot
sector of 90 bytes, and `read_block` stores 512: the rest lands on the start of
the FAT and of the data, on the count of files and on the first entries of the
table.  `initialize_fat32` sets the two starts again, the others stay.  So the
array is modelled by its bytes, and `MountedDrive.ofBytes` says which drive the
functions of `Mounted.lean` find there.

A call has one lemma (`mountDrive_eq`), and so has a run of calls
(`mounts_after`).  Main results: `mounts_alike`, what any calls leave of an
array that start-up has cleared; `writeFile_mounted_returns_iff`, the boot code
decides whether `write_file` can be used at all; `mounts_roundTrips`, with no
boot code the files of a mounted drive can be read back.
-/
import PotatoOS.FileStore
import PotatoOS.Terminal

namespace PotatoOS

open Prog

/-! ### A drive in memory -/

/-- `sizeof(MountedDrive)`. -/
def driveSize : Nat := 5224

/-- The entry at the start of a memory. -/
def FileEntry.ofBytes (b : Mem) : FileEntry where
  name := b
  size := le b 32 4
  startCluster := le b 36 4

/-- The drive at the start of a memory.  The boot sector lies at 1, `fat_start`
at 92, `data_start` at 96 and the table of files at 100. -/
def MountedDrive.ofBytes (b : Mem) : MountedDrive where
  sectorsPerCluster := (b (1 + 13)).toNat
  numFats := (b (1 + 16)).toNat
  totalSectors32 := le b (1 + 32) 4
  fatSize32 := le b (1 + 36) 4
  fatStart := le b 92 4
  dataStart := le b 96 4
  rootDirectory :=
    { fileCount := le b 100 4
      files := fun i => FileEntry.ofBytes fun k => b (104 + 40 * i + k) }
  sectorsPerCluster_lt := UInt8.toNat_lt _
  numFats_lt := UInt8.toNat_lt _
  totalSectors32_lt := le_lt b _ 4
  fatSize32_lt := le_lt b _ 4
  fatStart_lt := le_lt b _ 4
  dataStart_lt := le_lt b _ 4

/-- The disk, the array `mounted_drives` and the screen. -/
structure Mounts where
  disk : Disk
  drives : Mem
  terminal : Terminal

/-- The memory from a drive of the array on. -/
def Mounts.window (s : Mounts) (n : Nat) : Mem := fun i => s.drives (driveSize * n + i)

/-- The state in which the functions on files start. -/
def Mounts.tty (s : Mounts) : Tty where
  disk := s.disk
  mountedDrives := fun n => .ofBytes (s.window n)
  printed := []
  written := []
  stored := []

/-! ### The code -/

/-- `read_boot_sector`: a whole block is stored at the boot sector of the drive, which has 90
bytes. -/
def readBootSector (driveNumber : Nat) : Prog Mounts Unit :=
  modify fun s =>
    { s with
      drives := memcpy s.drives (driveSize * driveNumber + 1) (s.disk (blockLba 0)) blockSize }

/-- `initialize_fat32`: the start of the table and that of the data, from the boot sector. -/
def initializeFat32 (driveNumber : Nat) : Prog Mounts Unit := do
  let drive ← gets fun s => s.window driveNumber
  let reservedSectors := le drive (1 + 14) 2
  let dataStart := (reservedSectors + (drive (1 + 16)).toNat * le drive (1 + 36) 4) % 2 ^ 32
  modify fun s =>
    { s with drives := memcpy s.drives (driveSize * driveNumber + 92) (leBytes reservedSectors) 4 }
  modify fun s =>
    { s with drives := memcpy s.drives (driveSize * driveNumber + 96) (leBytes dataStart) 4 }

/-- The two statements that report a mounted drive. -/
def announce (t : Terminal) : Terminal :=
  terminalWritestring (terminalNewline t) (text "[  OK  ] Drive mounted successfully.")

/-- `mount_drive`: false for a number out of range and for a drive that is mounted already. -/
def mountDrive (driveNumber : Nat) : Prog Mounts Bool := do
  if maxMountedDrives ≤ driveNumber then return false
  let isMounted ← gets fun s => s.drives (driveSize * driveNumber)
  if isMounted ≠ 0 then return false
  readBootSector driveNumber
  initializeFat32 driveNumber
  modify fun s => { s with drives := memcpy s.drives (driveSize * driveNumber) (fun _ => 1) 1 }
  modify fun s => { s with terminal := announce s.terminal }
  return true

/-- One call after the other. -/
def mounts : List Nat → Prog Mounts (List Bool)
  | [] => pure []
  | n :: ns => do
      let r ← mountDrive n
      let rs ← mounts ns
      return r :: rs

/-! ### What the boot sector makes of a drive -/

/-- The geometry in a boot sector. -/
def Geometry.ofSector (sector : Mem) : Geometry where
  sectorsPerCluster := (sector 13).toNat
  numFats := (sector 16).toNat
  totalSectors32 := le sector 32 4
  fatSize32 := le sector 36 4
  fatStart := le sector 14 2
  dataStart := (le sector 14 2 + (sector 16).toNat * le sector 36 4) % 2 ^ 32
  sectorsPerCluster_lt := UInt8.toNat_lt _
  numFats_lt := UInt8.toNat_lt _
  totalSectors32_lt := le_lt sector _ 4
  fatSize32_lt := le_lt sector _ 4
  fatStart_lt := (le_lt sector _ 2).trans (by decide)
  dataStart_lt := Nat.mod_lt _ (by decide)

/-- The first 513 bytes of a mounted drive. -/
def descriptor (sector : Mem) : Mem :=
  memcpy (memcpy (memcpy (fun _ => 1) 1 sector blockSize)
    92 (leBytes (Geometry.ofSector sector).fatStart) 4)
    96 (leBytes (Geometry.ofSector sector).dataStart) 4

/-- A drive mounted. -/
def Mounts.mount (s : Mounts) (n : Nat) : Mounts where
  disk := s.disk
  drives := memcpy s.drives (driveSize * n) (descriptor (s.disk (blockLba 0))) 513
  terminal := announce s.terminal

section

variable {sector m : Mem} {i : Nat}

theorem descriptor_zero (sector : Mem) : descriptor sector 0 = 1 := by
  rw [descriptor, memcpy_apply_of_notMem (.inl (by decide)),
    memcpy_apply_of_notMem (.inl (by decide)), memcpy_apply_of_notMem (.inl (by decide))]

/-- Outside the two starts a mounted drive shows the sector, one byte further on. -/
theorem descriptor_succ (hi : i < blockSize) (h : i < 91 ∨ 99 ≤ i) :
    descriptor sector (1 + i) = sector i := by
  rw [descriptor, memcpy_apply_of_notMem (by omega), memcpy_apply_of_notMem (by omega),
    memcpy_apply_add hi]

/-- So does a number that lies outside them. -/
theorem le_descriptor {a w : Nat} (hw : a + w ≤ blockSize) (h : a + w ≤ 91 ∨ 99 ≤ a) :
    le (descriptor sector) (1 + a) w = le sector a w :=
  le_congr fun i hi => by rw [Nat.add_assoc, descriptor_succ (by omega) (by omega)]

theorem le_descriptor_fatStart (sector : Mem) :
    le (descriptor sector) 92 4 = le sector 14 2 := by
  rw [descriptor, le_memcpy_of_disjoint (.inl (by decide)), le_memcpy_leBytes]
  exact Nat.mod_eq_of_lt (Geometry.ofSector sector).fatStart_lt

theorem le_descriptor_dataStart (sector : Mem) :
    le (descriptor sector) 96 4 = (Geometry.ofSector sector).dataStart := by
  rw [descriptor, le_memcpy_leBytes]
  exact Nat.mod_eq_of_lt (Geometry.ofSector sector).dataStart_lt

/-- What lies behind the descriptor does not matter to the geometry. -/
theorem toGeometry_ofBytes (h : ∀ i < 513, m i = descriptor sector i) :
    (MountedDrive.ofBytes m).toGeometry = .ofSector sector := by
  have hle {a w : Nat} (hw : a + w ≤ 513) : le m a w = le (descriptor sector) a w :=
    le_congr fun i hi => h _ (by omega)
  have hbyte {a : Nat} (ha : a < 91) : m (1 + a) = sector a := by
    rw [h _ (by omega), descriptor_succ (by rw [blockSize]; omega) (.inl ha)]
  simp only [MountedDrive.ofBytes, Geometry.ofSector, Geometry.mk.injEq]
  refine ⟨?_, ?_, ?_, ?_, ?_, ?_⟩
  · rw [hbyte (by decide)]
  · rw [hbyte (by decide)]
  · rw [hle (by decide), le_descriptor (by decide) (by decide)]
  · rw [hle (by decide), le_descriptor (by decide) (by decide)]
  · rw [hle (by decide), le_descriptor_fatStart]
  · rw [hle (by decide), le_descriptor_dataStart, Geometry.ofSector]

/-- The count of files is what the sector has at 99. -/
theorem fileCount_ofBytes (h : ∀ i < 513, m i = descriptor sector i) :
    (MountedDrive.ofBytes m).rootDirectory.fileCount = le sector 99 4 := by
  have hm : le m 100 4 = le (descriptor sector) 100 4 := le_congr fun i hi => h _ (by omega)
  have hsector : le (descriptor sector) (1 + 99) 4 = le sector 99 4 :=
    le_descriptor (by decide) (by decide)
  exact hm.trans hsector

end

/-! ### One call -/

section

variable {s : Mounts} {n : Nat}

theorem Mounts.mount_terminal (s : Mounts) (n : Nat) :
    (s.mount n).terminal = announce s.terminal := by
  rw [Mounts.mount]

theorem Mounts.mount_drives (s : Mounts) (n : Nat) : (s.mount n).drives
    = memcpy s.drives (driveSize * n) (descriptor (s.disk (blockLba 0))) 513 := rfl

/-- The four stores of a call are one. -/
theorem drives_mount (s : Mounts) (n : Nat) :
    memcpy (memcpy (memcpy (memcpy s.drives
      (driveSize * n + 1) (s.disk (blockLba 0)) blockSize)
      (driveSize * n + 92) (leBytes (Geometry.ofSector (s.disk (blockLba 0))).fatStart) 4)
      (driveSize * n + 96) (leBytes (Geometry.ofSector (s.disk (blockLba 0))).dataStart) 4)
      (driveSize * n) (fun _ => 1) 1 = (s.mount n).drives := by
  rw [Mounts.mount_drives]
  funext a
  by_cases ha : driveSize * n ≤ a ∧ a < driveSize * n + 513
  · obtain ⟨i, rfl⟩ := Nat.exists_eq_add_of_le ha.1
    have hi : i < 513 := by omega
    rw [memcpy_apply_add hi]
    rcases Nat.eq_zero_or_pos i with rfl | hpos
    · rw [memcpy_apply_add Nat.one_pos, descriptor_zero]
    · -- behind the first byte the same copies are made at the same offsets
      rw [memcpy_apply_of_notMem (by omega), memcpy_apply_base, descriptor]
      refine memcpy_apply_congr ?_
      rw [memcpy_apply_base]
      refine memcpy_apply_congr ?_
      rw [memcpy_apply_base, memcpy_apply_of_mem (by omega) (by rw [blockSize]; omega),
        memcpy_apply_of_mem (by omega) (by rw [blockSize]; omega)]
  · rw [memcpy_apply_of_notMem (by omega), memcpy_apply_of_notMem (by omega),
      memcpy_apply_of_notMem (by omega), memcpy_apply_of_notMem (by rw [blockSize]; omega),
      memcpy_apply_of_notMem (by omega)]

/-- The boot sector in the array. -/
def Mounts.loaded (s : Mounts) (n : Nat) : Mounts :=
  { s with drives := memcpy s.drives (driveSize * n + 1) (s.disk (blockLba 0)) blockSize }

theorem readBootSector_eq (n : Nat) (s : Mounts) :
    readBootSector n s = (.value (), s.loaded n) := rfl

theorem Mounts.window_loaded (s : Mounts) (n : Nat) :
    ∀ i < blockSize, (s.loaded n).window n (1 + i) = s.disk (blockLba 0) i := by
  intro i hi
  rw [Mounts.window, ← Nat.add_assoc]
  exact memcpy_apply_add hi

/-- `initialize_fat32` goes by the sector that was read. -/
theorem initializeFat32_eq {sector : Mem} (h : ∀ i < blockSize, s.window n (1 + i) = sector i) :
    initializeFat32 n s = (.value (), { s with
      drives := memcpy (memcpy s.drives
        (driveSize * n + 92) (leBytes (Geometry.ofSector sector).fatStart) 4)
        (driveSize * n + 96) (leBytes (Geometry.ofSector sector).dataStart) 4 }) := by
  have hle {a w : Nat} (hw : a + w ≤ blockSize) : le (s.window n) (1 + a) w = le sector a w :=
    le_congr fun i hi => by rw [Nat.add_assoc, h _ (by omega)]
  rw [initializeFat32, gets_bind, hle (by decide), hle (by decide), h 16 (by decide)]
  rfl

/-- A drive is mounted once, and a call that does not mount it changes nothing. -/
theorem mountDrive_eq (n : Nat) (s : Mounts) :
    mountDrive n s =
      if n < maxMountedDrives ∧ s.drives (driveSize * n) = 0 then (.value true, s.mount n)
      else (.value false, s) := by
  rw [mountDrive]
  by_cases hn : maxMountedDrives ≤ n
  · rw [if_pos hn, if_neg fun h => absurd hn (not_le.mpr h.1)]
    rfl
  · rw [if_neg hn]
    simp only [gets_bind]
    by_cases hz : s.drives (driveSize * n) = 0
    · rw [if_neg (not_not.mpr hz), if_pos ⟨not_le.mp hn, hz⟩,
        bind_value (readBootSector_eq n s),
        bind_value (initializeFat32_eq (s.window_loaded n)), modify_bind, modify_bind]
      exact congrArg (fun m => (Outcome.value true, (⟨s.disk, m, announce s.terminal⟩ : Mounts)))
        (drives_mount s n)
    · rw [if_pos hz, if_neg fun h => hz h.2]
      rfl

/-- The memory of a drive after a call for this one or for another one. -/
theorem window_mount (s : Mounts) (n k : Nat) {i : Nat} (hi : i < driveSize) :
    (s.mount n).window k i =
      if k = n then memcpy (s.window k) 0 (descriptor (s.disk (blockLba 0))) 513 i
      else s.window k i := by
  rw [Mounts.window, Mounts.mount_drives]
  rw [driveSize] at hi ⊢
  split
  next h =>
    rw [h]
    exact memcpy_apply_base s.drives (5224 * n) 0 _ 513 i
  next h =>
    rw [memcpy_apply_of_notMem (by omega)]
    rfl

end

/-! ### Any calls -/

/-- What calls with the numbers `done` leave of the state `s₀`. -/
structure After (s₀ : Mounts) (done : List Nat) (s : Mounts) : Prop where
  disk : s.disk = s₀.disk
  drives : ∀ k < maxMountedDrives, ∀ i < driveSize, s.window k i =
    if k ∈ done then memcpy (s₀.window k) 0 (descriptor (s₀.disk (blockLba 0))) 513 i
    else s₀.window k i
  outside : ∀ a, driveSize * maxMountedDrives ≤ a → s.drives a = s₀.drives a

/-- What calls return when those with the numbers `done` came before. -/
def answers : List Nat → List Nat → List Bool
  | _, [] => []
  | done, n :: ns => decide (n < maxMountedDrives ∧ n ∉ done) :: answers (n :: done) ns

section

variable {s₀ s s' : Mounts} {done ns : List Nat} {n : Nat}

theorem After.refl (s : Mounts) : After s [] s :=
  ⟨rfl, fun _ _ _ _ => (if_neg List.not_mem_nil).symm, fun _ _ => rfl⟩

/-- A number that is out of range or had its call makes no difference. -/
theorem After.skip (h : After s₀ done s) (hn : n < maxMountedDrives → n ∈ done) :
    After s₀ (n :: done) s := by
  refine ⟨h.disk, fun k hk i hi => ?_, h.outside⟩
  have hmem : k ∈ n :: done ↔ k ∈ done := by
    rw [List.mem_cons]
    refine or_iff_right_of_imp ?_
    rintro rfl
    exact hn hk
  simp only [h.drives k hk i hi, hmem]

theorem After.mount (h : After s₀ done s) (hn : n < maxMountedDrives) (hnew : n ∉ done) :
    After s₀ (n :: done) (s.mount n) := by
  refine ⟨h.disk, fun k hk i hi => ?_, fun a ha => ?_⟩
  · rw [window_mount s n k hi, h.disk]
    by_cases hkn : k = n
    · -- the memory under the new drive is still the first one
      subst hkn
      rw [if_pos rfl, if_pos List.mem_cons_self]
      exact memcpy_apply_congr ((h.drives k hk i hi).trans (if_neg hnew))
    · rw [if_neg hkn, h.drives k hk i hi]
      simp only [List.mem_cons, hkn, false_or]
  · rw [Mounts.mount_drives, memcpy_apply_of_notMem]
    · exact h.outside a ha
    · rw [driveSize, maxMountedDrives] at *
      omega

/-- One call more. -/
theorem After.step (h₀ : ∀ k < maxMountedDrives, s₀.window k 0 = 0) (h : After s₀ done s)
    (n : Nat) : ∃ s', mountDrive n s
      = (.value (decide (n < maxMountedDrives ∧ n ∉ done)), s') ∧ After s₀ (n :: done) s' := by
  rw [mountDrive_eq]
  by_cases hn : n < maxMountedDrives
  · have hbyte : s.drives (driveSize * n) = if n ∈ done then 1 else 0 := by
      refine (h.drives n hn 0 (by decide)).trans ?_
      rw [memcpy_apply_of_mem (Nat.le_refl 0) (by decide), descriptor_zero, h₀ n hn]
    by_cases hd : n ∈ done
    · rw [hbyte, if_pos hd, if_neg fun h => absurd h.2 (by decide),
        decide_eq_false fun h => h.2 hd]
      exact ⟨s, rfl, h.skip fun _ => hd⟩
    · rw [hbyte, if_neg hd, if_pos ⟨hn, rfl⟩, decide_eq_true ⟨hn, hd⟩]
      exact ⟨s.mount n, rfl, h.mount hn hd⟩
  · rw [if_neg fun h => hn h.1, decide_eq_false fun h => hn h.1]
    exact ⟨s, rfl, h.skip fun h => absurd h hn⟩

/-- Any calls more. -/
theorem mounts_after (h₀ : ∀ k < maxMountedDrives, s₀.window k 0 = 0) (h : After s₀ done s)
    (ns : List Nat) : ∃ s', mounts ns s = (.value (answers done ns), s') ∧
      After s₀ (ns.reverse ++ done) s' := by
  induction ns generalizing done s with
  | nil => exact ⟨s, rfl, h⟩
  | cons n ns ih =>
      obtain ⟨s₁, hstep, h₁⟩ := h.step h₀ n
      obtain ⟨s₂, hrun, h₂⟩ := ih h₁
      refine ⟨s₂, ?_, by rwa [List.reverse_cons, List.append_assoc]⟩
      rw [mounts, bind_value hstep, bind_value hrun]
      rfl

/-- Each drive that a run mounts is reported. -/
theorem mounts_terminal {rs : List Bool} (h : mounts ns s = (.value rs, s')) :
    s'.terminal = announce^[rs.count true] s.terminal := by
  induction ns generalizing s rs with
  | nil =>
      obtain ⟨rfl, rfl⟩ : rs = [] ∧ s' = s := by
        cases h
        exact ⟨rfl, rfl⟩
      rfl
  | cons n ns ih =>
      obtain ⟨r, s₁, hstep, h⟩ := bind_eq_value h
      obtain ⟨rs', s₂, hrun, h⟩ := bind_eq_value h
      cases h
      have hrest := ih hrun
      rw [mountDrive_eq] at hstep
      split at hstep
      · cases hstep
        rw [hrest, List.count_cons_self, Function.iterate_succ_apply, Mounts.mount_terminal]
      · cases hstep
        rw [hrest, List.count_cons_of_ne (by decide)]

end

/-! ### A cleared array -/

/-- The array as it is after start-up. -/
def Mounts.Cleared (s : Mounts) : Prop := ∀ a < driveSize * maxMountedDrives, s.drives a = 0

/-- A drive that was mounted in cleared memory. -/
def Fresh (m sector : Mem) : Prop :=
  ∀ i < driveSize, m i = if i < 513 then descriptor sector i else 0

section

variable {m sector : Mem}

theorem Fresh.descriptor (h : Fresh m sector) : ∀ i < 513, m i = descriptor sector i :=
  fun i hi => (h i (hi.trans (by decide))).trans (if_pos hi)

/-- The sector reaches into the first ten sizes of the table. -/
theorem Fresh.size (h : Fresh m sector) {i : Nat} (hi : i < maxFiles) :
    ((MountedDrive.ofBytes m).rootDirectory.files i).size
      = if i < 10 then le sector (135 + 40 * i) 4 else 0 := by
  show le (fun k => m (104 + 40 * i + k)) 32 4 = _
  rw [maxFiles] at hi
  split
  next hlt =>
    refine le_congr fun j hj => ?_
    rw [h.descriptor _ (by omega), show 104 + 40 * i + (32 + j) = 1 + (135 + 40 * i + j) by omega,
      descriptor_succ (by rw [blockSize]; omega) (.inr (by omega))]
  next hge =>
    have hzero : le (fun k => m (104 + 40 * i + k)) 32 4 = le (fun _ => 0) 32 4 :=
      le_congr fun j hj => by rw [h _ (by rw [driveSize]; omega), if_neg (by omega)]
    exact hzero

/-- The table of a mounted drive is empty when the boot code lets it be. -/
theorem Fresh.zeroed_iff (h : Fresh m sector) :
    (MountedDrive.ofBytes m).rootDirectory.Zeroed ↔
      le sector 99 4 = 0 ∧ ∀ i < 10, le sector (135 + 40 * i) 4 = 0 := by
  constructor
  · rintro ⟨hcount, hsize⟩
    refine ⟨fileCount_ofBytes h.descriptor ▸ hcount, fun i hi => ?_⟩
    have hlt : i < maxFiles := hi.trans (by decide)
    rw [← hsize i hlt, h.size hlt, if_pos hi]
  · rintro ⟨hcount, hsize⟩
    refine ⟨(fileCount_ofBytes h.descriptor).trans hcount, fun i hi => ?_⟩
    rw [h.size hi]
    split
    next hlt => exact hsize i hlt
    next => rfl

/-- The table always has a free entry. -/
theorem Fresh.freeEntry (h : Fresh m sector) :
    (MountedDrive.ofBytes m).rootDirectory.freeEntry ≠ none := by
  rw [Directory.freeEntry_ne_none_iff]
  exact ⟨127, by decide, h.size (by decide)⟩

end

section

variable {s s' : Mounts} {ns : List Nat} {rs : List Bool} {n : Nat}

theorem Mounts.Cleared.window (h : s.Cleared) {k i : Nat} (hk : k < maxMountedDrives)
    (hi : i < driveSize) : s.window k i = 0 := by
  refine h _ ?_
  rw [driveSize, maxMountedDrives] at *
  omega

/-- A byte of the array after calls. -/
theorem After.window (h₀ : s.Cleared) {done : List Nat} (h : After s done s') {k i : Nat}
    (hk : k < maxMountedDrives) (hi : i < driveSize) :
    s'.window k i = if k ∈ done ∧ i < 513 then PotatoOS.descriptor (s.disk (blockLba 0)) i
      else 0 := by
  rw [h.drives k hk i hi]
  by_cases hd : k ∈ done
  · rw [if_pos hd]
    by_cases hlt : i < 513
    · rw [if_pos ⟨hd, hlt⟩, memcpy_apply_of_mem (Nat.zero_le i) (by omega), Nat.sub_zero]
    · rw [if_neg fun h => hlt h.2, memcpy_apply_of_notMem (by omega), h₀.window hk hi]
  · rw [if_neg hd, if_neg fun h => hd h.1, h₀.window hk hi]

theorem Mounts.Cleared.after (h₀ : s.Cleared) (hrun : mounts ns s = (.value rs, s')) :
    After s ns.reverse s' := by
  obtain ⟨s₁, hrun₁, h⟩ :=
    mounts_after (fun k hk => h₀.window hk (by decide)) (After.refl s) ns
  obtain rfl : s₁ = s' := congrArg Prod.snd (hrun₁.symm.trans hrun)
  rwa [List.append_nil] at h

theorem Mounts.Cleared.fresh (h₀ : s.Cleared) (hrun : mounts ns s = (.value rs, s'))
    (hn : n < maxMountedDrives) (hmem : n ∈ ns) :
    Fresh (s'.window n) (s.disk (blockLba 0)) := by
  intro i hi
  rw [(h₀.after hrun).window h₀ hn hi]
  simp only [List.mem_reverse.mpr hmem, true_and]

/-- Whatever is mounted, and in whatever order: a call succeeds when the number
is in range and had no call before, and all drives that are mounted have the
same contents, those of the one boot sector. -/
theorem mounts_alike (h₀ : s.Cleared) (ns : List Nat) :
    ∃ s', mounts ns s = (.value (answers [] ns), s') ∧ s'.disk = s.disk ∧
      s'.terminal = announce^[(answers [] ns).count true] s.terminal ∧
      (∀ a, driveSize * maxMountedDrives ≤ a → s'.drives a = s.drives a) ∧
      ∀ k < maxMountedDrives, ∀ i < driveSize, s'.drives (driveSize * k + i)
        = if k ∈ ns ∧ i < 513 then descriptor (s.disk (blockLba 0)) i else 0 := by
  obtain ⟨s', hrun, h⟩ :=
    mounts_after (fun k hk => h₀.window hk (by decide)) (After.refl s) ns
  refine ⟨s', hrun, h.disk, mounts_terminal hrun, h.outside, fun k hk i hi => ?_⟩
  refine (h.window h₀ hk hi).trans ?_
  simp only [List.append_nil, List.mem_reverse]

end

/-- A disk of four clusters with `code` in the second byte of the count. -/
def sampleMounts (code : UInt8) : Mounts where
  disk := fun lba a =>
    if lba = 0 then
      if a = 13 ∨ a = 14 ∨ a = 16 ∨ a = 36 then 1
      else if a = 32 then 4
      else if a = 100 then code
      else 0
    else if lba = 1 ∧ a < 8 then 1 else 0
  drives := fun _ => 0
  terminal := ⟨0, 0, 0, fun _ => 0, 0⟩

theorem sampleMounts_cleared (code : UInt8) : (sampleMounts code).Cleared := fun _ _ => rfl

theorem ofSector_sampleMounts (code : UInt8) :
    Geometry.ofSector ((sampleMounts code).disk (blockLba 0)) = sampleDrive.toGeometry := by
  simp only [Geometry.ofSector, sampleDrive, storeDrive, Geometry.mk.injEq]
  exact ⟨rfl, rfl, rfl, rfl, rfl, rfl⟩

theorem exists_mounts_sample (code : UInt8) :
    ∃ s', mounts [2, 7, 2, 0] (sampleMounts code) = (.value [true, false, false, true], s') := by
  obtain ⟨s', hrun, -⟩ :=
    mounts_after (fun k hk => (sampleMounts_cleared code).window hk (by decide))
      (After.refl (sampleMounts code)) [2, 7, 2, 0]
  exact ⟨s', hrun⟩

theorem mounts_alike_sample : (sampleMounts 0).Cleared ∧
    ∃ s', mounts [2, 7, 2, 0] (sampleMounts 0) = (.value [true, false, false, true], s') ∧
      ∀ i < driveSize, s'.drives i = s'.drives (driveSize * 2 + i) := by
  obtain ⟨s', hrun, -, -, -, h⟩ := mounts_alike (sampleMounts_cleared 0) [2, 7, 2, 0]
  refine ⟨sampleMounts_cleared 0, s', hrun, fun i hi => ?_⟩
  have h₀ := h 0 (by decide) i hi
  rw [Nat.mul_zero, Nat.zero_add] at h₀
  rw [h₀, h 2 (by decide) i hi]
  simp

section

variable {s s' : Mounts} {ns : List Nat} {rs : List Bool} {n : Nat}

/-- With a free entry in the table, `write_file` returns when it stays within its local
arrays and the count is in range. -/
theorem writeFile_returns_iff {t : Tty} {l : Locals} (filename content : CString)
    (hn : n < maxMountedDrives) (hfree : (t.mountedDrives n).rootDirectory.freeEntry ≠ none) :
    (∃ t', writeFile l n filename content t = (.value (), t')) ↔
      (t.mountedDrives n).Stays t.disk l content ∧
        (t.mountedDrives n).rootDirectory.fileCount < maxFiles := by
  by_cases hs : (t.mountedDrives n).Stays t.disk l content
  · rw [writeFile_of_stays filename hn hfree hs, and_iff_right hs]
    split
    next hle =>
      refine iff_of_false ?_ (not_lt.mpr hle)
      rintro ⟨t', ht'⟩
      cases ht'
    next hlt => exact iff_of_true ⟨_, rfl⟩ (not_le.mp hlt)
  · obtain ⟨t₁, ht, -⟩ := writeFile_of_not_stays filename hn hfree hs
    rw [ht]
    refine iff_of_false ?_ fun h => hs h.1
    rintro ⟨t', ht'⟩
    cases ht'

/-- A file can be written to a mounted drive only when the bytes 99 to 102 of
the boot sector, where the boot code lies, make a number below 128. -/
theorem writeFile_mounted_returns_iff (h₀ : s.Cleared) (hrun : mounts ns s = (.value rs, s'))
    (hn : n < maxMountedDrives) (hmem : n ∈ ns) (l : Locals) (filename content : CString) :
    (∃ t, writeFile l n filename content s'.tty = (.value (), t)) ↔
      (Geometry.ofSector (s.disk (blockLba 0))).Stays s.disk l content ∧
        le (s.disk (blockLba 0)) 99 4 < maxFiles := by
  have hf := h₀.fresh hrun hn hmem
  have hg : (s'.tty.mountedDrives n).toGeometry = .ofSector (s.disk (blockLba 0)) :=
    toGeometry_ofBytes hf.descriptor
  have hc : (s'.tty.mountedDrives n).rootDirectory.fileCount = le (s.disk (blockLba 0)) 99 4 :=
    fileCount_ofBytes hf.descriptor
  have hdisk : s'.tty.disk = s.disk := (h₀.after hrun).disk
  have hfree : (s'.tty.mountedDrives n).rootDirectory.freeEntry ≠ none := hf.freeEntry
  rw [writeFile_returns_iff filename content hn hfree, hg, hc, hdisk]

/-- A drive is blank after mounting when its geometry is sound and the boot
code leaves the count and the sizes 0. -/
theorem blank_mounted_iff (h₀ : s.Cleared) (hrun : mounts ns s = (.value rs, s'))
    (hn : n < maxMountedDrives) (hmem : n ∈ ns) :
    Blank n s'.tty ↔
      (Geometry.ofSector (s.disk (blockLba 0))).Layout ∧
      (Geometry.ofSector (s.disk (blockLba 0))).Headed s.disk ∧
      le (s.disk (blockLba 0)) 99 4 = 0 ∧
      ∀ i < 10, le (s.disk (blockLba 0)) (135 + 40 * i) 4 = 0 := by
  have hf := h₀.fresh hrun hn hmem
  have hg : (s'.tty.mountedDrives n).toGeometry = .ofSector (s.disk (blockLba 0)) :=
    toGeometry_ofBytes hf.descriptor
  have hdisk : s'.tty.disk = s.disk := (h₀.after hrun).disk
  rw [← hf.zeroed_iff, ← hg, ← hdisk]
  exact ⟨fun h => ⟨h.layout, h.headed, h.zeroed⟩, fun h => ⟨hn, h.1, h.2.1, h.2.2⟩⟩

/-- From mounting to reading: on such a drive the files that are written can be
read back, if the compiler leaves padding behind the buffer for their content. -/
theorem mounts_roundTrips (h₀ : s.Cleared) (hrun : mounts ns s = (.value rs, s'))
    (hn : n < maxMountedDrives) (hmem : n ∈ ns)
    (hlayout : (Geometry.ofSector (s.disk (blockLba 0))).Layout)
    (hheaded : (Geometry.ofSector (s.disk (blockLba 0))).Headed s.disk)
    (hcount : le (s.disk (blockLba 0)) 99 4 = 0)
    (hsizes : ∀ i < 10, le (s.disk (blockLba 0)) (135 + 40 * i) 4 = 0)
    {calls : List WriteCall} {room : Nat} (hpad : blockSize < room)
    (hroom : ∀ call ∈ calls, call.locals.room = room) (hsuits : ∀ call ∈ calls,
      (Geometry.ofSector (s.disk (blockLba 0))).Suits call)
    (hnames : (calls.map (·.filename)).Nodup) (hfiles : calls.length ≤ maxFiles)
    (hreach : calls.length ≤ (Geometry.ofSector (s.disk (blockLba 0))).reach s.disk) :
    RoundTrips n s'.tty calls := by
  have hblank : Blank n s'.tty :=
    (blank_mounted_iff h₀ hrun hn hmem).mpr ⟨hlayout, hheaded, hcount, hsizes⟩
  have hg : (s'.tty.mountedDrives n).toGeometry = .ofSector (s.disk (blockLba 0)) :=
    toGeometry_ofBytes (h₀.fresh hrun hn hmem).descriptor
  have hdisk : s'.tty.disk = s.disk := (h₀.after hrun).disk
  rw [← hg, ← hdisk] at hreach
  refine roundTrips_of_le_reach hblank ⟨hroom, hg ▸ hsuits, hnames, le_min hfiles ?_⟩ hpad hreach
  exact hreach.trans Finset.card_image_le

end

/-- With 1 in the second byte the count is 256. -/
theorem not_returns_sampleMounts :
    ∃ s', mounts [2, 7, 2, 0] (sampleMounts 1) = (.value [true, false, false, true], s') ∧
      (Geometry.ofSector ((sampleMounts 1).disk (blockLba 0))).Stays (sampleMounts 1).disk
        sampleLocals sampleText ∧
      ¬∃ t, writeFile sampleLocals 0 sampleText sampleText s'.tty = (.value (), t) := by
  obtain ⟨s', hrun⟩ := exists_mounts_sample 1
  refine ⟨s', hrun, ?_, fun h => ?_⟩
  · rw [ofSector_sampleMounts]
    exact (sampleDrive_roomy (by decide)).stays _
  · have hcount := (writeFile_mounted_returns_iff (sampleMounts_cleared 1) hrun (by decide)
      (by decide) sampleLocals sampleText sampleText).mp h
    exact absurd hcount.2 (by decide)

theorem roundTrips_sampleMounts :
    ∃ s', mounts [2, 7, 2, 0] (sampleMounts 0) = (.value [true, false, false, true], s') ∧
      RoundTrips 2 s'.tty [sampleCall sampleText (by decide)] := by
  obtain ⟨s', hrun⟩ := exists_mounts_sample 0
  refine ⟨s', hrun, mounts_roundTrips (sampleMounts_cleared 0) hrun (by decide) (by decide)
    ?_ ?_ (by decide) (by decide) (show blockSize < 516 by decide)
    (by simp [sampleCall, sampleLocals]) ?_ (by simp) (by decide) ?_⟩
  · rw [ofSector_sampleMounts]
    exact storeDrive_layout (by decide)
  · rw [ofSector_sampleMounts]
    exact ⟨by decide, by decide⟩
  · rw [ofSector_sampleMounts]
    intro call hcall
    rw [List.mem_singleton.mp hcall]
    exact ⟨by decide, by decide, by decide⟩
  · rw [ofSector_sampleMounts]
    decide +kernel

end PotatoOS
