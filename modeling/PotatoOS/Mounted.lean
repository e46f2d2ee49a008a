/-
PotatoOS/Mounted.lean

The drives that tty.c mounts, and the files it keeps on them.

A mounted drive has a FAT and a data area on the disk and a table of files in
memory.  `find_free_cluster` and `update_fat_entry` load the whole FAT into a
local array; what these arrays and the other uninitialised locals hold is part
of a call, as `Locals`, and so is the room that the compiler leaves them.
`read_block` and `write_block` pass three bytes of a sector number to the drive,
so a sector is known by its number modulo 2^24 (`blockLba_eq`).

The functions are written over the two block operations (`Blocks`).  Here they
transfer a block at once; BlockIo.lean has them at the ports of the drive.

Every function has one lemma that says what it does: `readFatTable_eq`,
`findFreeCluster_eq`, `updateFatEntry_eq`.  A whole call has one for each way it
ends: `writeFile_of_full`, `writeFile_of_stays` and `writeFile_of_not_stays`.
-/
import PotatoOS.Codec
import PotatoOS.Partition
import PotatoOS.Path

namespace PotatoOS

open Prog

/-! ### Strings -/

/-- The loops of `strncpy`: the terminator is copied without being counted, so
a string shorter than `n` is padded to `n + 1` bytes. -/
def strncpyLoop : List UInt8 → Nat → Nat → Mem → Mem
  | _, 0, _, dest => dest
  | c :: src, n + 1, i, dest => strncpyLoop src n (i + 1) (memcpy dest i (fun _ => c) 1)
  | [], n + 1, i, dest => memcpy (memcpy dest i (fun _ => 0) 1) (i + 1) (fun _ => 0) (n + 1)

/-- `strncpy` of tty.c. -/
def strncpy (dest : Mem) (src : CString) (n : Nat) : Mem := strncpyLoop src.1 n 0 dest

/-- The number of bytes that it stores. -/
def strncpyExtent (src : CString) (n : Nat) : Nat := if src.1.length < n then n + 1 else n

/-- `strcmp` with a string as second argument. -/
def strcmp (m : Mem) : List UInt8 → Int
  | [] => (m 0).toNat
  | c :: s =>
      if m 0 ≠ 0 ∧ m 0 = c then strcmp (fun i => m (i + 1)) s else (m 0).toNat - c.toNat

/-! ### Mounted drives -/

/-- `MAX_FILES`. -/
def maxFiles : Nat := 128

/-- `MAX_FILENAME_LENGTH`. -/
def maxFilenameLength : Nat := 32

/-- `BLOCK_SIZE`. -/
def blockSize : Nat := 512

/-- `MAX_MOUNTED_DRIVES`. -/
def maxMountedDrives : Nat := 4

/-- `FileEntry`: a file of the table in memory. -/
structure FileEntry where
  name : Mem
  size : Nat
  startCluster : Nat

/-- `Directory`: the table, and the number of its files. -/
structure Directory where
  fileCount : Nat
  files : Nat → FileEntry

/-- What mounting fixes of a drive. -/
structure Geometry where
  sectorsPerCluster : Nat
  numFats : Nat
  totalSectors32 : Nat
  fatSize32 : Nat
  fatStart : Nat
  dataStart : Nat
  sectorsPerCluster_lt : sectorsPerCluster < 2 ^ 8 := by decide
  numFats_lt : numFats < 2 ^ 8 := by decide
  totalSectors32_lt : totalSectors32 < 2 ^ 32 := by decide
  fatSize32_lt : fatSize32 < 2 ^ 32 := by decide
  fatStart_lt : fatStart < 2 ^ 32 := by decide
  dataStart_lt : dataStart < 2 ^ 32 := by decide

/-- `MountedDrive`, as far as files are concerned. -/
structure MountedDrive extends Geometry where
  rootDirectory : Directory

/-- The disk, the mounted drives and what was printed.  `written` lists the
sectors that were written and `stored` the stores to a table of files, by index
and former size; the last one comes first. -/
structure Tty where
  disk : Disk
  mountedDrives : Nat → MountedDrive
  printed : List UInt8
  written : List Nat
  stored : List (Nat × Nat)

/-- The local variables of a call: the room of the two arrays for the FAT (128
entries in the source), and what lies in these arrays and behind them, in the
name of the new entry and behind the buffer for a block before they are set.
`room` counts the bytes from that buffer on that belong to nothing else: its 512
and the padding that the compiler puts behind it. -/
structure Locals where
  entries : Nat
  findTable : Nat → Nat
  updateTable : Nat → Nat
  newFile : Mem
  behind : Mem
  room : Nat
  entries_lt : entries < 2 ^ 30 := by decide
  le_room : blockSize ≤ room := by decide

/-! ### Blocks and clusters -/

/-- The registers that `read_block` and `write_block` program. -/
def blockRegs (blockNum : Nat) : LbaRegs where
  low := blockNum % 256
  mid := blockNum >>> 8 % 256
  high := blockNum >>> 16 % 256
  device := 0xE0

/-- The sector that the drive takes for a block. -/
def blockLba (blockNum : Nat) : Nat := lbaOf (blockRegs blockNum)

/-- `read_block`, all at once. -/
def readBlock (blockNum : Nat) : Prog Tty Mem := gets fun s => s.disk (blockLba blockNum)

/-- One sector written. -/
def Tty.write (s : Tty) (lba : Nat) (buffer : Mem) : Tty :=
  { s with disk := writeSector s.disk lba buffer, written := lba :: s.written }

/-- `write_block`, all at once. -/
def writeBlock (blockNum : Nat) (buffer : Mem) : Prog Tty Unit :=
  modify fun s => s.write (blockLba blockNum) buffer

/-- What the functions below are built on, in a state that holds the tables of the mounted
drives and some kind of disk. -/
class Blocks (σ : Type) where
  /-- `read_block` into a part of an array. -/
  fetch : Nat → Prog σ Mem
  /-- `write_block`. -/
  store : Nat → Mem → Prog σ Unit
  /-- A statement that does not touch the disk. -/
  onTables : {α : Type} → Prog Tty α → Prog σ α

open Blocks (fetch store onTables)

@[default_instance]
instance : Blocks Tty where
  fetch := readBlock
  store := writeBlock
  onTables m := m

@[simp] theorem fetch_tty (b : Nat) : (fetch b : Prog Tty Mem) = readBlock b := rfl

@[simp] theorem store_tty (b : Nat) (buffer : Mem) :
    (store b buffer : Prog Tty Unit) = writeBlock b buffer := rfl

@[simp] theorem onTables_tty {α : Type} (m : Prog Tty α) : (onTables m : Prog Tty α) = m := rfl

namespace Geometry

variable (g : Geometry)

/-- `get_cluster_address`. -/
def getClusterAddress (clusterNumber : Nat) : Nat :=
  (g.dataStart + (clusterNumber + (2 ^ 32 - 2)) % 2 ^ 32 * g.sectorsPerCluster) % 2 ^ 32

/-- Number of sectors that `read_fat_table` reads. -/
def fatSectors : Nat := g.fatSize32 * g.numFats % 2 ^ 32

/-- The clusters that `find_free_cluster` looks at are those below. -/
def clusters : Nat := g.totalSectors32 / g.sectorsPerCluster

end Geometry

section

variable {σ : Type} [Blocks σ]

/-- The loop of `write_cluster`, from block `i` on. -/
def writeClusterLoop (address : Nat) (buffer : Mem) : Nat → Nat → Prog σ Unit
  | 0, _ => pure ()
  | n + 1, i => do
      store ((address + i) % 2 ^ 32) fun j => buffer (i * blockSize + j)
      writeClusterLoop address buffer n (i + 1)

/-- `write_cluster`. -/
def writeCluster (clusterNumber : Nat) (buffer : Mem) (g : Geometry) : Prog σ Unit :=
  writeClusterLoop (g.getClusterAddress clusterNumber) buffer g.sectorsPerCluster 0

/-- The loop of `read_cluster` into an array of `room` bytes. -/
def readClusterLoop (address room : Nat) : Nat → Nat → Mem → Prog σ Mem
  | 0, _, buffer => pure buffer
  | n + 1, i, buffer => do
      if room < i * blockSize + blockSize then halt .undefined
      let block ← fetch ((address + i) % 2 ^ 32)
      readClusterLoop address room n (i + 1) (memcpy buffer (i * blockSize) block blockSize)

/-- `read_cluster`. -/
def readCluster (clusterNumber : Nat) (buffer : Mem) (room : Nat) (g : Geometry) : Prog σ Mem :=
  readClusterLoop (g.getClusterAddress clusterNumber) room g.sectorsPerCluster 0 buffer

/-! ### The FAT -/

/-- The loop of `read_fat_table`, from sector `i` on. -/
def readFatTableLoop (g : Geometry) (entries : Nat) :
    Nat → Nat → (Nat → Nat) → Prog σ (Nat → Nat)
  | 0, _, fatTable => pure fatTable
  | n + 1, i, fatTable => do
      let start := i * blockSize % 2 ^ 32 / 4
      if entries < start + 128 then halt .undefined
      let block ← fetch ((g.fatStart + i) % 2 ^ 32)
      readFatTableLoop g entries n (i + 1) fun k =>
        if start ≤ k ∧ k < start + 128 then le block (4 * (k - start)) 4 else fatTable k

/-- `read_fat_table` into an array of `entries` words. -/
def readFatTable (g : Geometry) (entries : Nat) (fatTable : Nat → Nat) : Prog σ (Nat → Nat) :=
  readFatTableLoop g entries g.fatSectors 0 fatTable

/-- `is_cluster_free`. -/
def isClusterFree (clusterNumber : Nat) (fatTable : Nat → Nat) : Bool :=
  fatTable clusterNumber = 0

/-- `find_free_cluster`.  The search reads what lies behind the array when it leaves it. -/
def findFreeCluster (l : Locals) (g : Geometry) : Prog σ Nat := do
  let fatTable ← readFatTable g l.entries l.findTable
  if g.sectorsPerCluster = 0 then halt .undefined
  return ((List.range' 2 (g.clusters - 2)).find? (isClusterFree · fatTable)).getD 0

/-- `update_fat_entry`.  Memory is flat: the block that is written is the first 512 bytes of the
array with the word stored, although the source hands an array of words to a function of bytes. -/
def updateFatEntry (l : Locals) (clusterNumber value : Nat) (g : Geometry) : Prog σ Unit := do
  let fatTable ← readFatTable g l.entries l.updateTable
  if l.entries ≤ clusterNumber then halt .undefined
  let fatTable := Function.update fatTable clusterNumber value
  store ((g.fatStart + clusterNumber * 4 % 2 ^ 32 / blockSize) % 2 ^ 32)
    fun j => leBytes (fatTable (j / 4)) (j % 4)

end

/-! ### Files -/

namespace Directory

variable (dir : Directory)

/-- The first entry of size 0. -/
def freeEntry : Option Nat := (List.range maxFiles).find? fun i => (dir.files i).size = 0

/-- The table with one more file. -/
def append (newFile : FileEntry) : Directory where
  fileCount := dir.fileCount + 1
  files := Function.update dir.files dir.fileCount newFile

variable {dir} {newFile : FileEntry}

@[simp] theorem append_fileCount : (dir.append newFile).fileCount = dir.fileCount + 1 := rfl

@[simp] theorem append_files_self : (dir.append newFile).files dir.fileCount = newFile :=
  Function.update_self _ _ _

theorem append_files_of_ne {i : Nat} (h : i ≠ dir.fileCount) :
    (dir.append newFile).files i = dir.files i := Function.update_of_ne h _ _

end Directory

/-- The last statement of `write_file`. -/
def addFile (driveNumber : Nat) (newFile : FileEntry) : Prog Tty Unit := do
  let drive ← gets fun s => s.mountedDrives driveNumber
  let dir := drive.rootDirectory
  modify fun s =>
    { s with
      mountedDrives := Function.update s.mountedDrives driveNumber
        { drive with rootDirectory := dir.append newFile }
      stored := (dir.fileCount, (dir.files dir.fileCount).size) :: s.stored }
  if maxFiles ≤ dir.fileCount then halt .undefined

/-- The buffer for a block, and what lies behind it. -/
def contentBuffer (l : Locals) (content : CString) : Mem :=
  strncpy (memcpy l.behind 0 (fun _ => 0) blockSize) content blockSize

/-- The bytes of an entry as they lie in memory. -/
def FileEntry.bytes (e : FileEntry) : Mem := fun k =>
  if k < 32 then e.name k else if k < 36 then leBytes e.size (k - 32)
  else leBytes e.startCluster (k - 36)

/-- The memory from entry `i` on, where a name without terminator runs on. -/
def Directory.bytesFrom (dir : Directory) (i : Nat) : Mem := fun k =>
  (dir.files (i + k / 40)).bytes (k % 40)

/-- `terminal_writestring` of an array of `room` bytes. -/
def writestring (buffer : Mem) (room : Nat) : Prog Tty Unit :=
  match strnlen buffer room with
  | none => halt .undefined
  | some len => modify fun s => { s with printed := s.printed ++ bytesAt buffer 0 len }

section

variable {σ : Type} [Blocks σ]

/-- `write_file`.  A text shorter than a block takes a byte more than the buffer has. -/
def writeFile (l : Locals) (driveNumber : Nat) (filename content : CString) : Prog σ Unit := do
  if maxMountedDrives ≤ driveNumber then halt .undefined
  let drive ← onTables (gets fun s => s.mountedDrives driveNumber)
  match drive.rootDirectory.freeEntry with
  | none => return ()
  | some _ =>
      let startCluster ← findFreeCluster l drive.toGeometry
      if l.room < strncpyExtent content blockSize then halt .undefined
      writeCluster startCluster (contentBuffer l content) drive.toGeometry
      updateFatEntry l startCluster 0xFFFFFFFF drive.toGeometry
      onTables (addFile driveNumber
        { name := strncpy l.newFile filename maxFilenameLength
          size := content.1.length % 2 ^ 32
          startCluster := startCluster })

/-- `read_file`. -/
def readFile (driveNumber : Nat) (filename : CString) : Prog σ Unit := do
  if maxMountedDrives ≤ driveNumber then halt .undefined
  let drive ← onTables (gets fun s => s.mountedDrives driveNumber)
  let dir := drive.rootDirectory
  -- the loop trusts the count, which may exceed the table
  match (List.range dir.fileCount).find? fun i =>
      maxFiles ≤ i ∨ strcmp (dir.bytesFrom i) filename.1 = 0 with
  | none => return ()
  | some i =>
      if maxFiles ≤ i then halt .undefined
      let buffer ← readCluster (dir.files i).startCluster (fun _ => 0) blockSize drive.toGeometry
      onTables (writestring buffer blockSize)

end

/-! ### Strings in memory -/

section

variable {m dest : Mem} {s : List UInt8}

theorem strncpyLoop_apply (src : List UInt8) (n i : Nat) (dest : Mem) (a : Nat) :
    strncpyLoop src n i dest a =
      if i ≤ a ∧ a < i + min src.length n then src.getD (a - i) 0
      else if i ≤ a ∧ (a < i + n ∨ a = i + n ∧ src.length < n) then 0 else dest a := by
  fun_induction strncpyLoop src n i dest with
  | case1 src i dest =>
      rw [if_neg (by omega), if_neg (by omega)]
  | case2 c src n i dest ih =>
      rw [ih]
      -- before, at and behind the byte that this round copies
      rcases Nat.lt_trichotomy a i with h | rfl | h
      · rw [if_neg (by omega), if_neg (by omega), if_neg (by omega), if_neg (by omega),
          memcpy_apply_of_notMem (Or.inl h)]
      · rw [if_neg (by omega), if_neg (by omega), memcpy_apply_of_mem (by omega) (by omega),
          if_pos (by rw [List.length_cons]; omega), Nat.sub_self, List.getD_cons_zero]
      · have hs : a - i = a - (i + 1) + 1 := by omega
        simp only [List.length_cons, hs, List.getD_cons_succ]
        rw [memcpy_apply_of_notMem (Or.inr (by omega))]
        congr 1
        · exact propext (by omega)
        · congr 1
          exact propext (by omega)
  | case3 n i dest =>
      -- the source has ended: its terminator, and as many zeros as are left to count
      rw [if_neg (by simp)]
      by_cases h : i ≤ a ∧ a < i + (n + 2)
      · rw [if_pos (by simp; omega)]
        rcases eq_or_ne a i with rfl | hne
        · rw [memcpy_apply_of_notMem (by omega), memcpy_apply_of_mem (by omega) (by omega)]
        · rw [memcpy_apply_of_mem (by omega) (by omega)]
      · rw [if_neg (by simp; omega), memcpy_apply_of_notMem (by omega),
          memcpy_apply_of_notMem (by omega)]

/-- What `strncpy` leaves at every address. -/
theorem strncpy_apply (dest : Mem) (src : CString) (n a : Nat) :
    strncpy dest src n a =
      if a < min src.1.length n then src.1.getD a 0
      else if a < n ∨ a = n ∧ src.1.length < n then 0 else dest a := by
  rw [strncpy, strncpyLoop_apply]
  simp

/-- A string that is shorter than the destination is copied with its terminator. -/
theorem holdsString_strncpy {src : CString} {n : Nat} (h : src.1.length < n) :
    HoldsString (strncpy dest src n) src.1 := by
  intro i hi
  rw [strncpy_apply]
  rcases hi.lt_or_eq with hi | rfl
  · rw [if_pos (by omega)]
  · rw [if_neg (by omega), if_pos (by omega), List.getD_eq_default _ _ (Nat.le_refl _)]

/-- `n` bytes are written: the string, and zeros behind it. -/
structure StrncpyExact (dest : Mem) (src : CString) (n : Nat) : Prop where
  copied : ∀ i < min src.1.length n, strncpy dest src n i = src.1.getD i 0
  padded : ∀ i, src.1.length ≤ i → i < n → strncpy dest src n i = 0
  kept : ∀ i, n ≤ i → strncpy dest src n i = dest i

/-- The zero behind the padding of a short string goes unnoticed only where there was one. -/
theorem strncpyExact_iff (dest : Mem) (src : CString) (n : Nat) :
    StrncpyExact dest src n ↔ n ≤ src.1.length ∨ dest n = 0 := by
  constructor
  · intro h
    rcases Nat.lt_or_ge src.1.length n with hlt | hle
    · have hn := h.kept n (Nat.le_refl n)
      rw [strncpy_apply, if_neg (by omega), if_pos (.inr ⟨rfl, hlt⟩)] at hn
      exact .inr hn.symm
    · exact .inl hle
  · intro h
    refine ⟨fun i hi => ?_, fun i hle hlt => ?_, fun i hle => ?_⟩
    · rw [strncpy_apply, if_pos hi]
    · rw [strncpy_apply, if_neg (by omega), if_pos (.inl hlt)]
    · rw [strncpy_apply, if_neg (by omega)]
      split
      next hend =>
        -- only the byte at `n` can be written, and then the string is short
        obtain ⟨rfl, hshort⟩ := hend.resolve_left (by omega)
        exact (h.resolve_left (by omega)).symm
      next => rfl

/-- Two bytes for the string "A" take three. -/
theorem not_strncpyExact_short : ¬StrncpyExact (fun _ => 0x41) ⟨[0x41], by decide⟩ 2 := by
  intro h
  exact absurd (h.kept 2 (by decide)) (by decide)

/-- `strcmp` is 0 exactly when the memory holds the string. -/
theorem strcmp_eq_zero_iff (hs : 0 ∉ s) : strcmp m s = 0 ↔ HoldsString m s := by
  induction s generalizing m with
  | nil =>
      rw [strcmp, Int.natCast_eq_zero, ← UInt8.toNat_zero, UInt8.toNat_inj, UInt8.toNat_zero]
      exact holdsString_nil.symm
  | cons c s ih =>
      rw [List.mem_cons, not_or] at hs
      rw [holdsString_cons, ← ih hs.2, strcmp]
      by_cases hc : m 0 = c
      · rw [if_pos ⟨hc ▸ Ne.symm hs.1, hc⟩]
        exact (and_iff_right hc).symm
      · rw [if_neg fun h => hc h.2]
        have hd : ((m 0).toNat : Int) - c.toNat ≠ 0 := fun h =>
          hc (UInt8.toNat_inj.mp (by omega))
        exact iff_of_false hd fun h => hc h.1

/-- A memory holds one string. -/
theorem HoldsString.unique {s' : List UInt8} (h : HoldsString m s) (h' : HoldsString m s')
    (hs : 0 ∉ s) (hs' : 0 ∉ s') : s = s' := by
  induction s generalizing m s' with
  | nil =>
      cases s' with
      | nil => rfl
      | cons c s' => exact absurd (holdsString_nil.mp h) (h'.ne_zero hs')
  | cons c s ih =>
      cases s' with
      | nil => exact absurd (holdsString_nil.mp h') (h.ne_zero hs)
      | cons c' s' =>
          obtain ⟨h₀, h⟩ := holdsString_cons.mp h
          obtain ⟨h₀', h'⟩ := holdsString_cons.mp h'
          rw [← h₀, h₀', ih h h' (fun hm => hs (.tail _ hm)) fun hm => hs' (.tail _ hm)]

end

/-! ### What reaches the drive -/

theorem blockLba_eq (b : Nat) : blockLba b = b % 2 ^ 24 := by
  show b % 256 + 2 ^ 8 * (b >>> 8 % 256) + 2 ^ 16 * (b >>> 16 % 256) + 2 ^ 24 * (0xE0 % 16) = _
  rw [Nat.shiftRight_eq_div_pow, Nat.shiftRight_eq_div_pow]
  omega

theorem blockLba_mod (b : Nat) : blockLba (b % 2 ^ 32) = blockLba b := by
  rw [blockLba_eq, blockLba_eq]
  omega

/-- For these blocks both drivers address the sector of that number, and different blocks
different sectors. -/
structure SameAddresses (B : Set Nat) : Prop where
  block : ∀ b ∈ B, blockLba b = b
  driver : ∀ b ∈ B, ∀ sectorOffset numBlocks c, command sectorOffset numBlocks = some c →
    (sectorOffset + partStartLba) % 2 ^ 32 = b → lbaOf c.regs = blockLba b
  injective : Set.InjOn blockLba B

/-- Without the upper four bits of the address only the first 2^24 sectors are in reach. -/
theorem sameAddresses_iff (B : Set Nat) : SameAddresses B ↔ ∀ b ∈ B, b < 2 ^ 24 := by
  constructor
  · intro h b hb
    have hblock := h.block b hb
    rw [blockLba_eq] at hblock
    omega
  · intro h
    have hblock : ∀ b ∈ B, blockLba b = b := fun b hb => by
      rw [blockLba_eq, Nat.mod_eq_of_lt (h b hb)]
    refine ⟨hblock, fun b hb sectorOffset numBlocks c hc hsector => ?_, fun b hb b' hb' heq => ?_⟩
    · have hlt : b < 2 ^ 28 := (h b hb).trans (by decide)
      rw [lbaOf_command hc, hsector, hblock b hb, Nat.mod_eq_of_lt hlt]
    · rwa [hblock b hb, hblock b' hb'] at heq

/-- Block 2^24 is sector 0. -/
theorem not_sameAddresses_lba28 : ¬SameAddresses {b | b < 2 ^ 28} := by
  intro h
  have hblock := h.block (2 ^ 24) (show 2 ^ 24 < 2 ^ 28 by decide)
  rw [blockLba_eq] at hblock
  exact absurd hblock (by decide)

@[simp] theorem Tty.write_mountedDrives (s : Tty) (lba : Nat) (buffer : Mem) :
    (s.write lba buffer).mountedDrives = s.mountedDrives := rfl

@[simp] theorem Tty.write_stored (s : Tty) (lba : Nat) (buffer : Mem) :
    (s.write lba buffer).stored = s.stored := rfl

/-- The blocks of a cluster written, from block `i` on. -/
def Tty.writes (s : Tty) (address : Nat) (buffer : Mem) : Nat → Nat → Tty
  | 0, _ => s
  | n + 1, i =>
      (s.write (blockLba (address + i)) fun j => buffer (i * blockSize + j)).writes address buffer
        n (i + 1)

@[simp] theorem Tty.writes_mountedDrives (s : Tty) (address : Nat) (buffer : Mem) (n i : Nat) :
    (s.writes address buffer n i).mountedDrives = s.mountedDrives := by
  induction n generalizing s i with
  | zero => rfl
  | succ n ih => exact ih _ _

@[simp] theorem Tty.writes_stored (s : Tty) (address : Nat) (buffer : Mem) (n i : Nat) :
    (s.writes address buffer n i).stored = s.stored := by
  induction n generalizing s i with
  | zero => rfl
  | succ n ih => exact ih _ _

/-- The sectors that the blocks of a cluster lie in. -/
theorem Tty.writes_written (s : Tty) (address : Nat) (buffer : Mem) (n i : Nat) :
    (s.writes address buffer n i).written
      = ((List.range' i n).map fun j => blockLba (address + j)).reverse ++ s.written := by
  induction n generalizing s i with
  | zero => rfl
  | succ n ih =>
      rw [Tty.writes, ih, List.range'_succ, List.map_cons, List.reverse_cons, List.append_assoc]
      rfl

theorem writeClusterLoop_eq (address : Nat) (buffer : Mem) (n i : Nat) (s : Tty) :
    writeClusterLoop address buffer n i s = (.value (), s.writes address buffer n i) := by
  induction n generalizing s i with
  | zero => rfl
  | succ n ih =>
      rw [writeClusterLoop, store_tty, writeBlock, modify_bind, ih, blockLba_mod]
      rfl

/-! ### The FAT as it is loaded -/

namespace Geometry

variable (g : Geometry) (d : Disk)

/-- Sector of the drive that holds sector `i` of the FAT. -/
def fatLba (i : Nat) : Nat := blockLba (g.fatStart + i)

/-- Sector of the drive that holds the first block of a cluster. -/
def dataLba (c : Nat) : Nat := blockLba (g.getClusterAddress c)

/-- Entry `k` of the FAT. -/
def fatWord (k : Nat) : Nat := le (d (g.fatLba (k / 128))) (4 * (k % 128)) 4

/-- The local array after `read_fat_table`. -/
def table (fatTable : Nat → Nat) : Nat → Nat := fun k =>
  if k / 128 < g.fatSectors then g.fatWord d k else fatTable k

/-- The FAT fits the local array. -/
def Fits (l : Locals) : Prop := 128 * g.fatSectors ≤ l.entries

instance (l : Locals) : Decidable (g.Fits l) := inferInstanceAs (Decidable (_ ≤ _))

end Geometry

section

variable {g : Geometry} {entries : Nat} {s : Tty}

theorem readFatTableLoop_eq {n i : Nat} {t : Nat → Nat} (he : entries < 2 ^ 30)
    (hi : 128 * (i + n) ≤ entries) :
    readFatTableLoop g entries n i t s =
      (.value fun k => if i ≤ k / 128 ∧ k / 128 < i + n then g.fatWord s.disk k else t k, s) := by
  induction n generalizing i t with
  | zero =>
      have ht : (fun k => if i ≤ k / 128 ∧ k / 128 < i + 0 then g.fatWord s.disk k else t k) = t :=
        funext fun k => if_neg (by omega)
      rw [ht]
      rfl
  | succ n ih =>
      have hs : i * blockSize % 2 ^ 32 / 4 = 128 * i := by
        rw [blockSize]
        omega
      rw [readFatTableLoop]
      simp only [hs, if_neg (show ¬entries < 128 * i + 128 by omega), fetch_tty, readBlock,
        gets_bind]
      rw [ih (by omega), blockLba_mod]
      congr 2
      funext k
      -- the round fills the entries of sector `i`, the others fill those behind
      by_cases hk : k / 128 = i
      · rw [if_neg (by omega), if_pos (by omega), if_pos (by omega), Geometry.fatWord, hk,
          show k - 128 * i = k % 128 by omega]
        rfl
      · rw [if_neg (c := _ ∧ _ < 128 * i + 128) (by omega)]
        congr 1
        exact propext (by omega)

theorem readFatTableLoop_stop {n i : Nat} {t : Nat → Nat} (he : entries < 2 ^ 30)
    (hi : 128 * i ≤ entries) (hn : entries < 128 * (i + n)) :
    readFatTableLoop g entries n i t s = (.stop .undefined, s) := by
  induction n generalizing i t with
  | zero => omega
  | succ n ih =>
      have hs : i * blockSize % 2 ^ 32 / 4 = 128 * i := by
        rw [blockSize]
        omega
      rw [readFatTableLoop]
      by_cases h : entries < 128 * i + 128
      · simp only [hs, if_pos h]
        rfl
      · simp only [hs, if_neg h, fetch_tty, readBlock, gets_bind]
        exact ih (by omega) (by omega)

variable {l : Locals}

/-- `read_fat_table` loads the FAT, or runs over the end of the array. -/
theorem readFatTable_eq (he : entries < 2 ^ 30) (t : Nat → Nat) :
    readFatTable g entries t s =
      if 128 * g.fatSectors ≤ entries then (.value (g.table s.disk t), s)
      else (.stop .undefined, s) := by
  rw [readFatTable]
  split
  · rw [readFatTableLoop_eq he (by omega)]
    simp only [Nat.zero_le, Nat.zero_add, true_and]
    rfl
  · exact readFatTableLoop_stop he (Nat.zero_le _) (by omega)

/-- The cluster that `find_free_cluster` returns. -/
def Geometry.found (g : Geometry) (d : Disk) (l : Locals) : Nat :=
  ((List.range' 2 (g.clusters - 2)).find? (isClusterFree · (g.table d l.findTable))).getD 0

section

variable {d : Disk} {c : Nat}

/-- The search stops at the first cluster whose word is 0. -/
theorem Geometry.found_eq_of_first (h₂ : 2 ≤ c) (hc : c < g.clusters)
    (hz : g.table d l.findTable c = 0)
    (hbefore : ∀ k, 2 ≤ k → k < c → g.table d l.findTable k ≠ 0) : g.found d l = c := by
  suffices hfind : (List.range' 2 (g.clusters - 2)).find?
      (isClusterFree · (g.table d l.findTable)) = some c by
    rw [Geometry.found, hfind, Option.getD_some]
  refine List.find?_range'_eq_some.mpr ⟨decide_eq_true hz, ?_, fun k hk₂ hk => ?_⟩
  · rw [List.mem_range'_1]
    omega
  · rw [isClusterFree, decide_eq_false (hbefore k hk₂ hk)]
    rfl

/-- Without one it returns 0. -/
theorem Geometry.found_eq_zero_of_forall
    (h : ∀ k, 2 ≤ k → k < g.clusters → g.table d l.findTable k ≠ 0) : g.found d l = 0 := by
  suffices hfind : (List.range' 2 (g.clusters - 2)).find?
      (isClusterFree · (g.table d l.findTable)) = none by
    rw [Geometry.found, hfind, Option.getD_none]
  refine List.find?_range'_eq_none.mpr fun k hk₂ hk => ?_
  rw [isClusterFree, decide_eq_false (h k hk₂ (by omega))]
  rfl

/-- What it returns is 0 or in its range. -/
theorem Geometry.found_cases : g.found d l = 0 ∨ g.found d l < g.clusters := by
  rw [Geometry.found]
  cases hf : (List.range' 2 (g.clusters - 2)).find? (isClusterFree · (g.table d l.findTable)) with
  | none => exact .inl rfl
  | some c =>
      have hc := List.mem_range'_1.mp (List.mem_of_find?_eq_some hf)
      rw [Option.getD_some]
      exact .inr (by omega)

end

theorem findFreeCluster_eq :
    findFreeCluster l g s =
      if g.Fits l ∧ g.sectorsPerCluster ≠ 0 then (.value (g.found s.disk l), s)
      else (.stop .undefined, s) := by
  have hr := readFatTable_eq (g := g) (s := s) l.entries_lt l.findTable
  rw [findFreeCluster]
  by_cases h : g.Fits l
  · rw [if_pos (show 128 * g.fatSectors ≤ l.entries from h)] at hr
    rw [bind_value hr]
    by_cases hs : g.sectorsPerCluster = 0
    · rw [if_pos hs, if_neg fun h => h.2 hs]
      rfl
    · rw [if_neg hs, if_pos ⟨h, hs⟩]
      rfl
  · rw [if_neg (show ¬128 * g.fatSectors ≤ l.entries from h)] at hr
    rw [if_neg fun hf => h hf.1, bind_stop hr]

/-- A call stays within its local arrays: the two for the FAT and the one for the content. -/
structure Geometry.Stays (g : Geometry) (d : Disk) (l : Locals) (content : CString) : Prop where
  fits : g.Fits l
  sectorsPerCluster : g.sectorsPerCluster ≠ 0
  buffer : strncpyExtent content blockSize ≤ l.room
  found : g.found d l < l.entries

/-- The block that `update_fat_entry` writes: the first 512 bytes of the table. -/
def Geometry.updatedBlock (g : Geometry) (d : Disk) (l : Locals) (c v : Nat) : Mem := fun j =>
  leBytes (Function.update (g.table d l.updateTable) c v (j / 4)) (j % 4)

theorem updateFatEntry_eq (c v : Nat) :
    updateFatEntry l c v g s =
      if g.Fits l ∧ c < l.entries then
        (.value (), s.write (g.fatLba (c / 128)) (g.updatedBlock s.disk l c v))
      else (.stop .undefined, s) := by
  have hr := readFatTable_eq (g := g) (s := s) l.entries_lt l.updateTable
  rw [updateFatEntry]
  by_cases h : g.Fits l
  · rw [if_pos (show 128 * g.fatSectors ≤ l.entries from h)] at hr
    rw [bind_value hr]
    by_cases hc : l.entries ≤ c
    · rw [if_pos hc, if_neg fun h => h.2.not_ge hc]
      rfl
    · -- the byte offset of an entry of the array does not wrap
      have hl := l.entries_lt
      have hb : c * 4 % 2 ^ 32 / blockSize = c / 128 := by
        rw [blockSize]
        omega
      rw [if_neg hc, if_pos ⟨h, not_le.mp hc⟩, hb]
      show (_, s.write (blockLba _) _) = (_, s.write (blockLba _) _)
      rw [blockLba_mod]
      rfl
  · rw [if_neg (show ¬128 * g.fatSectors ≤ l.entries from h)] at hr
    rw [if_neg fun hf => h hf.1, bind_stop hr]

end

/-! ### One call of `write_file` -/

/-- The table of a drive after a store behind its last file. -/
def Tty.addFile (s : Tty) (n : Nat) (e : FileEntry) : Tty :=
  { s with
    mountedDrives := Function.update s.mountedDrives n
      { s.mountedDrives n with rootDirectory := (s.mountedDrives n).rootDirectory.append e }
    stored := ((s.mountedDrives n).rootDirectory.fileCount,
      ((s.mountedDrives n).rootDirectory.files (s.mountedDrives n).rootDirectory.fileCount).size)
        :: s.stored }

/-- The new entry. -/
def newFile (l : Locals) (filename content : CString) (c : Nat) : FileEntry where
  name := strncpy l.newFile filename maxFilenameLength
  size := content.1.length % 2 ^ 32
  startCluster := c

/-- The disk after the block of the content and the block of the FAT. -/
def Tty.place (s : Tty) (g : Geometry) (l : Locals) (content : CString) (c : Nat) : Tty :=
  let s₁ := s.writes (g.getClusterAddress c) (contentBuffer l content) g.sectorsPerCluster 0
  s₁.write (g.fatLba (c / 128)) (g.updatedBlock s₁.disk l c 0xFFFFFFFF)

@[simp] theorem Tty.place_mountedDrives (s : Tty) (g : Geometry) (l : Locals) (content : CString)
    (c : Nat) : (s.place g l content c).mountedDrives = s.mountedDrives :=
  s.writes_mountedDrives _ _ _ _

@[simp] theorem Tty.place_stored (s : Tty) (g : Geometry) (l : Locals) (content : CString)
    (c : Nat) : (s.place g l content c).stored = s.stored :=
  s.writes_stored _ _ _ _

section

variable {l : Locals} {n : Nat} {filename content : CString} {s : Tty}

theorem addFile_eq (n : Nat) (e : FileEntry) (s : Tty) :
    addFile n e s =
      (if maxFiles ≤ (s.mountedDrives n).rootDirectory.fileCount then .stop .undefined
        else .value (), s.addFile n e) := by
  rw [addFile, gets_bind]
  simp only [modify_bind]
  split <;> rfl

/-- A call on a full table does nothing. -/
theorem writeFile_of_full (hn : n < maxMountedDrives)
    (h : (s.mountedDrives n).rootDirectory.freeEntry = none) :
    writeFile l n filename content s = (.value (), s) := by
  rw [writeFile, if_neg (not_le.mpr hn)]
  simp only [onTables_tty, gets_bind, h]
  rfl

/-- A call that finds a free entry and a cluster, up to the block of the content. -/
theorem writeFile_eq_bind (hn : n < maxMountedDrives)
    (h : (s.mountedDrives n).rootDirectory.freeEntry ≠ none)
    (hf : (s.mountedDrives n).Fits l ∧ (s.mountedDrives n).sectorsPerCluster ≠ 0)
    (hb : strncpyExtent content blockSize ≤ l.room) :
    writeFile l n filename content s =
      (updateFatEntry l ((s.mountedDrives n).found s.disk l) 0xFFFFFFFF
          (s.mountedDrives n).toGeometry >>=
        fun _ => addFile n (newFile l filename content ((s.mountedDrives n).found s.disk l)))
        (s.writes ((s.mountedDrives n).getClusterAddress ((s.mountedDrives n).found s.disk l))
          (contentBuffer l content) (s.mountedDrives n).sectorsPerCluster 0) := by
  obtain ⟨i, hi⟩ := Option.ne_none_iff_exists'.mp h
  rw [writeFile, if_neg (not_le.mpr hn)]
  simp only [onTables_tty, gets_bind, hi]
  have hfind := findFreeCluster_eq (l := l) (g := (s.mountedDrives n).toGeometry) (s := s)
  rw [if_pos hf] at hfind
  rw [bind_value hfind, if_neg (not_lt.mpr hb), writeCluster,
    bind_value (writeClusterLoop_eq _ _ _ _ s)]
  rfl

/-- A call that finds a free entry and stays within its arrays. -/
theorem writeFile_of_stays (filename : CString) (hn : n < maxMountedDrives)
    (h : (s.mountedDrives n).rootDirectory.freeEntry ≠ none)
    (hs : (s.mountedDrives n).Stays s.disk l content) :
    writeFile l n filename content s =
      (if maxFiles ≤ (s.mountedDrives n).rootDirectory.fileCount then .stop .undefined
        else .value (),
        (s.place (s.mountedDrives n).toGeometry l content
          ((s.mountedDrives n).found s.disk l)).addFile n
            (newFile l filename content ((s.mountedDrives n).found s.disk l))) := by
  rw [writeFile_eq_bind hn h ⟨hs.fits, hs.sectorsPerCluster⟩ hs.buffer]
  refine (bind_value ((updateFatEntry_eq _ _).trans (if_pos ⟨hs.fits, hs.found⟩))).trans ?_
  refine (addFile_eq n _ _).trans ?_
  rw [Tty.write_mountedDrives, Tty.writes_mountedDrives]
  rfl

/-- A call that leaves one of its arrays has not touched a table of files. -/
theorem writeFile_of_not_stays (filename : CString) (hn : n < maxMountedDrives)
    (h : (s.mountedDrives n).rootDirectory.freeEntry ≠ none)
    (hs : ¬(s.mountedDrives n).Stays s.disk l content) :
    ∃ s', writeFile l n filename content s = (.stop .undefined, s') ∧
      s'.mountedDrives = s.mountedDrives ∧ s'.stored = s.stored := by
  by_cases hf : (s.mountedDrives n).Fits l ∧ (s.mountedDrives n).sectorsPerCluster ≠ 0
  · by_cases hb : strncpyExtent content blockSize ≤ l.room
    · rw [writeFile_eq_bind hn h hf hb]
      have hc : ¬((s.mountedDrives n).Fits l ∧ (s.mountedDrives n).found s.disk l < l.entries) :=
        fun hc => hs ⟨hf.1, hf.2, hb, hc.2⟩
      exact ⟨_, bind_stop ((updateFatEntry_eq _ _).trans (if_neg hc)),
        s.writes_mountedDrives _ _ _ _, s.writes_stored _ _ _ _⟩
    · -- the buffer is left before anything is written
      obtain ⟨i, hi⟩ := Option.ne_none_iff_exists'.mp h
      rw [writeFile, if_neg (not_le.mpr hn)]
      simp only [onTables_tty, gets_bind, hi]
      rw [bind_value (findFreeCluster_eq.trans (if_pos hf)), if_pos (not_le.mp hb)]
      exact ⟨s, rfl, rfl, rfl⟩
  · obtain ⟨i, hi⟩ := Option.ne_none_iff_exists'.mp h
    rw [writeFile, if_neg (not_le.mpr hn)]
    simp only [onTables_tty, gets_bind, hi]
    exact ⟨s, bind_stop (findFreeCluster_eq.trans (if_neg hf)), rfl, rfl⟩

end

end PotatoOS
