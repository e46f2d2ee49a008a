/-
PotatoOS/Drive.lean

The sector driver of FAT.c (`int13h_read_o`, `int13h_write_o`) and the
cluster transfers over it.

The drive is an array of sectors indexed by absolute LBA.  The driver
rebases a partition sector, cuts it into the four LBA28 registers and
transfers block by block; `lbaOf` is what the drive makes of the registers.
Whether a block transfer fails is decided by the environment, as a function
of the moment and the sector: `reliable` never fails.  The log lists every
window of memory that a transfer has stored to.

On the reliable drive a read that passes the two bounds checks has exactly
the effect `State.loads` (`int13hReadO_reliable`), a write exactly
`State.stores` (`int13hWriteO_reliable`).
-/
import PotatoOS.Volume
import PotatoOS.Prog

namespace PotatoOS

/-- The drive: sectors by absolute LBA, the first 512 bytes of each. -/
abbrev Disk := Nat → Mem

/-- A window of memory that a transfer has stored to. -/
structure Store where
  addr : Nat
  len : Nat
  deriving DecidableEq, Repr

/-- The machine as the driver sees it. -/
structure State where
  disk : Disk
  mem : Mem
  tick : Nat
  log : List Store

/-- Which block transfers fail, by moment and LBA. -/
structure Env where
  readFails : Nat → Nat → Bool
  writeFails : Nat → Nat → Bool

/-- The drive on which every transfer succeeds. -/
def reliable : Env := ⟨fun _ _ => false, fun _ _ => false⟩

/-- Replace the 512 bytes of one sector. -/
def writeSector (d : Disk) (lba : Nat) (src : Mem) : Disk := fun l =>
  if l = lba then memcpy (d l) 0 src 512 else d l

/-- Sector `n` of the booted partition. -/
def Disk.sector (d : Disk) (n : Nat) : Mem := d (partStartLba + n)

theorem writeSector_self (d : Disk) (lba : Nat) (src : Mem) :
    writeSector d lba src lba = memcpy (d lba) 0 src 512 := if_pos rfl

theorem writeSector_other (d : Disk) {lba l : Nat} (src : Mem) (h : l ≠ lba) :
    writeSector d lba src l = d l := if_neg h

/-! ### LBA28 registers -/

/-- The values sent to ports 0x1F3 to 0x1F6. -/
structure LbaRegs where
  low : Nat
  mid : Nat
  high : Nat
  device : Nat
  deriving DecidableEq, Repr

/-- How the driver cuts a sector number. -/
def programLba (n : Nat) : LbaRegs where
  low := n % 256
  mid := n >>> 8 % 256
  high := n >>> 16 % 256
  device := 0xE0 ||| (n >>> 24 &&& 0x0F)

/-- The address that the drive takes from the registers. -/
def lbaOf (r : LbaRegs) : Nat :=
  r.low + 2 ^ 8 * r.mid + 2 ^ 16 * r.high + 2 ^ 24 * (r.device % 16)

theorem lbaOf_programLba (n : Nat) : lbaOf (programLba n) = n % 2 ^ 28 := by
  have hd : (0xE0 ||| (n >>> 24 &&& 0x0F)) % 16 = n / 2 ^ 24 % 16 := by
    have h₁ : n >>> 24 &&& 0x0F = n / 2 ^ 24 % 16 := by
      rw [Nat.shiftRight_eq_div_pow]
      exact Nat.and_two_pow_sub_one_eq_mod _ 4
    rw [h₁, show (16 : Nat) = 2 ^ 4 from rfl, Nat.or_mod_two_pow]
    simp
  show n % 256 + 2 ^ 8 * (n >>> 8 % 256) + 2 ^ 16 * (n >>> 16 % 256)
    + 2 ^ 24 * ((0xE0 ||| (n >>> 24 &&& 0x0F)) % 16) = _
  rw [hd, Nat.shiftRight_eq_div_pow, Nat.shiftRight_eq_div_pow]
  omega

/-! ### Block transfers -/

namespace State

/-- One block read from the drive into memory. -/
def load (s : State) (lba buffer : Nat) : State where
  disk := s.disk
  mem := memcpy s.mem buffer (s.disk lba) 512
  tick := s.tick + 1
  log := ⟨buffer, 512⟩ :: s.log

/-- One block written from memory to the drive. -/
def store (s : State) (lba buffer : Nat) : State where
  disk := writeSector s.disk lba fun i => s.mem (buffer + i)
  mem := s.mem
  tick := s.tick + 1
  log := s.log

/-- A block transfer that failed. -/
def miss (s : State) : State := { s with tick := s.tick + 1 }

/-- `n` blocks read in a row. -/
def loads (s : State) (lba buffer : Nat) : Nat → State
  | 0 => s
  | n + 1 => (s.load lba buffer).loads (lba + 1) ((buffer + 512) % 2 ^ 32) n

/-- `n` blocks written in a row. -/
def stores (s : State) (lba buffer : Nat) : Nat → State
  | 0 => s
  | n + 1 => (s.store lba buffer).stores (lba + 1) ((buffer + 512) % 2 ^ 32) n

@[simp] theorem load_disk (s : State) (lba buffer : Nat) : (s.load lba buffer).disk = s.disk := rfl

@[simp] theorem load_mem (s : State) (lba buffer : Nat) :
    (s.load lba buffer).mem = memcpy s.mem buffer (s.disk lba) 512 := rfl

@[simp] theorem store_disk (s : State) (lba buffer : Nat) :
    (s.store lba buffer).disk = writeSector s.disk lba fun i => s.mem (buffer + i) := rfl

theorem loads_disk (s : State) (lba buffer n : Nat) : (s.loads lba buffer n).disk = s.disk := by
  induction n generalizing s lba buffer with
  | zero => rfl
  | succ n ih => rw [loads, ih, load_disk]

end State

open Prog

/-- The block loop of `int13h_read_o`. -/
def readBlocks (env : Env) (lba buffer : Nat) : Nat → Prog State Int
  | 0 => pure 0
  | n + 1 => do
      let tick ← gets State.tick
      if env.readFails tick lba then
        modify State.miss
        return -1
      modify fun s => s.load lba buffer
      readBlocks env (lba + 1) ((buffer + 512) % 2 ^ 32) n

/-- The block loop of `int13h_write_o`.  The source waits for the drive
before each block; a block that the environment lets fail makes the call
return -1, as its callers expect of a failed write. -/
def writeBlocks (env : Env) (lba buffer : Nat) : Nat → Prog State Int
  | 0 => pure 0
  | n + 1 => do
      let tick ← gets State.tick
      if env.writeFails tick lba then
        modify State.miss
        return -1
      modify fun s => s.store lba buffer
      writeBlocks env (lba + 1) ((buffer + 512) % 2 ^ 32) n

/-- `int13h_read_o`: two checks, then block after block to the transfer buffer, until one fails. -/
def int13hReadO (env : Env) (sectorOffset numBlocks readLocationOffset : Nat) :
    Prog State Int :=
  if (sectorOffset + numBlocks) % 2 ^ 32 > partLength then pure (-1)
  else if numBlocks > 0x7F then pure (-1)
  else readBlocks env (lbaOf (programLba ((sectorOffset + partStartLba) % 2 ^ 32)))
    ((diskLocation + readLocationOffset) % 2 ^ 32) numBlocks

/-- `int13h_write_o`: the same checks, and block after block from the transfer buffer. -/
def int13hWriteO (env : Env) (sectorOffset numBlocks writeLocationOffset : Nat) :
    Prog State Int :=
  if (sectorOffset + numBlocks) % 2 ^ 32 > partLength then pure (-1)
  else if numBlocks > 0x7F then pure (-1)
  else writeBlocks env (lbaOf (programLba ((sectorOffset + partStartLba) % 2 ^ 32)))
    ((diskLocation + writeLocationOffset) % 2 ^ 32) numBlocks

/-- `int13h_read`: to the start of the buffer. -/
def int13hRead (env : Env) (sectorOffset numBlocks : Nat) : Prog State Int :=
  int13hReadO env sectorOffset numBlocks 0

/-- `int13h_write`: from the start of the buffer. -/
def int13hWrite (env : Env) (sectorOffset numBlocks : Nat) : Prog State Int :=
  int13hWriteO env sectorOffset numBlocks 0

/-! ### The reliable drive -/

theorem readBlocks_reliable (lba buffer n : Nat) (s : State) :
    readBlocks reliable lba buffer n s = (.value 0, s.loads lba buffer n) := by
  induction n generalizing lba buffer s with
  | zero => rfl
  | succ n ih =>
      simp only [readBlocks, reliable, gets_bind, Bool.false_eq_true, if_false, modify_bind]
      exact ih ..

theorem writeBlocks_reliable (lba buffer n : Nat) (s : State) :
    writeBlocks reliable lba buffer n s = (.value 0, s.stores lba buffer n) := by
  induction n generalizing lba buffer s with
  | zero => rfl
  | succ n ih =>
      simp only [writeBlocks, reliable, gets_bind, Bool.false_eq_true, if_false, modify_bind]
      exact ih ..

/-- Inside the partition the registers hold the rebased sector number. -/
theorem lbaOf_rebased {n : Nat} (h : n ≤ partLength) :
    lbaOf (programLba ((n + partStartLba) % 2 ^ 32)) = partStartLba + n := by
  rw [lbaOf_programLba]
  simp only [partLength, partStartLba] at h ⊢
  omega

theorem int13hReadO_reliable {n k : Nat} (s : State) (off : Nat) (h : n + k ≤ partLength)
    (hk : k ≤ 0x7F) :
    int13hReadO reliable n k off s
      = (.value 0, s.loads (partStartLba + n) ((diskLocation + off) % 2 ^ 32) k) := by
  have h₁ : ¬ (n + k) % 2 ^ 32 > partLength := by
    simp only [partLength] at h ⊢
    omega
  rw [int13hReadO, if_neg h₁, if_neg (by omega), lbaOf_rebased (by omega), readBlocks_reliable]

theorem int13hWriteO_reliable {n k : Nat} (s : State) (off : Nat) (h : n + k ≤ partLength)
    (hk : k ≤ 0x7F) :
    int13hWriteO reliable n k off s
      = (.value 0, s.stores (partStartLba + n) ((diskLocation + off) % 2 ^ 32) k) := by
  have h₁ : ¬ (n + k) % 2 ^ 32 > partLength := by
    simp only [partLength] at h ⊢
    omega
  rw [int13hWriteO, if_neg h₁, if_neg (by omega), lbaOf_rebased (by omega),
    writeBlocks_reliable]

/-! ### A drive that fails -/

/-- A read of one block either fails or is that of the reliable drive. -/
theorem int13hReadO_any (env : Env) (n off : Nat) (s : State) :
    int13hReadO env n 1 off s = (.value (-1), s.miss) ∨
      int13hReadO env n 1 off s = int13hReadO reliable n 1 off s := by
  rw [int13hReadO, int13hReadO]
  split
  · exact .inr rfl
  · split
    · exact .inr rfl
    · simp only [readBlocks, gets_bind]
      split
      · exact .inl rfl
      · exact .inr rfl

theorem int13hWriteO_any (env : Env) (n off : Nat) (s : State) :
    int13hWriteO env n 1 off s = (.value (-1), s.miss) ∨
      int13hWriteO env n 1 off s = int13hWriteO reliable n 1 off s := by
  rw [int13hWriteO, int13hWriteO]
  split
  · exact .inr rfl
  · split
    · exact .inr rfl
    · simp only [writeBlocks, gets_bind]
      split
      · exact .inl rfl
      · exact .inr rfl

/-! ### Clusters -/

/-- First sector of a cluster, as `clusterRead` and `clusterWrite` compute it. -/
def Globals.startSect (g : Globals) (c : Nat) : Nat :=
  ((c - 2) * g.sectorsPerCluster + g.firstDataSector) % 2 ^ 32

/-- `clusterRead`: the cluster goes to place `clusterOffset` of the transfer buffer, counted in
clusters.  A number outside of `[2, total_clusters)` is refused. -/
def clusterRead (env : Env) (g : Globals) (clusterNum clusterOffset : Nat) : Prog State Int :=
  if clusterNum < 2 ∨ clusterNum ≥ g.totalClusters then pure (-1)
  else do
    let off := clusterOffset * g.sectorsPerCluster * g.bytesPerSector % 2 ^ 32
    if (← int13hReadO env (g.startSect clusterNum) g.sectorsPerCluster off) ≠ 0 then
      return -1
    return 0

/-- `clusterWrite`: the contents are copied to the transfer buffer first, and the whole cluster is
written from there, whatever lies behind the contents. -/
def clusterWrite (env : Env) (g : Globals) (contentsToWrite : Mem)
    (contentSize contentBuffOffset clusterNum : Nat) : Prog State Int :=
  if clusterNum < 2 ∨ clusterNum ≥ g.totalClusters then pure (-1)
  else do
    let byteOffset := contentBuffOffset * g.sectorsPerCluster * g.bytesPerSector % 2 ^ 32
    modify fun s =>
      { s with mem := memcpy32 s.mem (diskLocation + byteOffset) contentsToWrite contentSize }
    if (← int13hWriteO env (g.startSect clusterNum) g.sectorsPerCluster byteOffset) ≠ 0 then
      return -1
    return 0

end PotatoOS
