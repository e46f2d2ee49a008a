/-
PotatoOS/Volume.lean

The data of the FAT driver (FAT.h): its constants, the globals that
`FATInitialize` sets, and the 32-byte directory entry.

The globals carry the ranges of their C types as fields, so no lemma has to
assume that a sector count fits its field.  A directory entry is the packed
struct of the source, kept as its 32 bytes; the accessors below are the
struct's fields at their packed offsets:

    0  file_name[11]          18  last_accessed
    11 attributes             20  high_bits
    13 creation_time_tenths   22  last_modification_time
    14 creation_time          24  last_modification_date
    16 creation_date          26  low_bits
                              28  file_size
-/
import PotatoOS.Bytes

namespace PotatoOS

/-! ### Constants -/

/-- `END_CLUSTER_32`: the last cluster of a chain, as are all greater values. -/
def endCluster32 : Nat := 0x0FFFFFF8

/-- `BAD_CLUSTER_32`. -/
def badCluster32 : Nat := 0x0FFFFFF7

/-- `FREE_CLUSTER_32`. -/
def freeCluster32 : Nat := 0x00000000

/-- `END_CLUSTER_16`. -/
def endCluster16 : Nat := 0xFFF8

/-- `BAD_CLUSTER_16`. -/
def badCluster16 : Nat := 0xFFF7

/-- `FREE_CLUSTER_16`. -/
def freeCluster16 : Nat := 0x0000

/-- `END_CLUSTER_12`. -/
def endCluster12 : Nat := 0xFF8

/-- `BAD_CLUSTER_12`. -/
def badCluster12 : Nat := 0xFF7

/-- `FREE_CLUSTER_12`. -/
def freeCluster12 : Nat := 0x000

/-- `FILE_VOLUME_ID`. -/
def fileVolumeId : UInt8 := 0x08

/-- `FILE_DIRECTORY`. -/
def fileDirectory : UInt8 := 0x10

/-- `ENTRY_FREE`: the first byte of an entry that has been deleted. -/
def entryFree : UInt8 := 0xE5

/-- `ENTRY_END`: the first byte of the first entry that was never used. -/
def entryEnd : UInt8 := 0x00

/-- Where every disk transfer reads to and writes from. -/
def diskLocation : Nat := 0x40000

/-- First sector of the booted partition on the drive. -/
def partStartLba : Nat := 33543720

/-- Number of sectors of the booted partition. -/
def partLength : Nat := 2 * 8385930

/-! ### Globals -/

/-- What the driver remembers of the mounted volume. -/
structure Globals where
  fatType : Nat
  firstFatSector : Nat
  firstDataSector : Nat
  totalClusters : Nat
  bytesPerSector : Nat
  sectorsPerCluster : Nat
  rootCluster : Nat
  firstFatSector_lt : firstFatSector < 2 ^ 16 := by decide
  firstDataSector_lt : firstDataSector < 2 ^ 32 := by decide
  totalClusters_lt : totalClusters < 2 ^ 32 := by decide
  bytesPerSector_lt : bytesPerSector < 2 ^ 16 := by decide
  sectorsPerCluster_lt : sectorsPerCluster < 2 ^ 8 := by decide
  rootCluster_lt : rootCluster < 2 ^ 32 := by decide

namespace Globals

/-- The range check that every cluster operation makes. -/
def InRange (g : Globals) (c : Nat) : Prop := 2 ≤ c ∧ c < g.totalClusters

instance (g : Globals) (c : Nat) : Decidable (g.InRange c) :=
  inferInstanceAs (Decidable (_ ∧ _))

/-- `bytes_per_sector * sectors_per_cluster`. -/
def clusterSize (g : Globals) : Nat := g.bytesPerSector * g.sectorsPerCluster

/-- Is a FAT value an end-of-chain mark for the volume's FAT type? -/
def isEndMark (g : Globals) (v : Nat) : Prop :=
  (endCluster32 ≤ v ∧ g.fatType = 32) ∨ (endCluster16 ≤ v ∧ g.fatType = 16) ∨
    (endCluster12 ≤ v ∧ g.fatType = 12)

instance (g : Globals) (v : Nat) : Decidable (g.isEndMark v) :=
  inferInstanceAs (Decidable (_ ∨ _))

/-- Is a value the allocator's failure signal for the volume's FAT type? -/
def isBadMark (g : Globals) (v : Nat) : Prop :=
  (v = badCluster32 ∧ g.fatType = 32) ∨ (v = badCluster16 ∧ g.fatType = 16) ∨
    (v = badCluster12 ∧ g.fatType = 12)

instance (g : Globals) (v : Nat) : Decidable (g.isBadMark v) :=
  inferInstanceAs (Decidable (_ ∨ _))

/-- 512-byte sectors, and clusters of at least one of them. -/
structure Blocks512 (g : Globals) : Prop where
  bytesPerSector : g.bytesPerSector = 512
  one_le : 1 ≤ g.sectorsPerCluster

/-- 512-byte sectors and 1 to 127 of them in a cluster. -/
structure Sectors512 (g : Globals) : Prop extends Blocks512 g where
  le : g.sectorsPerCluster ≤ 127

/-- A FAT32 volume with 512-byte sectors. -/
structure IsFat32 (g : Globals) : Prop extends Sectors512 g where
  fatType : g.fatType = 32

/-- A FAT32 volume in the sectors of the drive. -/
structure IsImage (g : Globals) : Prop extends Blocks512 g where
  fatType : g.fatType = 32

theorem IsFat32.isImage {g : Globals} (h : g.IsFat32) : g.IsImage := ⟨h.toBlocks512, h.fatType⟩

theorem Blocks512.clusterSize_eq {g : Globals} (h : g.Blocks512) :
    g.clusterSize = 512 * g.sectorsPerCluster := by
  rw [clusterSize, h.bytesPerSector]

theorem IsFat32.isEndMark_iff {g : Globals} (h : g.IsFat32) (v : Nat) :
    g.isEndMark v ↔ endCluster32 ≤ v := by
  simp [Globals.isEndMark, h.fatType]

theorem IsFat32.isBadMark_iff {g : Globals} (h : g.IsFat32) (v : Nat) :
    g.isBadMark v ↔ v = badCluster32 := by
  simp [Globals.isBadMark, h.fatType]

end Globals

/-! ### Directory entries -/

/-- The 11 bytes of a name as a directory entry stores it. -/
abbrev Name := Fin 11 → UInt8

/-- The packed 32-byte directory entry. -/
abbrev DirectoryEntry := Fin 32 → UInt8

-- for the numerals among the offsets of an entry
instance neZero_entrySize : NeZero 32 := ⟨by decide⟩

namespace DirectoryEntry

/-- The entry as a memory of 32 bytes. -/
def bytes (e : DirectoryEntry) : Mem := fun i => if h : i < 32 then e ⟨i, h⟩ else 0

/-- The entry that lies at address `a`. -/
def at_ (m : Mem) (a : Nat) : DirectoryEntry := fun j => m (a + j)

/-- `file_name`. -/
def fileName (e : DirectoryEntry) : Name := fun j => e (j.castLE (by decide))

/-- `attributes`. -/
def attributes (e : DirectoryEntry) : UInt8 := e 11

/-- `high_bits` of the first cluster. -/
def highBits (e : DirectoryEntry) : Nat := le e.bytes 20 2

/-- `low_bits` of the first cluster. -/
def lowBits (e : DirectoryEntry) : Nat := le e.bytes 26 2

/-- `file_size`. -/
def fileSize (e : DirectoryEntry) : Nat := le e.bytes 28 4

/-- Store the low `w` bytes of `v` in the field at offset `o`. -/
def setField (e : DirectoryEntry) (o w v : Nat) : DirectoryEntry := fun j =>
  memcpy e.bytes o (leBytes v) w j

/-- Is the `FILE_DIRECTORY` attribute set? -/
def isDirectory (e : DirectoryEntry) : Prop :=
  e.attributes &&& fileDirectory = fileDirectory

instance (e : DirectoryEntry) : Decidable e.isDirectory :=
  inferInstanceAs (Decidable (_ = _))

theorem bytes_of_lt (e : DirectoryEntry) {i : Nat} (h : i < 32) :
    e.bytes i = e ⟨i, h⟩ := dif_pos h

theorem bytes_setField (e : DirectoryEntry) (o w v : Nat) {i : Nat} (h : i < 32) :
    (e.setField o w v).bytes i = memcpy e.bytes o (leBytes v) w i :=
  bytes_of_lt _ h

/-- A stored field reads back, cut to its width. -/
theorem le_setField_self (e : DirectoryEntry) {o w v : Nat} (h : o + w ≤ 32) :
    le (e.setField o w v).bytes o w = v % 256 ^ w := by
  rw [← le_memcpy_leBytes e.bytes o v w]
  exact le_congr fun i hi => bytes_setField e o w v (by omega)

/-- The other fields keep their value. -/
theorem le_setField_other (e : DirectoryEntry) {o w v o' w' : Nat} (h' : o' + w' ≤ 32)
    (hd : o' + w' ≤ o ∨ o + w ≤ o') :
    le (e.setField o w v).bytes o' w' = le e.bytes o' w' := by
  have hk : le (memcpy e.bytes o (leBytes v) w) o' w' = le e.bytes o' w' :=
    le_memcpy_of_disjoint hd
  rw [← hk]
  exact le_congr fun i hi => bytes_setField e o w v (by omega)

theorem setField_apply_of_lt (e : DirectoryEntry) {o w v : Nat} {j : Fin 32}
    (h : (j : Nat) < o ∨ o + w ≤ j) : e.setField o w v j = e j := by
  show memcpy e.bytes o (leBytes v) w j = e j
  rw [memcpy_apply_of_notMem h, bytes_of_lt e j.isLt]

end DirectoryEntry

/-! ### First-cluster encoding -/

/-- `GET_CLUSTER_FROM_ENTRY`. -/
def getClusterFromEntry (g : Globals) (e : DirectoryEntry) : Nat :=
  (e.lowBits ||| (e.highBits <<< (g.fatType / 2))) % 2 ^ 32

/-- `GET_ENTRY_LOW_BITS`. -/
def getEntryLowBits (g : Globals) (x : Nat) : Nat := x &&& (g.fatType / 2 - 1)

/-- `GET_ENTRY_HIGH_BITS`. -/
def getEntryHighBits (g : Globals) (x : Nat) : Nat := x >>> (g.fatType / 2)

/-- `CurrentDate`: there is no clock yet, so all three are constants. -/
def currentDate : Nat := 0x11

/-- `CurrentTime`. -/
def currentTime : Nat := 0

/-- `CurrentTimeTenths`. -/
def currentTimeTenths : Nat := 0

/-- The date and time fields that `directoryAdd` fills in. -/
def stampEntry (e : DirectoryEntry) : DirectoryEntry :=
  (((((e.setField 16 2 currentDate).setField 14 2 currentTime).setField 13 1
    currentTimeTenths).setField 18 2 currentDate).setField 24 2 currentDate).setField 22 2
    currentTime

/-- The first-cluster fields that `directoryAdd` fills in. -/
def placeEntry (g : Globals) (e : DirectoryEntry) (x : Nat) : DirectoryEntry :=
  (e.setField 26 2 (getEntryLowBits g x)).setField 20 2 (getEntryHighBits g x)

end PotatoOS
