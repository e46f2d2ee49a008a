/-
PotatoOS/Boot.lean

Mounting a volume: `FATInitialize`.

The function reads sector 0 of the partition and computes the driver's
globals from the boot sector.  The fields of the packed struct `fat_BS_t`
that it uses are read at their offsets:

    11 bytes_per_sector        19 total_sectors_16
    13 sectors_per_cluster     22 table_size_16
    14 reserved_sector_count   32 total_sectors_32
    16 table_count             36 table_size_32
    17 root_entry_count        44 root_cluster

The number of clusters is the size of the whole volume divided by the size of
a cluster, although the clusters start behind the reserved sectors and the
tables and their numbers start at 2.  The same count decides the type of the
volume, where the specification takes the clusters of the data area.

In the end the whole sector is copied to the struct `bootsect`, which has 90
bytes.  The other 422 fall on what the linker has put behind it, and that may be
the variables just set.  So `fatInitialize` is told where the variables lie
(`Addresses`), and what it sets is read from memory after the copy.

Main results: `rangeExact_iff` says when the range check of the driver is the
right one, and `typeRight_iff` when the type is that of the specification.
-/
import PotatoOS.Table

namespace PotatoOS

open Prog

/-! ### The boot sector -/

namespace BootSector

variable (bs : Mem)

/-- `bytes_per_sector`. -/
def bytesPerSector : Nat := le bs 11 2

/-- `sectors_per_cluster`. -/
def sectorsPerCluster : Nat := le bs 13 1

/-- `reserved_sector_count`: the sectors in front of the first table. -/
def reservedSectorCount : Nat := le bs 14 2

/-- `table_count`: the copies of the table. -/
def tableCount : Nat := le bs 16 1

/-- `root_entry_count`: the entries of the root directory of a FAT12 or FAT16 volume. -/
def rootEntryCount : Nat := le bs 17 2

/-- `total_sectors_16`: the sectors of a small volume. -/
def totalSectors16 : Nat := le bs 19 2

/-- `table_size_16`: the sectors of one table of a FAT12 or FAT16 volume. -/
def tableSize16 : Nat := le bs 22 2

/-- `total_sectors_32`: the sectors of a large volume. -/
def totalSectors32 : Nat := le bs 32 4

/-- `table_size_32`: the sectors of one table of a FAT32 volume. -/
def tableSize32 : Nat := le bs 36 4

/-- `root_cluster`: the first cluster of the root directory of a FAT32 volume. -/
def rootCluster : Nat := le bs 44 4

/-- The sector count that `FATInitialize` divides: the 32-bit field when the
16-bit one does not make up a cluster. -/
def totalSectors : Nat :=
  if totalSectors16 bs / sectorsPerCluster bs = 0 then totalSectors32 bs else totalSectors16 bs

/-- `total_clusters`: all sectors of the volume count, those in front of the data too. -/
def totalClusters : Nat := totalSectors bs / sectorsPerCluster bs

/-- `fat_type`, by the number of clusters. -/
def fatType : Nat :=
  if totalClusters bs < 4085 then 12 else if totalClusters bs < 65525 then 16 else 32

/-- Sectors of the root directory of a FAT12 or FAT16 volume. -/
def rootDirectorySectors : Nat :=
  (rootEntryCount bs * 32 + bytesPerSector bs - 1) / bytesPerSector bs

/-- `first_data_sector`: behind the reserved sectors and the tables, and behind the root directory
where that has a place of its own. -/
def firstDataSector : Nat :=
  if fatType bs = 32 then (reservedSectorCount bs + tableCount bs * tableSize32 bs) % 2 ^ 32
  else (reservedSectorCount bs + tableCount bs * tableSize16 bs + rootDirectorySectors bs) % 2 ^ 32

theorem totalSectors_lt : totalSectors bs < 2 ^ 32 := by
  have h₁ := le_lt bs 19 2
  have h₂ := le_lt bs 32 4
  rw [totalSectors]
  split
  · exact h₂
  · exact Nat.lt_trans h₁ (by decide)

theorem firstDataSector_lt : firstDataSector bs < 2 ^ 32 := by
  rw [firstDataSector]
  split <;> exact Nat.mod_lt _ (by decide)

theorem totalClusters_lt : totalClusters bs < 2 ^ 32 :=
  Nat.lt_of_le_of_lt (Nat.div_le_self _ _) (totalSectors_lt bs)

theorem fatType_lt : fatType bs < 256 := by
  rw [fatType]
  split
  · decide
  · split <;> decide

end BootSector

/-! ### The variables in memory -/

/-- Where the linker puts `bootsect` and the three variables that are set before it.  No two of
them share a byte. -/
structure Addresses where
  bootsect : Nat
  totalClusters : Nat
  fatType : Nat
  firstDataSector : Nat
  apart : [(bootsect, 90), (totalClusters, 4), (fatType, 4), (firstDataSector, 4)].Pairwise
    fun v w => v.1 + v.2 ≤ w.1 ∨ w.1 + w.2 ≤ v.1

namespace Addresses

variable (A : Addresses) (bs : Mem) (a v : Nat)

/-- The variables when `FATInitialize` returns: set one by one, and 512 bytes copied to
`bootsect`. -/
def finalMemory : Mem :=
  let m : Mem := memcpy (fun _ => 0) A.totalClusters (leBytes (BootSector.totalClusters bs)) 4
  let m : Mem := memcpy m A.fatType (leBytes (BootSector.fatType bs)) 4
  let m : Mem := memcpy m A.firstDataSector (leBytes (BootSector.firstDataSector bs)) 4
  memcpy m A.bootsect bs 512

/-- What the copy leaves of a variable at `a` that was set to `v`. -/
def left : Nat := le (memcpy (memcpy (fun _ => 0) a (leBytes v) 4) A.bootsect bs 512) a 4

/-- The copy reaches the variable at `a`. -/
def Reaches : Prop := A.bootsect < a + 4 ∧ a < A.bootsect + 512

instance : Decidable (A.Reaches a) := by
  unfold Reaches
  infer_instance

/-- The variable at `a` does not lie in `bootsect`. -/
def Outside : Prop := A.bootsect + 90 ≤ a ∨ a + 4 ≤ A.bootsect

theorem outside : A.Outside A.totalClusters ∧ A.Outside A.fatType ∧
    A.Outside A.firstDataSector := by
  have h := A.apart
  simp only [List.pairwise_cons, List.forall_mem_cons] at h
  exact ⟨h.1.1, h.1.2.1, h.1.2.2.1⟩

variable {A bs a v}

theorem left_of_not_reaches (h : ¬A.Reaches a) (hv : v < 2 ^ 32) : A.left bs a v = v := by
  rw [Reaches] at h
  rw [left, le_memcpy_of_disjoint (by omega), le_memcpy_leBytes]
  exact Nat.mod_eq_of_lt hv

/-- The bytes under the copy come from the sector; those behind it stay. -/
theorem left_of_reaches {k : Nat} (h : A.Reaches a) (hout : A.Outside a) (hv : v < 2 ^ 32)
    (hk : k = min 4 (A.bootsect + 512 - a)) :
    A.left bs a v = le bs (a - A.bootsect) k + 256 ^ k * (v / 256 ^ k) := by
  rw [Reaches] at h
  rw [Outside] at hout
  obtain ⟨j, hj⟩ : ∃ j, k + j = 4 := ⟨4 - k, by omega⟩
  have hlow : le (memcpy (memcpy (fun _ => 0) a (leBytes v) 4) A.bootsect bs 512) a k
      = le bs (a - A.bootsect) k := le_memcpy_of_subset (by omega) (by omega)
  have hhigh : le (memcpy (memcpy (fun _ => 0) a (leBytes v) 4) A.bootsect bs 512) (a + k) j
      = v / 256 ^ k := by
    rcases Nat.eq_zero_or_pos j with rfl | hpos
    · rw [le, show k = 4 by omega]
      exact (Nat.div_eq_of_lt hv).symm
    · have hlt : v / 256 ^ k < 256 ^ j := by
        rw [Nat.div_lt_iff_lt_mul (by positivity), ← pow_add, Nat.add_comm, hj]
        exact hv
      rw [le_memcpy_of_disjoint (by omega), le_memcpy_of_subset (by omega) (by omega),
        Nat.add_sub_cancel_left, le_leBytes, Nat.mod_eq_of_lt hlt]
  have hsplit := le_add (memcpy (memcpy (fun _ => 0) a (leBytes v) 4) A.bootsect bs 512) a k j
  rw [hj, hlow, hhigh] at hsplit
  exact hsplit

/-- Of a small value the copy leaves nothing. -/
theorem left_of_reaches_byte (h : A.Reaches a) (hout : A.Outside a) (hv : v < 256) :
    A.left bs a v = le bs (a - A.bootsect) (min 4 (A.bootsect + 512 - a)) := by
  have hk : 1 ≤ min 4 (A.bootsect + 512 - a) := by
    rw [Reaches] at h
    omega
  have hdiv : v / 256 ^ min 4 (A.bootsect + 512 - a) = 0 :=
    Nat.div_eq_of_lt (Nat.lt_of_lt_of_le hv (Nat.le_self_pow (by omega) 256))
  rw [left_of_reaches h hout (by omega) rfl, hdiv, Nat.mul_zero, Nat.add_zero]

/-- A sector with nothing behind its fields clears the low bytes. -/
theorem left_of_zeros (hzero : ∀ i, 90 ≤ i → i < 512 → bs i = 0) (hout : A.Outside a)
    (hv : v < 2 ^ 32) : ∃ k ≤ 4, A.left bs a v = 256 ^ k * (v / 256 ^ k) := by
  by_cases h : A.Reaches a
  · refine ⟨min 4 (A.bootsect + 512 - a), Nat.min_le_left _ _, ?_⟩
    have hlow : le bs (a - A.bootsect) (min 4 (A.bootsect + 512 - a)) = 0 := by
      rw [← le_zero_mem 0 (min 4 (A.bootsect + 512 - a))]
      rw [Reaches] at h
      rw [Outside] at hout
      exact le_congr fun i hi => hzero _ (by omega) (by omega)
    rw [left_of_reaches h hout hv rfl, hlow, Nat.zero_add]
  · exact ⟨0, Nat.zero_le _, by rw [left_of_not_reaches h hv, pow_zero, Nat.one_mul, Nat.div_one]⟩

variable (A bs)

/-- The three variables do not disturb each other. -/
theorem le_finalMemory :
    le (A.finalMemory bs) A.totalClusters 4
        = A.left bs A.totalClusters (BootSector.totalClusters bs) ∧
      le (A.finalMemory bs) A.fatType 4 = A.left bs A.fatType (BootSector.fatType bs) ∧
      le (A.finalMemory bs) A.firstDataSector 4
        = A.left bs A.firstDataSector (BootSector.firstDataSector bs) := by
  have h := A.apart
  simp only [List.pairwise_cons, List.forall_mem_cons] at h
  obtain ⟨-, ⟨htype, hfirst, -⟩, ⟨hfirst', -⟩, -⟩ := h
  refine ⟨le_congr fun i hi => memcpy_apply_congr ?_, le_congr fun i hi => memcpy_apply_congr ?_,
    le_congr fun i hi => memcpy_apply_congr ?_⟩
  · rw [memcpy_apply_of_notMem (by omega), memcpy_apply_of_notMem (by omega)]
  · rw [memcpy_apply_of_notMem (by omega), memcpy_apply_add hi, memcpy_apply_add hi]
  · rw [memcpy_apply_add hi, memcpy_apply_add hi]

/-- The struct itself is the front of the sector. -/
theorem le_finalMemory_bootsect {o w : Nat} (h : o + w ≤ 512) :
    le (A.finalMemory bs) (A.bootsect + o) w = le bs o w := by
  rw [finalMemory, le_memcpy_of_subset (by omega) (by omega), Nat.add_sub_cancel_left]

end Addresses

/-- The globals that a boot sector gives. -/
def BootSector.globals (A : Addresses) (bs : Mem) : Globals where
  fatType := le (A.finalMemory bs) A.fatType 4
  firstFatSector := reservedSectorCount bs
  firstDataSector := le (A.finalMemory bs) A.firstDataSector 4
  totalClusters := le (A.finalMemory bs) A.totalClusters 4
  bytesPerSector := le (A.finalMemory bs) (A.bootsect + 11) 2
  sectorsPerCluster := le (A.finalMemory bs) (A.bootsect + 13) 1
  rootCluster := le (A.finalMemory bs) (A.bootsect + 44) 4
  firstFatSector_lt := le_lt bs 14 2
  firstDataSector_lt := le_lt _ _ 4
  totalClusters_lt := le_lt _ _ 4
  bytesPerSector_lt := le_lt _ _ 2
  sectorsPerCluster_lt := le_lt _ _ 1
  rootCluster_lt := le_lt _ _ 4

/-! ### Mounting -/

/-- `FATInitialize`: the globals it sets, or the code -1. -/
def fatInitialize (env : Env) (A : Addresses) : Prog State (Except Int Globals) := do
  if (← int13hRead env 0 1) ≠ 0 then return .error (-1)
  let bs ← gets fun s => fun i => s.mem (diskLocation + i)
  if BootSector.sectorsPerCluster bs = 0 then halt .divideByZero
  if BootSector.fatType bs ≠ 32 ∧ BootSector.bytesPerSector bs = 0 then halt .divideByZero
  return .ok (BootSector.globals A bs)

namespace BootSector

variable (A : Addresses) (bs : Mem)

theorem globals_fatType : (globals A bs).fatType = A.left bs A.fatType (fatType bs) :=
  (A.le_finalMemory bs).2.1

theorem globals_firstDataSector :
    (globals A bs).firstDataSector = A.left bs A.firstDataSector (firstDataSector bs) :=
  (A.le_finalMemory bs).2.2

theorem globals_totalClusters :
    (globals A bs).totalClusters = A.left bs A.totalClusters (totalClusters bs) :=
  (A.le_finalMemory bs).1

theorem globals_bytesPerSector : (globals A bs).bytesPerSector = bytesPerSector bs :=
  A.le_finalMemory_bootsect bs (by decide)

theorem globals_sectorsPerCluster : (globals A bs).sectorsPerCluster = sectorsPerCluster bs :=
  A.le_finalMemory_bootsect bs (by decide)

end BootSector

/-- Only the first 512 bytes matter. -/
theorem BootSector.congr (A : Addresses) {bs bs' : Mem} (h : ∀ i < 512, bs i = bs' i) :
    globals A bs = globals A bs' ∧ fatType bs = fatType bs' := by
  have hle : ∀ a w, a + w ≤ 512 → le bs a w = le bs' a w := fun a w haw =>
    le_congr fun i hi => h _ (by omega)
  have hspc : sectorsPerCluster bs = sectorsPerCluster bs' := hle 13 1 (by decide)
  have h16 : totalSectors16 bs = totalSectors16 bs' := hle 19 2 (by decide)
  have h32 : totalSectors32 bs = totalSectors32 bs' := hle 32 4 (by decide)
  have htotal : totalClusters bs = totalClusters bs' := by
    rw [totalClusters, totalClusters, totalSectors, totalSectors, hspc, h16, h32]
  have htype : fatType bs = fatType bs' := by
    rw [fatType, fatType, htotal]
  have hfirst : firstDataSector bs = firstDataSector bs' := by
    rw [firstDataSector, firstDataSector, htype]
    simp only [reservedSectorCount, tableCount, tableSize16, tableSize32, rootDirectorySectors,
      rootEntryCount, bytesPerSector, hle 11 2 (by decide), hle 14 2 (by decide),
      hle 16 1 (by decide), hle 17 2 (by decide), hle 22 2 (by decide), hle 36 4 (by decide)]
  have hvars : A.finalMemory bs = A.finalMemory bs' := by
    rw [Addresses.finalMemory, Addresses.finalMemory, htotal, htype, hfirst]
    exact memcpy_congr h
  refine ⟨?_, htype⟩
  simp only [globals, reservedSectorCount, hvars, hle 14 2 (by decide)]

section

variable {env : Env} {A : Addresses} {s s' : State} {g : Globals}

/-- Once sector 0 is read, its fields decide. -/
theorem fatInitialize_read
    (hr : int13hRead env 0 1 s = (.value 0, s.load partStartLba diskLocation)) :
    fatInitialize env A s =
      if BootSector.sectorsPerCluster (s.disk.sector 0) = 0 ∨
          BootSector.fatType (s.disk.sector 0) ≠ 32 ∧
            BootSector.bytesPerSector (s.disk.sector 0) = 0 then
        (.stop .divideByZero, s.load partStartLba diskLocation)
      else (.value (.ok (BootSector.globals A (s.disk.sector 0))),
        s.load partStartLba diskLocation) := by
  rw [fatInitialize, bind_value hr]
  simp only [ne_eq, not_true_eq_false, if_false, gets_bind]
  generalize hs₁ : s.load partStartLba diskLocation = s₁
  have hread : ∀ i < 512, s₁.mem (diskLocation + i) = s.disk.sector 0 i := fun i hi => by
    rw [← hs₁]
    exact memcpy_apply_add hi
  -- all fields lie in the sector that was read
  obtain ⟨hg, htype⟩ := BootSector.congr A hread
  generalize (fun i => s₁.mem (diskLocation + i)) = bs at hg htype ⊢
  have hspc : BootSector.sectorsPerCluster bs = BootSector.sectorsPerCluster (s.disk.sector 0) := by
    rw [← BootSector.globals_sectorsPerCluster A, hg, BootSector.globals_sectorsPerCluster]
  have hbps : BootSector.bytesPerSector bs = BootSector.bytesPerSector (s.disk.sector 0) := by
    rw [← BootSector.globals_bytesPerSector A, hg, BootSector.globals_bytesPerSector]
  rw [hspc, htype, hbps, hg]
  by_cases h₁ : BootSector.sectorsPerCluster (s.disk.sector 0) = 0
  · simp only [if_pos h₁, if_pos (Or.inl h₁)]
    rfl
  · rw [if_neg h₁]
    split
    next h₂ => exact (if_pos (Or.inr h₂)).symm
    next h₂ => exact (if_neg (not_or.mpr ⟨h₁, h₂⟩)).symm

/-- What is mounted is the boot sector on disk. -/
theorem fatInitialize_eq (h : fatInitialize env A s = (.value (.ok g), s')) :
    g = BootSector.globals A (s.disk.sector 0) ∧ 1 ≤ g.sectorsPerCluster := by
  have hany : int13hRead env 0 1 s = (.value (-1), s.miss) ∨
      int13hRead env 0 1 s = (.value 0, s.load partStartLba diskLocation) :=
    (int13hReadO_any env 0 0 s).imp_right fun hr => hr.trans (int13hRead_reliable s (by decide))
  rcases hany with hr | hr
  · rw [fatInitialize, bind_value hr] at h
    cases h
  · rw [fatInitialize_read hr] at h
    split at h
    · cases h
    next hs =>
      cases h
      refine ⟨rfl, Nat.one_le_iff_ne_zero.mpr ?_⟩
      rw [BootSector.globals_sectorsPerCluster]
      exact (not_or.mp hs).1

/-- Mounting succeeds on the reliable drive. -/
theorem fatInitialize_reliable (A : Addresses) (s : State)
    (hs : BootSector.sectorsPerCluster (s.disk.sector 0) ≠ 0)
    (h32 : BootSector.fatType (s.disk.sector 0) = 32) :
    fatInitialize reliable A s = (.value (.ok (BootSector.globals A (s.disk.sector 0))),
      s.load partStartLba diskLocation) := by
  rw [fatInitialize_read (int13hRead_reliable s (by decide)),
    if_neg (not_or.mpr ⟨hs, fun h₀ => h₀.1 h32⟩)]

end

/-! ### The range check -/

/-- The sectors of a cluster. -/
def Globals.sectorsOf (g : Globals) (c : Nat) : List Nat :=
  List.range' (g.firstDataSector + (c - 2) * g.sectorsPerCluster) g.sectorsPerCluster

/-- The range check accepts exactly the clusters inside a volume of `T` sectors. -/
def RangeExact (g : Globals) (T : Nat) : Prop :=
  ∀ c, g.InRange c ↔ 2 ≤ c ∧ ∀ l ∈ g.sectorsOf c, l < T

section

variable {g : Globals} {T c : Nat}

/-- A cluster lies inside the volume when its number is small enough. -/
theorem sectorsOf_lt_iff (hs : 1 ≤ g.sectorsPerCluster) (hF : g.firstDataSector ≤ T) (hc : 2 ≤ c) :
    (∀ l ∈ g.sectorsOf c, l < T) ↔
      c < (T - g.firstDataSector) / g.sectorsPerCluster + 2 := by
  have hlast : (∀ l ∈ g.sectorsOf c, l < T) ↔
      g.firstDataSector + (c - 2) * g.sectorsPerCluster + g.sectorsPerCluster ≤ T := by
    simp only [Globals.sectorsOf, List.mem_range'_1]
    constructor
    · intro h
      have := h (g.firstDataSector + (c - 2) * g.sectorsPerCluster + (g.sectorsPerCluster - 1))
        (by omega)
      omega
    · intro h l hl
      omega
  have hcount : (c - 2) * g.sectorsPerCluster + g.sectorsPerCluster
      = (c - 1) * g.sectorsPerCluster := by
    rw [← Nat.succ_mul, show (c - 2).succ = c - 1 by omega]
  have hdiv : c - 1 ≤ (T - g.firstDataSector) / g.sectorsPerCluster ↔
      (c - 1) * g.sectorsPerCluster ≤ T - g.firstDataSector := Nat.le_div_iff_mul_le hs
  rw [hlast]
  omega

/-- The check is exact when it counts the clusters inside the volume, from 2 on.  All counts up
to 2 reject every cluster. -/
theorem rangeExact_iff_count (hs : 1 ≤ g.sectorsPerCluster) (hF : g.firstDataSector ≤ T) :
    RangeExact g T ↔
      max g.totalClusters 2 = (T - g.firstDataSector) / g.sectorsPerCluster + 2 := by
  have hin := fun c (hc : 2 ≤ c) => sectorsOf_lt_iff (g := g) hs hF hc
  have hn : 2 ≤ (T - g.firstDataSector) / g.sectorsPerCluster + 2 := Nat.le_add_left _ _
  generalize (T - g.firstDataSector) / g.sectorsPerCluster + 2 = n at hin hn ⊢
  constructor
  · intro h
    -- the smaller of the two bounds would be a cluster that only one side accepts
    have hlast : ∀ c, 2 ≤ c → (c < g.totalClusters ↔ c < n) := fun c hc =>
      (and_iff_right hc).symm.trans ((h c).trans ((and_iff_right hc).trans (hin c hc)))
    have hmax := hlast (max g.totalClusters 2) (Nat.le_max_right _ _)
    have hmin := hlast n hn
    omega
  · intro h c
    refine and_congr_right fun hc => ?_
    rw [hin c hc]
    omega

end

/-- The range check of a mounted volume of `T` sectors is exact if and only if the count that the
copy of the boot sector leaves makes up for the area in front of the data and the two clusters
that have no number. -/
theorem rangeExact_iff {env : Env} {A : Addresses} {s s' : State} {g : Globals} {T : Nat}
    (hrun : fatInitialize env A s = (.value (.ok g), s'))
    (hT : T = BootSector.totalSectors (s.disk.sector 0)) (hF : g.firstDataSector ≤ T) :
    RangeExact g T ↔
      max (A.left (s.disk.sector 0) A.totalClusters (T / g.sectorsPerCluster)) 2
        = (T - g.firstDataSector) / g.sectorsPerCluster + 2 := by
  obtain ⟨hg, hs⟩ := fatInitialize_eq hrun
  have hspc : g.sectorsPerCluster = BootSector.sectorsPerCluster (s.disk.sector 0) := by
    rw [hg, BootSector.globals_sectorsPerCluster]
  have htotal : g.totalClusters
      = A.left (s.disk.sector 0) A.totalClusters (T / g.sectorsPerCluster) := by
    rw [hspc, hT, ← BootSector.totalClusters, ← BootSector.globals_totalClusters, hg]
  rw [rangeExact_iff_count hs hF, htotal]

/-! ### The type of a volume -/

namespace BootSector

variable (bs : Mem)

/-- Sectors of the volume, by the specification: the 16-bit field unless it is 0. -/
def volumeSectors : Nat :=
  if totalSectors16 bs ≠ 0 then totalSectors16 bs else totalSectors32 bs

/-- Sectors of one table, likewise. -/
def tableSize : Nat := if tableSize16 bs ≠ 0 then tableSize16 bs else tableSize32 bs

/-- Sectors in front of the data. -/
def metadataSectors : Nat :=
  reservedSectorCount bs + tableCount bs * tableSize bs + rootDirectorySectors bs

/-- The clusters that the specification counts are those of the data area, none where it
begins behind the end of the volume. -/
def dataClusters : Nat := (volumeSectors bs - metadataSectors bs) / sectorsPerCluster bs

/-- The type of a volume with this many clusters. -/
def typeOf (clusters : Nat) : Nat :=
  if clusters < 4085 then 12 else if clusters < 65525 then 16 else 32

theorem fatType_eq_typeOf : fatType bs = typeOf (totalClusters bs) := rfl

theorem typeOf_eq_iff (m n : Nat) :
    typeOf m = typeOf n ↔ ∀ limit ∈ [4085, 65525], m < limit ↔ n < limit := by
  simp only [List.forall_mem_cons, List.not_mem_nil, false_implies, implies_true, and_true, typeOf]
  split_ifs <;> omega

/-- Counting the sectors in front of the data as well does not pass a limit.  A 16-bit count
below one cluster is taken for none. -/
def CountHarmless : Prop :=
  if 0 < totalSectors16 bs ∧ totalSectors16 bs < sectorsPerCluster bs then
    totalSectors32 bs / sectorsPerCluster bs < 4085
  else ∀ limit ∈ [4085, 65525],
    dataClusters bs < limit → volumeSectors bs / sectorsPerCluster bs < limit

instance : Decidable (CountHarmless bs) := by
  unfold CountHarmless
  infer_instance

variable {bs}

/-- Unless the 16-bit count is below one cluster, both count the same sectors. -/
theorem totalClusters_eq (hs : sectorsPerCluster bs ≠ 0)
    (h : ¬(0 < totalSectors16 bs ∧ totalSectors16 bs < sectorsPerCluster bs)) :
    totalClusters bs = volumeSectors bs / sectorsPerCluster bs := by
  rw [totalClusters, totalSectors, volumeSectors]
  rcases Nat.eq_zero_or_pos (totalSectors16 bs) with h₀ | h₀
  · rw [if_pos (by rw [h₀, Nat.zero_div]), if_neg (not_not.mpr h₀)]
  · have hle : sectorsPerCluster bs ≤ totalSectors16 bs := by omega
    have hpos : 0 < totalSectors16 bs / sectorsPerCluster bs :=
      Nat.div_pos hle (Nat.pos_of_ne_zero hs)
    rw [if_neg hpos.ne', if_pos h₀.ne']

theorem fatType_eq_typeOf_iff (hs : sectorsPerCluster bs ≠ 0) :
    fatType bs = typeOf (dataClusters bs) ↔ CountHarmless bs := by
  rw [fatType_eq_typeOf, typeOf_eq_iff, CountHarmless]
  split
  next h =>
    -- less than a cluster in all, so no data cluster
    have hdata : dataClusters bs = 0 := by
      refine Nat.div_eq_of_lt (Nat.lt_of_le_of_lt (Nat.sub_le _ _) ?_)
      rw [volumeSectors, if_pos h.1.ne']
      exact h.2
    have htotal : totalClusters bs = totalSectors32 bs / sectorsPerCluster bs := by
      rw [totalClusters, totalSectors, if_pos (Nat.div_eq_of_lt h.2)]
    rw [hdata, htotal]
    simp only [List.forall_mem_cons, List.not_mem_nil, false_implies, implies_true, and_true]
    omega
  next h =>
    have hle : dataClusters bs ≤ totalClusters bs := by
      rw [totalClusters_eq hs h]
      exact Nat.div_le_div_right (Nat.sub_le _ _)
    rw [← totalClusters_eq hs h]
    exact forall₂_congr fun limit _ => ⟨Iff.mpr, fun hlt => ⟨hle.trans_lt, hlt⟩⟩

end BootSector

/-- Mounting sets the type that the specification gives the volume. -/
def TypeRight (A : Addresses) (s : State) : Prop :=
  ∃ g s', fatInitialize reliable A s = (.value (.ok g), s') ∧
    g.fatType = BootSector.typeOf (BootSector.dataClusters (s.disk.sector 0))

/-- Where the copy does not reach the type, it is right if and only if no limit lies between the
clusters of the data area and those of the whole volume.  Otherwise the bytes of the boot sector
that fall on it must spell the right type. -/
theorem typeRight_iff {A : Addresses} {s : State}
    (hb : BootSector.bytesPerSector (s.disk.sector 0) ≠ 0)
    (hs : BootSector.sectorsPerCluster (s.disk.sector 0) ≠ 0) :
    TypeRight A s ↔
      if A.Reaches A.fatType then
        le (s.disk.sector 0) (A.fatType - A.bootsect) (min 4 (A.bootsect + 512 - A.fatType))
          = BootSector.typeOf (BootSector.dataClusters (s.disk.sector 0))
      else BootSector.CountHarmless (s.disk.sector 0) := by
  have hrun := fatInitialize_read (A := A) (int13hRead_reliable (n := 0) s (by decide))
  rw [if_neg (not_or.mpr ⟨hs, fun h => hb h.2⟩)] at hrun
  -- the start is determined, so only the type that it leaves is in question
  have htype : TypeRight A s ↔
      A.left (s.disk.sector 0) A.fatType (BootSector.fatType (s.disk.sector 0))
        = BootSector.typeOf (BootSector.dataClusters (s.disk.sector 0)) := by
    rw [← BootSector.globals_fatType]
    constructor
    · rintro ⟨g, s', h, htype⟩
      rw [hrun] at h
      cases h
      exact htype
    · intro htype
      exact ⟨_, _, hrun, htype⟩
  have hlt := BootSector.fatType_lt (s.disk.sector 0)
  rw [htype]
  split
  next h => rw [Addresses.left_of_reaches_byte h A.outside.2.1 hlt]
  next h =>
    rw [Addresses.left_of_not_reaches h (by omega)]
    exact BootSector.fatType_eq_typeOf_iff hs

/-! ### Boot sectors -/

/-- A boot sector with 512-byte sectors and one 32-bit sector count. -/
def sampleBoot (spc reserved tables tableSize total : Nat) : Mem :=
  memcpy (memcpy (memcpy (memcpy (memcpy (memcpy (fun _ => 0) 11 (leBytes 512) 2)
    13 (leBytes spc) 1) 14 (leBytes reserved) 2) 16 (leBytes tables) 1) 32 (leBytes total) 4)
    36 (leBytes tableSize) 4

/-- A drive with this boot sector. -/
def bootState (bs : Mem) : State := ⟨fun l => if l = partStartLba then bs else fun _ => 0,
  fun _ => 0, 0, []⟩

theorem sampleBoot_zeros (spc reserved tables tableSize total : Nat) (i : Nat) (h : 90 ≤ i)
    (_h : i < 512) : sampleBoot spc reserved tables tableSize total i = 0 := by
  unfold sampleBoot
  repeat rw [memcpy_apply_of_notMem (by omega)]

/-- The three variables in front of the struct, out of reach of the copy. -/
def variablesFirst : Addresses := ⟨12, 0, 4, 8, by decide⟩

/-- The three variables behind the struct, the type last. -/
def variablesBehind : Addresses := ⟨0, 92, 100, 96, by decide⟩

theorem sector_bootState (bs : Mem) : (bootState bs).disk.sector 0 = bs := rfl

/-- 65600 clusters of 255 sectors, 579 sectors in front of them. -/
theorem rangeExact_sampleBoot :
    RangeExact (BootSector.globals variablesFirst (sampleBoot 255 32 1 547 16728200)) 16728200 :=
  (rangeExact_iff (fatInitialize_reliable variablesFirst
    (bootState (sampleBoot 255 32 1 547 16728200)) (by decide +kernel) (by decide +kernel))
    (by decide +kernel) (by decide +kernel)).mpr (by decide +kernel)

/-- With one sector per cluster and two tables of 547 sectors no placement of the variables makes
the check exact.  Out of reach of the copy it accepts cluster 69999, which lies behind the end of
the volume. -/
theorem not_rangeExact_sampleBoot :
    BootSector.fatType (sampleBoot 1 32 2 547 70000) = 32 ∧
      BootSector.totalSectors (sampleBoot 1 32 2 547 70000) = 70000 ∧
      ∀ A : Addresses,
        (fatInitialize reliable A (bootState (sampleBoot 1 32 2 547 70000))).1
            = .value (.ok (BootSector.globals A (sampleBoot 1 32 2 547 70000))) ∧
          (BootSector.globals A (sampleBoot 1 32 2 547 70000)).firstDataSector ≤ 70000 ∧
          ¬ RangeExact (BootSector.globals A (sampleBoot 1 32 2 547 70000)) 70000 := by
  have h32 : BootSector.fatType (sampleBoot 1 32 2 547 70000) = 32 := by decide +kernel
  have hT : BootSector.totalSectors (sampleBoot 1 32 2 547 70000) = 70000 := by decide +kernel
  have hF₀ : BootSector.firstDataSector (sampleBoot 1 32 2 547 70000) = 1126 := by decide +kernel
  have hs : BootSector.sectorsPerCluster (sampleBoot 1 32 2 547 70000) = 1 := by decide +kernel
  have hzero := sampleBoot_zeros 1 32 2 547 70000
  refine ⟨h32, hT, fun A => ?_⟩
  have hrun := fatInitialize_reliable A (bootState (sampleBoot 1 32 2 547 70000))
  generalize sampleBoot 1 32 2 547 70000 = bs at *
  rw [sector_bootState] at hrun
  replace hrun := hrun (by rw [hs]; decide) h32
  -- what the copy leaves of 70000 and of 1126
  obtain ⟨k, hk, hN⟩ := Addresses.left_of_zeros (v := 70000) hzero A.outside.1 (by decide)
  obtain ⟨j, hj, hF⟩ := Addresses.left_of_zeros (v := 1126) hzero A.outside.2.2 (by decide)
  rw [← hF₀, ← BootSector.globals_firstDataSector, hF₀] at hF
  have hle : (BootSector.globals A bs).firstDataSector ≤ 70000 := by
    rw [hF]
    exact Nat.le_trans (Nat.mul_div_le _ _) (by decide)
  refine ⟨by rw [hrun], hle, fun h => ?_⟩
  have hcount := (rangeExact_iff hrun hT.symm hle).mp h
  rw [sector_bootState, BootSector.globals_sectorsPerCluster, hs, Nat.div_one, Nat.div_one, hF,
    hN] at hcount
  interval_cases k <;> interval_cases j <;> omega

theorem typeRight_sampleBoot :
    BootSector.metadataSectors (sampleBoot 255 32 1 547 16728200)
        ≤ BootSector.volumeSectors (sampleBoot 255 32 1 547 16728200) ∧
      TypeRight variablesFirst (bootState (sampleBoot 255 32 1 547 16728200)) :=
  ⟨by decide +kernel, (typeRight_iff (by decide +kernel) (by decide +kernel)).mpr
    (by decide +kernel)⟩

/-- A FAT16 volume of 66000 sectors: one reserved sector, two tables of 256 sectors and 512
entries in the root directory, and one sector in a cluster. -/
def fat16Boot : Mem :=
  memcpy (memcpy (sampleBoot 1 1 2 0 66000) 17 (leBytes 512) 2) 22 (leBytes 256) 2

/-- It has 65455 data clusters and is taken for FAT32; where the copy reaches the type, it is
zero in the end. -/
theorem not_typeRight_fat16Boot :
    BootSector.metadataSectors fat16Boot ≤ BootSector.volumeSectors fat16Boot ∧
      BootSector.dataClusters fat16Boot = 65455 ∧
      BootSector.typeOf (BootSector.dataClusters fat16Boot) = 16 ∧
      BootSector.fatType fat16Boot = 32 ∧ ∀ A, ¬TypeRight A (bootState fat16Boot) := by
  have h16 : BootSector.typeOf (BootSector.dataClusters fat16Boot) = 16 := by decide +kernel
  have h32 : BootSector.fatType fat16Boot = 32 := by decide +kernel
  refine ⟨by decide +kernel, by decide +kernel, h16, h32, ?_⟩
  rintro A ⟨g, s', hrun, htype⟩
  have hzero : ∀ i, 90 ≤ i → i < 512 → fat16Boot i = 0 := fun i h h' => by
    rw [fat16Boot, memcpy_apply_of_notMem (by omega), memcpy_apply_of_notMem (by omega)]
    exact sampleBoot_zeros _ _ _ _ _ i h h'
  obtain ⟨k, hk, hleft⟩ := Addresses.left_of_zeros (v := 32) hzero A.outside.2.1 (by decide)
  rw [fatInitialize_reliable A (bootState fat16Boot) (by decide +kernel) h32] at hrun
  cases hrun
  rw [sector_bootState, BootSector.globals_fatType, h32, hleft, h16] at htype
  interval_cases k <;> omega

end PotatoOS
