/-
PotatoOS/Cluster.lean

Clusters of several sectors: `clusterRead` and `clusterWrite` on the reliable
drive.

A transfer moves one block after the other between consecutive sectors and
consecutive windows of memory, around the end of the address space if it must.
So a read is one copy of the bytes of the sectors (`loads_mem`), a write
replaces the sectors by one range of memory (`stores_disk`), and what is said
about clusters does not depend on how many sectors they have.

Main result: `clusterStore_laws`, clusters inside the partition behave as
independent cells that hold what was written last.
-/
import PotatoOS.Table

namespace PotatoOS

open Prog

/-! ### Consecutive sectors -/

/-- The bytes of the sectors from `lba` on. -/
def Disk.bytesFrom (d : Disk) (lba : Nat) : Mem := fun i => d (lba + i / 512) (i % 512)

/-- The bytes of a memory of 2^32 bytes from an address on. -/
def Mem.around (m : Mem) (a : Nat) : Mem := fun i => m ((a + i) % 2 ^ 32)

/-- Replace `n` sectors by the bytes of `src`. -/
def writeSectors (d : Disk) (lba n : Nat) (src : Mem) : Disk := fun l =>
  if lba ≤ l ∧ l < lba + n then memcpy (d l) 0 (fun i => src (512 * (l - lba) + i)) 512 else d l

section

variable {d : Disk} {s : State} {lba buffer n l : Nat} {src : Mem}

theorem bytesFrom_succ (d : Disk) (lba : Nat) :
    d.bytesFrom (lba + 1) = fun i => d.bytesFrom lba (512 + i) := by
  funext i
  show d (lba + 1 + i / 512) (i % 512) = d (lba + (512 + i) / 512) ((512 + i) % 512)
  rw [Nat.add_div_left _ (by decide), Nat.add_mod_left, Nat.add_assoc, Nat.add_comm 1]

theorem writeSectors_other (h : l < lba ∨ lba + n ≤ l) : writeSectors d lba n src l = d l := by
  refine if_neg ?_
  omega

theorem bytesFrom_writeSectors {i : Nat} (hi : i < 512 * n) :
    (writeSectors d lba n src).bytesFrom lba i = src i := by
  have hmod := Nat.mod_lt i (show 512 > 0 by decide)
  show writeSectors d lba n src (lba + i / 512) (i % 512) = src i
  rw [writeSectors, if_pos (by omega), memcpy_apply_of_mem (Nat.zero_le _) (by omega)]
  congr 1
  omega

/-- A read of several blocks is one copy. -/
theorem loads_mem (s : State) (lba : Nat) (ha : 512 ∣ buffer) (hb : buffer < 2 ^ 32)
    (hn : 512 * n ≤ 2 ^ 32) :
    (s.loads lba buffer n).mem = memcpy32 s.mem buffer (s.disk.bytesFrom lba) (512 * n) := by
  induction n generalizing s lba buffer with
  | zero =>
      funext a
      exact (memcpy32_apply_of_notMem (.inr (Nat.zero_le _))).symm
  | succ n ih =>
      -- the first block does not cross the end, since it is aligned
      have hfirst : memcpy s.mem buffer (s.disk lba) 512
          = memcpy32 s.mem buffer (s.disk.bytesFrom lba) 512 := by
        rw [memcpy32_eq (by omega)]
        refine memcpy_congr fun i hi => ?_
        show s.disk lba i = s.disk (lba + i / 512) (i % 512)
        rw [Nat.div_eq_of_lt hi, Nat.mod_eq_of_lt hi, Nat.add_zero]
      have hrest := ih (s.load lba buffer) (lba + 1)
        (show 512 ∣ (buffer + 512) % 2 ^ 32 by omega) (Nat.mod_lt _ (by decide)) (by omega)
      rw [State.loads, hrest, memcpy32_mod, State.load_disk, State.load_mem, hfirst, bytesFrom_succ,
        memcpy32_append _ _ _ (by omega), Nat.mul_succ, Nat.add_comm 512]

theorem stores_mem (s : State) (lba buffer n : Nat) : (s.stores lba buffer n).mem = s.mem := by
  induction n generalizing s lba buffer with
  | zero => rfl
  | succ n ih =>
      rw [State.stores, ih]
      rfl

/-- A write of several blocks replaces the sectors. -/
theorem stores_disk (s : State) (lba : Nat) (ha : 512 ∣ buffer) (hb : buffer < 2 ^ 32) :
    (s.stores lba buffer n).disk = writeSectors s.disk lba n (s.mem.around buffer) := by
  induction n generalizing s lba buffer with
  | zero =>
      funext l
      exact (writeSectors_other (by omega)).symm
  | succ n ih =>
      have hrest := ih (s.store lba buffer) (lba + 1)
        (show 512 ∣ (buffer + 512) % 2 ^ 32 by omega) (Nat.mod_lt _ (by decide))
      rw [State.stores, hrest]
      funext l
      by_cases hl : l = lba
      · -- the first block
        subst hl
        rw [writeSectors_other (by omega), writeSectors, if_pos (by omega), State.store_disk,
          writeSector_self, Nat.sub_self]
        refine memcpy_congr fun i hi => ?_
        show s.mem (buffer + i) = s.mem ((buffer + (512 * 0 + i)) % 2 ^ 32)
        congr 1
        omega
      · have hstore : (s.store lba buffer).disk l = s.disk l := writeSector_other _ _ hl
        by_cases hlt : lba + 1 ≤ l ∧ l < lba + 1 + n
        · rw [writeSectors, writeSectors, if_pos hlt, if_pos (by omega), hstore]
          refine memcpy_congr fun i _ => ?_
          have hi : ((buffer + 512) % 2 ^ 32 + (512 * (l - (lba + 1)) + i)) % 2 ^ 32
              = (buffer + (512 * (l - lba) + i)) % 2 ^ 32 := by omega
          exact congrArg s.mem hi
        · rw [writeSectors_other (by omega), writeSectors_other (by omega), hstore]

end

/-! ### Transfers of clusters -/

namespace Globals

variable (g : Globals) (c off : Nat)

/-- The partition holds all sectors of the cluster, as the driver checks it. -/
def OnPartition : Prop := (g.startSect c + g.sectorsPerCluster) % 2 ^ 32 ≤ partLength

/-- The cluster passes all checks of a transfer. -/
def Transfers : Prop := g.InRange c ∧ g.OnPartition c ∧ g.sectorsPerCluster ≤ 0x7F

/-- The first sector of a cluster, as the drive gets it. -/
def lba : Nat := lbaOf (programLba ((g.startSect c + partStartLba) % 2 ^ 32))

/-- The address of a cluster offset in the transfer buffer. -/
def bufferAt : Nat := (diskLocation + off * g.sectorsPerCluster * 512) % 2 ^ 32

instance : Decidable (g.OnPartition c) := inferInstanceAs (Decidable (_ ≤ _))

instance : Decidable (g.Transfers c) := inferInstanceAs (Decidable (_ ∧ _))

@[simp] theorem bufferAt_zero : g.bufferAt 0 = diskLocation := by simp [bufferAt, diskLocation]

theorem bufferAt_lt : g.bufferAt off < 2 ^ 32 := Nat.mod_lt _ (by decide)

theorem dvd_bufferAt : 512 ∣ g.bufferAt off := by
  rw [bufferAt, diskLocation]
  omega

end Globals

/-- The bytes of a cluster. -/
def clusterBytes (g : Globals) (d : Disk) (c : Nat) : Mem := d.bytesFrom (g.lba c)

/-- The state after a cluster was read to a buffer offset. -/
def State.loadCluster (s : State) (g : Globals) (c off : Nat) : State :=
  s.loads (g.lba c) (g.bufferAt off) g.sectorsPerCluster

/-- The state after contents were copied to a buffer offset. -/
def State.fill (s : State) (g : Globals) (contents : Mem) (n off : Nat) : State :=
  { s with mem := memcpy32 s.mem (g.bufferAt off) contents n }

/-- The state after a cluster was written from a buffer offset. -/
def State.storeCluster (s : State) (g : Globals) (c off : Nat) : State :=
  s.stores (g.lba c) (g.bufferAt off) g.sectorsPerCluster

section

variable {g : Globals} {c off n : Nat} {s : State} {contents : Mem}

theorem loadCluster_disk (s : State) (g : Globals) (c off : Nat) :
    (s.loadCluster g c off).disk = s.disk := State.loads_disk _ _ _ _

theorem loadCluster_mem (s : State) (c off : Nat) (hspc : g.sectorsPerCluster ≤ 0x7F) :
    (s.loadCluster g c off).mem = memcpy32 s.mem (g.bufferAt off) (clusterBytes g s.disk c)
      (512 * g.sectorsPerCluster) :=
  loads_mem s _ (g.dvd_bufferAt off) (g.bufferAt_lt off) (by omega)

/-- A read to the start of the buffer does not go around. -/
theorem loadCluster_mem_zero (s : State) (c : Nat) (h : g.sectorsPerCluster ≤ 0x7F) :
    (s.loadCluster g c 0).mem
      = memcpy s.mem diskLocation (clusterBytes g s.disk c) (512 * g.sectorsPerCluster) := by
  rw [loadCluster_mem s c 0 h, Globals.bufferAt_zero, memcpy32_eq (by rw [diskLocation]; omega)]

theorem storeCluster_mem (s : State) (g : Globals) (c off : Nat) :
    (s.storeCluster g c off).mem = s.mem := stores_mem _ _ _ _

theorem storeCluster_disk (s : State) (g : Globals) (c off : Nat) :
    (s.storeCluster g c off).disk = writeSectors s.disk (g.lba c) g.sectorsPerCluster
      (s.mem.around (g.bufferAt off)) :=
  stores_disk s _ (g.dvd_bufferAt off) (g.bufferAt_lt off)

/-- A cluster read on the reliable drive. -/
theorem clusterRead_run (h : g.bytesPerSector = 512) :
    clusterRead reliable g c off s =
      if g.Transfers c then (.value 0, s.loadCluster g c off) else (.value (-1), s) := by
  by_cases hc : g.InRange c
  swap
  · rw [if_neg fun ht => hc ht.1, clusterRead, if_pos]
    · rfl
    · rw [Globals.InRange] at hc
      omega
  by_cases hp : g.OnPartition c
  swap
  · rw [if_neg fun ht => hp ht.2.1, clusterRead, if_neg (not_outOfRange hc), int13hReadO,
      if_pos (Nat.not_le.mp hp)]
    rfl
  by_cases hs : g.sectorsPerCluster ≤ 0x7F
  swap
  · rw [if_neg fun ht => hs ht.2.2, clusterRead, if_neg (not_outOfRange hc), int13hReadO,
      if_neg (Nat.not_lt.mpr hp), if_pos (Nat.not_le.mp hs)]
    rfl
  rw [if_pos ⟨hc, hp, hs⟩, clusterRead, if_neg (not_outOfRange hc), int13hReadO,
    if_neg (Nat.not_lt.mpr hp), if_neg (Nat.not_lt.mpr hs), h, Nat.add_mod_mod]
  exact bind_value (readBlocks_reliable _ _ _ _)

/-- A cluster write on the reliable drive. -/
theorem clusterWrite_run (h : g.bytesPerSector = 512) :
    clusterWrite reliable g contents n off c s =
      if g.Transfers c then (.value 0, (s.fill g contents n off).storeCluster g c off)
      else if g.InRange c then (.value (-1), s.fill g contents n off)
      else (.value (-1), s) := by
  by_cases hc : g.InRange c
  swap
  · rw [if_neg fun ht => hc ht.1, if_neg hc, clusterWrite, if_pos]
    · rfl
    · rw [Globals.InRange] at hc
      omega
  -- the contents are copied before the driver makes its checks
  have hfill : { s with mem := memcpy32 s.mem (diskLocation
      + off * g.sectorsPerCluster * g.bytesPerSector % 2 ^ 32) contents n }
        = s.fill g contents n off := by
    rw [State.fill, Globals.bufferAt, memcpy32_mod, ← memcpy32_mod, h, Nat.add_mod_mod,
      memcpy32_mod]
  rw [clusterWrite, if_neg (not_outOfRange hc)]
  simp only [modify_bind, hfill]
  by_cases hp : g.OnPartition c
  swap
  · rw [if_neg fun ht => hp ht.2.1, if_pos hc, int13hWriteO, if_pos (Nat.not_le.mp hp)]
    rfl
  by_cases hs : g.sectorsPerCluster ≤ 0x7F
  swap
  · rw [if_neg fun ht => hs ht.2.2, if_pos hc, int13hWriteO, if_neg (Nat.not_lt.mpr hp),
      if_pos (Nat.not_le.mp hs)]
    rfl
  rw [if_pos ⟨hc, hp, hs⟩, int13hWriteO, if_neg (Nat.not_lt.mpr hp),
    if_neg (Nat.not_lt.mpr hs), h, Nat.add_mod_mod]
  exact bind_value (writeBlocks_reliable _ _ _ _)

end

/-! ### Clusters as independent cells -/

/-- A volume of `T` sectors whose clusters, counted from the first data sector
on, do not reach over the end of the partition. -/
structure Globals.Inside (g : Globals) (T : Nat) : Prop extends Sectors512 g where
  total : g.totalClusters = T / g.sectorsPerCluster
  fits : g.firstDataSector + T ≤ partLength

namespace Globals.Inside

variable {g : Globals} {T c d l : Nat}

theorem startSect_eq (h : g.Inside T) (hc : g.InRange c) :
    g.startSect c = g.firstDataSector + (c - 2) * g.sectorsPerCluster ∧
      g.startSect c + g.sectorsPerCluster ≤ partLength := by
  obtain ⟨h₁, h₂⟩ := hc
  have hpos := h.one_le
  have hfits := h.fits
  have hend : (c - 2) * g.sectorsPerCluster + g.sectorsPerCluster ≤ T := by
    rw [h.total] at h₂
    have := (Nat.le_div_iff_mul_le hpos).mp (show c - 2 + 1 ≤ T / g.sectorsPerCluster by omega)
    rwa [Nat.succ_mul] at this
  have hlt : (c - 2) * g.sectorsPerCluster + g.firstDataSector < 2 ^ 32 := by
    rw [partLength] at hfits
    omega
  rw [startSect, Nat.mod_eq_of_lt hlt]
  exact ⟨Nat.add_comm _ _, by omega⟩

theorem transfers (h : g.Inside T) (hc : g.InRange c) : g.Transfers c := by
  have hend := (h.startSect_eq hc).2
  refine ⟨hc, ?_, h.le⟩
  rw [OnPartition, Nat.mod_eq_of_lt]
  · exact hend
  · exact Nat.lt_of_le_of_lt hend (by decide)

theorem lba_eq (h : g.Inside T) (hc : g.InRange c) :
    g.lba c = partStartLba + (g.firstDataSector + (c - 2) * g.sectorsPerCluster) := by
  obtain ⟨hstart, hend⟩ := h.startSect_eq hc
  rw [lba, lbaOf_rebased (by omega), hstart]

/-- The sectors of two clusters lie apart. -/
theorem lba_disjoint (h : g.Inside T) (hc : g.InRange c) (hd : g.InRange d) (hne : d ≠ c) :
    g.lba d + g.sectorsPerCluster ≤ g.lba c ∨ g.lba c + g.sectorsPerCluster ≤ g.lba d := by
  have hc₂ := hc.1
  have hd₂ := hd.1
  have hstep : ∀ {a b : Nat}, a < b →
      a * g.sectorsPerCluster + g.sectorsPerCluster ≤ b * g.sectorsPerCluster := by
    intro a b hab
    rw [← Nat.succ_mul]
    exact Nat.mul_le_mul_right _ hab
  rw [h.lba_eq hc, h.lba_eq hd]
  rcases Nat.lt_or_gt_of_ne hne with hlt | hgt
  · have := hstep (show d - 2 < c - 2 by omega)
    exact .inl (by omega)
  · have := hstep (show c - 2 < d - 2 by omega)
    exact .inr (by omega)

end Globals.Inside

section

variable {g : Globals} {T c n : Nat} {contents : Mem}

/-- What is filled in is what lies at the offset. -/
theorem fill_around (s : State) (hn : n ≤ 2 ^ 32) (off : Nat) {i : Nat} (hi : i < n) :
    (s.fill g contents n off).mem.around (g.bufferAt off) i = contents i :=
  memcpy32_apply_add hi hn

/-- Reading a cluster puts its bytes at the offset. -/
theorem loadCluster_around (s : State) (hspc : g.sectorsPerCluster ≤ 0x7F) (off : Nat) {i : Nat}
    (hi : i < 512 * g.sectorsPerCluster) :
    (s.loadCluster g c off).mem.around (g.bufferAt off) i = clusterBytes g s.disk c i := by
  rw [loadCluster_mem s c off hspc]
  exact memcpy32_apply_add hi (by omega)

/-- The laws of the cluster store: a write is read back at any offset, no other
cluster changes, and nothing in front of the data area does. -/
theorem clusterStore_laws (h : g.Inside T) (hc : g.InRange c) (contents : Mem)
    (hn : n ≤ 512 * g.sectorsPerCluster) (off : Nat) (s : State) :
    ∃ s₁, clusterWrite reliable g contents n off c s = (.value 0, s₁) ∧
      (∀ off₂, ∃ s₂, clusterRead reliable g c off₂ s₁ = (.value 0, s₂) ∧
        ∀ i < n, s₂.mem ((diskLocation + off₂ * g.sectorsPerCluster * 512 + i) % 2 ^ 32)
          = contents i) ∧
      (∀ d, g.InRange d → d ≠ c → ∀ off₂, ∃ s₂ s₂',
        clusterRead reliable g d off₂ s₁ = (.value 0, s₂) ∧
        clusterRead reliable g d off₂ s = (.value 0, s₂') ∧
        ∀ i < 512 * g.sectorsPerCluster,
          s₂.mem ((diskLocation + off₂ * g.sectorsPerCluster * 512 + i) % 2 ^ 32)
            = s₂'.mem ((diskLocation + off₂ * g.sectorsPerCluster * 512 + i) % 2 ^ 32)) ∧
      ∀ l < g.firstDataSector, s₁.disk.sector l = s.disk.sector l := by
  have hle := h.le
  have haround : ∀ (s' : State) d off₂ i, i < 512 * g.sectorsPerCluster →
      (s'.loadCluster g d off₂).mem
          ((diskLocation + off₂ * g.sectorsPerCluster * 512 + i) % 2 ^ 32)
        = clusterBytes g s'.disk d i := by
    intro s' d off₂ i hi
    rw [← loadCluster_around s' hle off₂ hi, Mem.around, Globals.bufferAt, Nat.mod_add_mod]
  let s₁ := (s.fill g contents n off).storeCluster g c off
  have hdisk : s₁.disk = writeSectors s.disk (g.lba c) g.sectorsPerCluster
      ((s.fill g contents n off).mem.around (g.bufferAt off)) := storeCluster_disk _ g c off
  have hread : ∀ {d : Nat}, g.InRange d → ∀ off₂ s',
      clusterRead reliable g d off₂ s' = (.value 0, s'.loadCluster g d off₂) := by
    intro d hd off₂ s'
    rw [clusterRead_run h.bytesPerSector, if_pos (h.transfers hd)]
  refine ⟨s₁, ?_, ?_, ?_, ?_⟩
  · rw [clusterWrite_run h.bytesPerSector, if_pos (h.transfers hc)]
  · -- the same cluster
    intro off₂
    refine ⟨_, hread hc off₂ s₁, fun i hi => ?_⟩
    rw [haround s₁ c off₂ i (by omega), clusterBytes, hdisk, bytesFrom_writeSectors (by omega),
      fill_around s (by omega) off hi]
  · -- another cluster
    intro d hd hne off₂
    refine ⟨_, _, hread hd off₂ s₁, hread hd off₂ s, fun i hi => ?_⟩
    have hapart := h.lba_disjoint hc hd hne
    rw [haround s₁ d off₂ i hi, haround s d off₂ i hi]
    show s₁.disk (g.lba d + i / 512) (i % 512) = s.disk (g.lba d + i / 512) (i % 512)
    rw [hdisk, writeSectors_other (by omega)]
  · -- the boot sector and the tables
    intro l hl
    show s₁.disk (partStartLba + l) = s.disk (partStartLba + l)
    rw [hdisk, writeSectors_other]
    left
    rw [h.lba_eq hc]
    omega

end

theorem twoSectorVolume_inside : twoSectorVolume.Inside 140001 where
  toSectors512 := twoSectorVolume_sectors512
  total := by decide
  fits := by decide

/-- 700 bytes through the last kilobyte of the memory, read back elsewhere. -/
theorem clusterStore_twoSectorVolume :
    ∃ s₁, clusterWrite reliable twoSectorVolume (fun i => UInt8.ofNat i) 700 (2 ^ 22 - 257) 5
        blankState = (.value 0, s₁) ∧
      ∃ s₂, clusterRead reliable twoSectorVolume 5 9 s₁ = (.value 0, s₂) ∧
        s₂.mem ((diskLocation + 9 * 2 * 512 + 699) % 2 ^ 32) = 187 := by
  obtain ⟨s₁, hw, hback, -, -⟩ := clusterStore_laws (n := 700) twoSectorVolume_inside
    (show twoSectorVolume.InRange 5 by decide) (fun i => UInt8.ofNat i) (by decide)
    (2 ^ 22 - 257) blankState
  obtain ⟨s₂, hr, hbytes⟩ := hback 9
  exact ⟨s₁, hw, s₂, hr, hbytes 699 (by decide)⟩

end PotatoOS
