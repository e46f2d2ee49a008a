/-
PotatoOS/Image.lean

FAT32 volumes with one sector per cluster, as a table and a data area.

`OneSector` says what such a volume is: its cluster numbers lie below the mark
for bad clusters, and its sector numbers do not wrap around.  `IsVolume` adds
that the table lies before the data area.  Under these the disk is a pair of
independent stores, `fatValue` by cluster and `data` by cluster, with the update
operations `setFat` and `setData`; the laws below say that an update of one
cluster in one store changes nothing else.

`total_clusters` counts all sectors of the volume, so the last clusters in range
can lie behind the end of the partition, where every transfer is refused.  That
a cluster is on the partition is asked of single clusters, not of the volume.

The driver's operations act on the two stores and nothing else: `clusterRead_eq`,
`clusterWrite_spec`, `fatRead_eq`, `fatWrite_spec` and `allocate_found` are
their specifications on the reliable drive, without side conditions on
offsets.
-/
import PotatoOS.Alloc
import PotatoOS.Chain
import PotatoOS.Cluster

namespace PotatoOS

open Prog

namespace Globals

/-- A FAT32 volume with one 512-byte sector per cluster.  Cluster numbers are
those that FAT32 has, and sector numbers fit in 32 bits. -/
structure OneSector (g : Globals) : Prop extends IsFat32 g where
  one : g.sectorsPerCluster = 1
  numbered : g.totalClusters ≤ badCluster32
  addressed : g.firstDataSector + g.totalClusters ≤ 2 ^ 32

/-- Such a volume, whose table has the entries of all its clusters before the
data area. -/
structure IsVolume (g : Globals) : Prop extends OneSector g where
  table : g.firstFatSector + (g.totalClusters + 127) / 128 ≤ g.firstDataSector

namespace OneSector

variable {g : Globals} {c c' : Nat}

theorem clusterSize_eq_512 (h : g.OneSector) : g.clusterSize = 512 := by
  rw [h.toBlocks512.clusterSize_eq, h.one]

theorem startSect_eq (h : g.OneSector) (hc : g.InRange c) :
    g.startSect c = c - 2 + g.firstDataSector := by
  obtain ⟨h₁, h₂⟩ := hc
  have h₃ := h.addressed
  rw [startSect, h.one]
  omega

/-- The one sector of the cluster lies on the partition. -/
theorem startSect_lt (h : g.OneSector) (hc : g.InRange c) (hp : g.OnPartition c) :
    g.startSect c + 1 ≤ partLength := by
  obtain ⟨h₁, h₂⟩ := hc
  have h₃ := h.addressed
  rw [OnPartition, h.one, h.startSect_eq ⟨h₁, h₂⟩] at hp
  rw [h.startSect_eq ⟨h₁, h₂⟩]
  omega

theorem fatOffset_eq (h : g.OneSector) (hc : g.InRange c) : g.fatOffset 4 c = 4 * c := by
  obtain ⟨h₁, h₂⟩ := hc
  have h₃ := h.numbered
  rw [badCluster32] at h₃
  rw [fatOffset]
  omega

theorem fatSector_eq (h : g.OneSector) (hc : g.InRange c) :
    g.fatSector 4 c = g.firstFatSector + c / 128 := by
  rw [(h.toBlocks512.fatSector_lt 4 c).1, h.fatOffset_eq hc, h.clusterSize_eq_512]
  omega

theorem lt_of_inRange (h : g.OneSector) (hc : g.InRange c) : c < badCluster32 :=
  Nat.lt_of_lt_of_le hc.2 h.numbered

theorem inSector (h : g.OneSector) (c : Nat) : g.InSector 4 c :=
  h.toBlocks512.inSector_of_one h.one 4 c

theorem entOffset_lt (h : g.OneSector) (c : Nat) : g.entOffset 4 c < fatTableSize :=
  Nat.lt_trans (h.inSector c) (by decide)

end OneSector

/-- No sector is both a table sector and a data sector. -/
theorem IsVolume.fatSector_ne {g : Globals} (h : g.IsVolume) {c c' : Nat} (hc : g.InRange c)
    (hc' : g.InRange c') : g.fatSector 4 c ≠ g.startSect c' := by
  have h₁ := h.table
  obtain ⟨h₂, h₃⟩ := hc
  rw [h.fatSector_eq ⟨h₂, h₃⟩, h.startSect_eq hc']
  omega

end Globals

/-! ### The two stores -/

/-- The sector of a cluster. -/
def data (g : Globals) (d : Disk) (c : Nat) : Mem := d.sector (g.startSect c)

/-- The disk after the sector of a cluster is written. -/
def setData (g : Globals) (d : Disk) (c : Nat) (src : Mem) : Disk :=
  writeSector d (partStartLba + g.startSect c) src

section

variable {g : Globals} {c c' v : Nat} {d : Disk} {src : Mem}

theorem data_setData_self (d : Disk) (c : Nat) (src : Mem) {i : Nat} (hi : i < 512) :
    data g (setData g d c src) c i = src i := by
  rw [data, setData, Disk.sector, writeSector_self, memcpy_apply_of_mem (Nat.zero_le _) (by omega),
    Nat.sub_zero]

theorem data_setData_other (h : g.OneSector) (hc : g.InRange c) (hc' : g.InRange c')
    (hne : c' ≠ c) : data g (setData g d c src) c' = data g d c' := by
  rw [data, setData, Disk.sector, writeSector_other]
  · rfl
  · have h₁ := hc.1
    have h₂ := hc'.1
    rw [h.startSect_eq hc, h.startSect_eq hc']
    omega

theorem data_setFat (h : g.IsVolume) (hc : g.InRange c) (hc' : g.InRange c') :
    data g (setFat g d c v) c' = data g d c' := by
  have := h.fatSector_ne hc hc'
  rw [data, setFat, setEntry, Disk.sector, writeSector_other]
  · rfl
  · omega

theorem fatValue_setData (h : g.IsVolume) (hc : g.InRange c) (hc' : g.InRange c') :
    fatValue g (setData g d c src) c' = fatValue g d c' := by
  have := h.fatSector_ne hc' hc
  have hs : (setData g d c src).sector (g.fatSector 4 c') = d.sector (g.fatSector 4 c') := by
    rw [setData, Disk.sector, writeSector_other]
    · rfl
    · omega
  rw [fatValue, fatValue, entry, entry, hs]

theorem fatValue_setFat_same (h : g.OneSector) (hv : v < 2 ^ 28) :
    fatValue g (setFat g d c v) c = v := by
  rw [fatValue_setFat_self h.toIsFat32 (h.inSector c), Nat.mod_eq_of_lt hv]

theorem fatValue_setFat_ne (h : g.OneSector) (hc : g.InRange c) (hc' : g.InRange c')
    (hne : c' ≠ c) : fatValue g (setFat g d c v) c' = fatValue g d c' := by
  refine fatValue_setFat_other h.toIsFat32 ?_
  rw [h.fatOffset_eq hc, h.fatOffset_eq hc']
  omega

end

/-! ### The driver on the two stores -/

section

variable {g : Globals} {c v x off : Nat} {s : State}

/-- The state after the sector of a cluster was read to a buffer offset. -/
def State.loadData (s : State) (g : Globals) (c off : Nat) : State :=
  s.load (partStartLba + g.startSect c) ((diskLocation + off * 512 % 2 ^ 32) % 2 ^ 32)

theorem clusterRead_eq (h : g.OneSector) (hc : g.InRange c) (hp : g.OnPartition c) :
    clusterRead reliable g c off s = (.value 0, s.loadData g c off) := by
  have hr := int13hReadO_reliable s (off * 1 * 512 % 2 ^ 32) (h.startSect_lt hc hp) (by decide)
  rw [clusterRead, if_neg (not_outOfRange hc), h.one, h.bytesPerSector, bind_value hr,
    Nat.mul_one]
  rfl

theorem clusterRead_outOfRange (env : Env) (hc : ¬ g.InRange c) :
    clusterRead env g c off s = (.value (-1), s) := by
  rw [Globals.InRange] at hc
  rw [clusterRead, if_pos (by omega)]
  rfl

/-- A read behind the end of the partition is refused. -/
theorem clusterRead_offPartition (h : g.OneSector) (hp : ¬ g.OnPartition c) :
    clusterRead reliable g c off s = (.value (-1), s) := by
  rw [clusterRead_run h.bytesPerSector, if_neg fun ht => hp ht.2.1]

/-- A sector is written through the buffer at `off`. -/
theorem clusterWrite_spec (h : g.OneSector) (hc : g.InRange c) (hp : g.OnPartition c)
    (contents : Mem) (size off : Nat) (hoff : off ≤ 1) :
    ∃ s', clusterWrite reliable g contents size off c s = (.value 0, s') ∧
      s'.mem = memcpy32 s.mem (diskLocation + off * 512) contents size ∧
      s'.disk = setData g s.disk c fun i => s'.mem (diskLocation + off * 512 + i) := by
  have hb : off * 1 * 512 % 2 ^ 32 = off * 512 := by omega
  have hl : (diskLocation + off * 512) % 2 ^ 32 = diskLocation + off * 512 :=
    Nat.mod_eq_of_lt (by rw [diskLocation]; omega)
  let s₁ : State := { s with mem := memcpy32 s.mem (diskLocation + off * 512) contents size }
  have hw := int13hWriteO_reliable s₁ (off * 512) (h.startSect_lt hc hp) (by decide)
  refine ⟨s₁.store (partStartLba + g.startSect c) (diskLocation + off * 512), ?_, rfl, rfl⟩
  rw [clusterWrite, if_neg (not_outOfRange hc), h.one, h.bytesPerSector]
  simp only [hb, modify_bind]
  rw [bind_value hw, hl]
  rfl

/-- A write behind the end of the partition is refused. -/
theorem clusterWrite_offPartition (h : g.OneSector) (hp : ¬ g.OnPartition c) (contents : Mem)
    (size off : Nat) :
    ∃ s', clusterWrite reliable g contents size off c s = (.value (-1), s') ∧
      s'.disk = s.disk := by
  rw [clusterWrite_run h.bytesPerSector, if_neg fun ht => hp ht.2.1]
  split
  · exact ⟨_, rfl, rfl⟩
  · exact ⟨s, rfl, rfl⟩

theorem fatRead_eq (h : g.OneSector) (hc : g.InRange c) :
    fatRead reliable g c s = (.value (fatValue g s.disk c : Nat), s.loadFat g 4 c) :=
  fatRead_fat32 h.toIsFat32 hc (h.entOffset_lt c)

theorem fatWrite_spec (h : g.OneSector) (hc : g.InRange c) (v : Nat) :
    ∃ s', fatWrite reliable g c v s = (.value 0, s') ∧ s'.disk = setFat g s.disk c v ∧
      s'.mem = memcpy s.mem diskLocation (s'.disk.sector (g.fatSector 4 c)) 512 :=
  fatWrite_fat32 h.toIsFat32 hc (h.entOffset_lt c)

theorem allocate_found (h : g.OneSector) (hx : IsFirstFree g s.disk x) :
    ∃ s', allocateFreeFAT reliable g s = (.value x, s') ∧
      s'.disk = setFat g s.disk x endCluster32 ∧
      s'.mem = memcpy s.mem diskLocation (s'.disk.sector (g.fatSector 4 x)) 512 :=
  allocateFreeFAT_found h.toIsFat32 hx fun c _ _ => h.entOffset_lt c

theorem allocate_full (h : g.OneSector) (hno : NoFree g s.disk) :
    ∃ s', allocateFreeFAT reliable g s = (.value badCluster32, s') ∧ s'.disk = s.disk :=
  allocateFreeFAT_full h.toIsFat32 hno fun c _ => h.entOffset_lt c

/-- A cluster of a volume is never mistaken for the failure signal. -/
theorem not_isBadMark (h : g.OneSector) (hc : g.InRange c) : ¬ g.isBadMark c := by
  rw [h.isBadMark_iff]
  exact (h.lt_of_inRange hc).ne

end

/-! ### Chains -/

/-- The successor of a cluster: nothing behind an end mark. -/
def nextCluster (g : Globals) (d : Disk) (c : Nat) : Option Nat :=
  if endCluster32 ≤ fatValue g d c then none else some (fatValue g d c)

theorem nextCluster_eq_none_iff {g : Globals} {d : Disk} {c : Nat} :
    nextCluster g d c = none ↔ endCluster32 ≤ fatValue g d c := by
  rw [nextCluster]
  split
  next h => exact iff_of_true rfl h
  next h => exact iff_of_false (Option.some_ne_none _) h

theorem nextCluster_eq_some_iff {g : Globals} {d : Disk} {c b : Nat} :
    nextCluster g d c = some b ↔ fatValue g d c < endCluster32 ∧ fatValue g d c = b := by
  rw [nextCluster]
  split
  next h => exact iff_of_false (Option.some_ne_none _).symm fun h' => absurd h (Nat.not_le.mpr h'.1)
  next h => rw [Option.some.injEq, and_iff_right (Nat.not_le.mp h)]

/-- The clusters of `l`, in this order, are the chain that starts at `c`. -/
structure IsChain (g : Globals) (d : Disk) (c : Nat) (l : List Nat) : Prop where
  chain : ChainFrom (nextCluster g d) c l
  inRange : ∀ a ∈ l, g.InRange a

namespace IsChain

variable {g : Globals} {d d' : Disk} {c v : Nat} {l : List Nat}

theorem head_inRange (h : IsChain g d c l) : g.InRange c := h.inRange c h.chain.head_mem

theorem head_eq {a : Nat} (h : IsChain g d c (a :: l)) : a = c := h.chain.head_eq

/-- The rest of a chain is the chain of the next cluster. -/
theorem tail {a b : Nat} (h : IsChain g d c (a :: b :: l)) :
    nextCluster g d a = some b ∧ IsChain g d b (b :: l) := by
  obtain ⟨hch, hin⟩ := h
  cases hch with
  | cons hn hl =>
      obtain rfl := hl.head_eq
      exact ⟨hn, hl, fun x hx => hin x (List.mem_cons_of_mem _ hx)⟩

theorem next_singleton {a : Nat} (h : IsChain g d c [a]) : nextCluster g d a = none := by
  obtain ⟨hch, -⟩ := h
  cases hch with
  | last hn => exact hn
  | cons _ hl => exact absurd rfl hl.ne_nil

/-- Only the table entries of the chain's own clusters matter. -/
theorem congr (h : IsChain g d c l) (hf : ∀ a ∈ l, fatValue g d' a = fatValue g d a) :
    IsChain g d' c l where
  chain := h.chain.congr fun a ha => by rw [nextCluster, nextCluster, hf a ha]
  inRange := h.inRange

/-- No cluster of a chain is free. -/
theorem ne_free (h : IsChain g d c l) {a : Nat} (ha : a ∈ l) : fatValue g d a ≠ 0 := by
  intro h₀
  have hn : nextCluster g d a = some 0 := by
    rw [nextCluster, h₀]
    rfl
  have := h.inRange 0 (h.chain.next_mem ha hn)
  exact absurd this.1 (by decide)

end IsChain

end PotatoOS
