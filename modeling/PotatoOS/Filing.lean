/-
PotatoOS/Filing.lean

Files kept by a sequence of `write_file` calls on a drive with one sector in a
cluster.

`update_fat_entry` writes the first sector of the table it has loaded, wherever
the entry lies.  For a cluster below 128 that marks the cluster as used.  For a
cluster from 128 on the sector of the FAT with its entry becomes a copy of the
first one, which by then has no zero entry, so all clusters of that sector are
used up together (`isFree_placed_iff`).  `group` numbers the clusters that one
call uses up, and `reach` counts the groups with a free cluster: a drive takes
that many files, each in a cluster of its own (`Filed.run`).
-/
import Mathlib.Data.Finset.Card
import PotatoOS.WriteFile

namespace PotatoOS

open Prog

/-! ### The areas of a drive -/

/-- One sector in a cluster, a FAT that fits into memory, and FAT and data apart. -/
structure Geometry.Layout (g : Geometry) : Prop where
  one : g.sectorsPerCluster = 1
  room : g.fatSectors < 2 ^ 23
  apart : ∀ i < g.fatSectors, ∀ c, 2 ≤ c → c < g.clusters → g.fatLba i ≠ g.dataLba c

namespace Geometry

variable {g : Geometry}

theorem fatLba_eq (i : Nat) : g.fatLba i = (g.fatStart + i) % 2 ^ 24 := blockLba_eq _

theorem dataLba_eq (h : g.sectorsPerCluster = 1) (c : Nat) :
    g.dataLba c = (g.dataStart + (c + (2 ^ 24 - 2))) % 2 ^ 24 := by
  rw [dataLba, blockLba_eq, getClusterAddress, h]
  omega

namespace Layout

variable (hg : g.Layout) {c c' i j : Nat}

include hg

theorem fatLba_injOn (hi : i < g.fatSectors) (hj : j < g.fatSectors)
    (h : g.fatLba i = g.fatLba j) : i = j := by
  have hr := hg.room
  rw [fatLba_eq, fatLba_eq] at h
  omega

/-- A data area that leaves room for a FAT does not meet itself. -/
theorem dataLba_injOn (hs : 0 < g.fatSectors) (hc : 2 ≤ c ∧ c < g.clusters)
    (hc' : 2 ≤ c' ∧ c' < g.clusters) (h : g.dataLba c = g.dataLba c') : c = c' := by
  have hmeet := hg.apart 0 hs (2 + (g.fatStart + (2 ^ 24 - g.dataStart % 2 ^ 24)) % 2 ^ 24)
    (by omega)
  rw [fatLba_eq, dataLba_eq hg.one] at hmeet
  rw [dataLba_eq hg.one, dataLba_eq hg.one] at h
  omega

/-- Nor does it meet the sector that cluster 0 would have. -/
theorem dataLba_ne_zero (hs : g.clusters ≤ 128 * g.fatSectors) (hc : 2 ≤ c ∧ c < g.clusters) :
    g.dataLba c ≠ g.dataLba 0 := by
  intro h
  have hmeet (i : Nat) (hi : i < g.fatSectors) := hg.apart i hi
    (2 + (g.fatStart + i + (2 ^ 24 - g.dataStart % 2 ^ 24)) % 2 ^ 24) (by omega)
  have h₀ := hmeet 0
  have h₁ := hmeet 1
  rw [fatLba_eq, dataLba_eq hg.one] at h₀ h₁
  rw [dataLba_eq hg.one, dataLba_eq hg.one] at h
  omega

end Layout

/-! ### The FAT after a call -/

variable {d : Disk} {l : Locals} {b : Mem} {c k lba v : Nat}

theorem fatWord_lt (g : Geometry) (d : Disk) (k : Nat) : g.fatWord d k < 2 ^ 32 := le_lt _ _ 4

theorem fatWord_writeSector_of_ne (h : g.fatLba (k / 128) ≠ lba) :
    g.fatWord (writeSector d lba b) k = g.fatWord d k := by
  rw [fatWord, writeSector_other _ _ h, fatWord]

theorem fatWord_writeSector_self (h : g.fatLba (k / 128) = lba) :
    g.fatWord (writeSector d lba b) k = le b (4 * (k % 128)) 4 := by
  rw [fatWord, h, writeSector_self, le_memcpy_of_subset (Nat.zero_le _) (by omega), Nat.sub_zero]

/-- A word of the block that `update_fat_entry` writes. -/
theorem le_updatedBlock (j : Nat) :
    le (g.updatedBlock d l c v) (4 * j) 4
      = Function.update (g.table d l.updateTable) c v j % 2 ^ 32 := by
  have hw : le (g.updatedBlock d l c v) (4 * j) 4
      = le (leBytes (Function.update (g.table d l.updateTable) c v j)) 0 4 := by
    refine le_congr fun i hi => ?_
    rw [updatedBlock, show (4 * j + i) / 4 = j by omega, show (4 * j + i) % 4 = i by omega,
      Nat.zero_add]
  rw [hw, le_leBytes, Nat.pow_zero, Nat.div_one]
  rfl

/-- The sector of the FAT with the entry becomes the first sector of the table. -/
theorem fatWord_updated (hinj : g.fatLba (k / 128) = g.fatLba (c / 128) → k / 128 = c / 128)
    (hs : 0 < g.fatSectors) (hv : v < 2 ^ 32) :
    g.fatWord (writeSector d (g.fatLba (c / 128)) (g.updatedBlock d l c v)) k =
      if k / 128 = c / 128 then if k % 128 = c then v else g.fatWord d (k % 128)
      else g.fatWord d k := by
  by_cases h : k / 128 = c / 128
  · rw [if_pos h, fatWord_writeSector_self (h ▸ rfl), le_updatedBlock, Function.update_apply]
    by_cases hkc : k % 128 = c
    · rw [if_pos hkc, if_pos hkc, Nat.mod_eq_of_lt hv]
    · rw [if_neg hkc, if_neg hkc, table_of_covered (by omega),
        Nat.mod_eq_of_lt (fatWord_lt g _ _)]
  · rw [if_neg h, fatWord_writeSector_of_ne fun hl => h (hinj hl)]

/-- The disk after the content of a call is written. -/
def filled (g : Geometry) (d : Disk) (l : Locals) (content : CString) (c : Nat) : Disk :=
  writeSector d (g.dataLba c) (contentBuffer l content)

/-- The disk after a call. -/
def placed (g : Geometry) (d : Disk) (l : Locals) (content : CString) (c : Nat) : Disk :=
  writeSector (g.filled d l content c) (g.fatLba (c / 128))
    (g.updatedBlock (g.filled d l content c) l c 0xFFFFFFFF)

section

variable (hg : g.Layout) {content : CString}

include hg

theorem fatWord_placed (hk : k / 128 < g.fatSectors) (hc : c / 128 < g.fatSectors) :
    g.fatWord (g.placed d l content c) k =
      if k / 128 = c / 128 then
        if k % 128 = c then 0xFFFFFFFF else g.fatWord (g.filled d l content c) (k % 128)
      else g.fatWord (g.filled d l content c) k :=
  fatWord_updated (hg.fatLba_injOn hk hc) (Nat.zero_lt_of_lt hc) (by norm_num)

/-- The content of a file does not reach the FAT. -/
theorem fatWord_filled (hk : k / 128 < g.fatSectors) (hc : 2 ≤ c ∧ c < g.clusters) :
    g.fatWord (g.filled d l content c) k = g.fatWord d k :=
  fatWord_writeSector_of_ne (hg.apart _ hk c hc.1 hc.2)

end

/-- The clusters that one call uses up have one number. -/
def group (c : Nat) : Nat := if c < 128 then c else 127 + c / 128

theorem group_eq_iff {c k : Nat} : group k = group c ↔ k = c ∨ 128 ≤ c ∧ k / 128 = c / 128 := by
  rw [group, group]
  split <;> split <;> omega

/-- The two entries of the FAT that belong to no cluster are in use. -/
structure Headed (g : Geometry) (d : Disk) : Prop where
  first : g.fatWord d 0 ≠ 0
  second : g.fatWord d 1 ≠ 0

/-- Below the first free cluster no entry is 0. -/
theorem FirstFree.fatWord_ne_zero (h : g.FirstFree d c) (hd : g.Headed d) (hk : k < c) :
    g.fatWord d k ≠ 0 := by
  intro hw
  have hc := h.isFree
  have h₀ : k ≠ 0 := by
    rintro rfl
    exact hd.first hw
  have h₁ : k ≠ 1 := by
    rintro rfl
    exact hd.second hw
  have hle := h.le k ⟨by omega, hk.trans hc.2.1, by have := hc.2.2.1; omega, hw⟩
  omega

section

variable (hg : g.Layout) (hd : g.Headed d) {content : CString}

include hg hd

/-- A call sets the entries of the clusters it uses up, and no others to 0. -/
theorem fatWord_placed_eq_zero_iff (h : g.FirstFree d c) (hk : k / 128 < g.fatSectors) :
    g.fatWord (g.placed d l content c) k = 0 ↔ g.fatWord d k = 0 ∧ group k ≠ group c := by
  obtain ⟨h₂, hc, hs, -⟩ := h.isFree
  rw [fatWord_placed hg hk hs, Ne, group_eq_iff]
  have hfirst : k % 128 / 128 < g.fatSectors := by omega
  rw [fatWord_filled hg hk ⟨h₂, hc⟩, fatWord_filled hg hfirst ⟨h₂, hc⟩]
  by_cases hkc : k / 128 = c / 128
  · rw [if_pos hkc]
    rcases Nat.lt_or_ge c 128 with hlt | hge
    · -- the first sector itself: only the entry of `c` changes
      rw [show k % 128 = k by omega]
      by_cases hk : k = c
      · simp [hk]
      · simp [hk, show ¬128 ≤ c by omega]
    · -- a copy of the first sector, which has no zero entry
      have hne : g.fatWord d (k % 128) ≠ 0 := h.fatWord_ne_zero hd (by omega)
      rw [if_neg (by omega)]
      simp [hne, hge, hkc]
  · rw [if_neg hkc]
    simp [hkc, show k ≠ c by rintro rfl; exact hkc rfl]

theorem isFree_placed_iff (h : g.FirstFree d c) :
    g.IsFree (g.placed d l content c) k ↔ g.IsFree d k ∧ group k ≠ group c := by
  constructor
  · rintro ⟨h₂, hk, hs, hw⟩
    obtain ⟨hw, hne⟩ := (fatWord_placed_eq_zero_iff hg hd h hs).mp hw
    exact ⟨⟨h₂, hk, hs, hw⟩, hne⟩
  · rintro ⟨⟨h₂, hk, hs, hw⟩, hne⟩
    exact ⟨h₂, hk, hs, (fatWord_placed_eq_zero_iff hg hd h hs).mpr ⟨hw, hne⟩⟩

theorem headed_placed (h : g.FirstFree d c) : g.Headed (g.placed d l content c) := by
  have hs := h.isFree.2.2.1
  constructor <;> intro hw
  · exact hd.first ((fatWord_placed_eq_zero_iff hg hd h (by omega)).mp hw).1
  · exact hd.second ((fatWord_placed_eq_zero_iff hg hd h (by omega)).mp hw).1

end

/-! ### How many files a drive takes -/

/-- The free clusters of a drive. -/
def freeClusters (g : Geometry) (d : Disk) : Finset Nat :=
  (Finset.range g.clusters).filter fun c => g.IsFree d c

/-- Number of calls that find a free cluster. -/
def reach (g : Geometry) (d : Disk) : Nat := ((g.freeClusters d).image group).card

theorem mem_freeClusters : c ∈ g.freeClusters d ↔ g.IsFree d c := by
  rw [freeClusters, Finset.mem_filter, Finset.mem_range]
  exact and_iff_right_of_imp fun h => h.2.1

/-- A drive without reach has no free cluster, and conversely. -/
theorem reach_eq_zero_iff : g.reach d = 0 ↔ ∀ c, ¬g.IsFree d c := by
  rw [reach, Finset.card_eq_zero, Finset.image_eq_empty, Finset.eq_empty_iff_forall_notMem]
  exact forall_congr' fun c => not_congr mem_freeClusters

/-- Every call that finds a free cluster costs one. -/
theorem reach_placed (hg : g.Layout) (hd : g.Headed d) {content : CString}
    (h : g.FirstFree d c) : g.reach (g.placed d l content c) + 1 = g.reach d := by
  have himage : (g.freeClusters (g.placed d l content c)).image group
      = ((g.freeClusters d).image group).erase (group c) := by
    ext x
    simp only [Finset.mem_image, Finset.mem_erase, mem_freeClusters, isFree_placed_iff hg hd h]
    constructor
    · rintro ⟨k, ⟨hk, hne⟩, rfl⟩
      exact ⟨hne, k, hk, rfl⟩
    · rintro ⟨hne, k, hk, rfl⟩
      exact ⟨k, ⟨hk, hne⟩, rfl⟩
  have hmem : group c ∈ (g.freeClusters d).image group :=
    Finset.mem_image_of_mem _ (mem_freeClusters.mpr h.isFree)
  rw [reach, himage, Finset.card_erase_add_one hmem, reach]

end Geometry

/-! ### The list of files -/

@[simp] theorem Tty.write_disk (s : Tty) (lba : Nat) (buffer : Mem) :
    (s.write lba buffer).disk = writeSector s.disk lba buffer := rfl

theorem Tty.writes_one_disk (s : Tty) (g : Geometry) (l : Locals) (content : CString) (c : Nat) :
    (s.writes (g.getClusterAddress c) (contentBuffer l content) 1 0).disk
      = g.filled s.disk l content c := by
  rw [Tty.writes, Tty.writes, Tty.write_disk, Nat.add_zero, Geometry.filled, Geometry.dataLba]
  simp only [Nat.zero_mul, Nat.zero_add]

theorem Tty.place_disk {g : Geometry} (h : g.sectorsPerCluster = 1) (s : Tty) (l : Locals)
    (content : CString) (c : Nat) : (s.place g l content c).disk = g.placed s.disk l content c := by
  simp only [Tty.place, h, Tty.write_disk, Tty.writes_one_disk, Geometry.placed]

@[simp] theorem Tty.addFile_disk (s : Tty) (n : Nat) (e : FileEntry) :
    (s.addFile n e).disk = s.disk := rfl

/-- First cluster of file `i`. -/
def Tty.clusterOf (s : Tty) (n i : Nat) : Nat :=
  ((s.mountedDrives n).rootDirectory.files i).startCluster

/-- The table lists the files of the calls, under their names. -/
structure Listed (n : Nat) (g : Geometry) (s : Tty) (done : List WriteCall) : Prop where
  geometry : (s.mountedDrives n).toGeometry = g
  fileCount : (s.mountedDrives n).rootDirectory.fileCount = done.length
  freeBehind : (s.mountedDrives n).rootDirectory.FreeBehind
  name : ∀ i call, done[i]? = some call →
    HoldsString ((s.mountedDrives n).rootDirectory.files i).name call.filename.1

theorem getElem?_concat_eq_some {α : Type} {l : List α} {a b : α} {i : Nat}
    (h : (l ++ [a])[i]? = some b) : l[i]? = some b ∧ i < l.length ∨ b = a ∧ i = l.length := by
  rcases Nat.lt_trichotomy i l.length with hi | rfl | hi
  · rw [List.getElem?_append_left hi] at h
    exact .inl ⟨h, hi⟩
  · rw [List.getElem?_concat_length, Option.some_inj] at h
    exact .inr ⟨h.symm, rfl⟩
  · rw [List.getElem?_eq_none (by rw [List.length_append, List.length_singleton]; omega)] at h
    cases h

section

variable {n i : Nat} {g : Geometry} {s : Tty} {done : List WriteCall} {call : WriteCall}

/-- One call: the table has a file more, the disk has two new sectors. -/
theorem Listed.step (h : Listed n g s done) (hn : n < maxMountedDrives)
    (h₁ : g.sectorsPerCluster = 1) (hlen : done.length < maxFiles)
    (hname : call.filename.1.length ≤ 31) (hs : g.Stays s.disk call.locals call.content) :
    ∃ s', writeFile call.locals n call.filename call.content s = (.value (), s') ∧
      Listed n g s' (done ++ [call]) ∧
      s'.disk = g.placed s.disk call.locals call.content (g.found s.disk call.locals) ∧
      s'.clusterOf n done.length = g.found s.disk call.locals ∧
      ∀ i < done.length, s'.clusterOf n i = s.clusterOf n i := by
  have hlt : (s.mountedDrives n).rootDirectory.fileCount < maxFiles := h.fileCount ▸ hlen
  have hrun := writeFile_of_stays (l := call.locals) call.filename hn
    (h.freeBehind.freeEntry_ne_none hlt) (by rwa [h.geometry])
  rw [if_neg (not_le.mpr hlt), h.geometry] at hrun
  have hdir (e : FileEntry) (c : Nat) :
      (((s.place g call.locals call.content c).addFile n e).mountedDrives n).rootDirectory
        = (s.mountedDrives n).rootDirectory.append e := by
    rw [Tty.addFile_rootDirectory, Tty.place_mountedDrives]
  refine ⟨_, hrun, ⟨?_, ?_, ?_, fun i call' hi => ?_⟩, ?_, ?_, fun i hi => ?_⟩
  · rw [Tty.addFile_toGeometry, Tty.place_mountedDrives, h.geometry]
  · rw [hdir, Directory.append_fileCount, h.fileCount, List.length_append, List.length_singleton]
  · rw [hdir]
    exact h.freeBehind.append _
  · rw [hdir]
    -- a file from before, or the one that this call has added
    rcases getElem?_concat_eq_some hi with ⟨hi, hlt⟩ | ⟨rfl, rfl⟩
    · rw [Directory.append_files_of_ne (h.fileCount ▸ hlt.ne)]
      exact h.name i call' hi
    · rw [← h.fileCount, Directory.append_files_self]
      exact holdsString_strncpy (Nat.lt_succ_of_le hname)
  · rw [Tty.addFile_disk, Tty.place_disk h₁]
  · rw [Tty.clusterOf, hdir, ← h.fileCount, Directory.append_files_self]
    rfl
  · rw [Tty.clusterOf, hdir, Directory.append_files_of_ne (h.fileCount ▸ hi.ne)]
    rfl

/-! ### Reading a file -/

theorem holdsString_bytesFrom {dir : Directory} {name : List UInt8} (hl : name.length ≤ 31)
    (h : HoldsString (dir.files i).name name) : HoldsString (dir.bytesFrom i) name := by
  intro k hk
  have hk' : k < 40 := by omega
  rw [Directory.bytesFrom, Nat.div_eq_of_lt hk', Nat.mod_eq_of_lt hk', Nat.add_zero,
    FileEntry.bytes, if_pos (by omega)]
  exact h k hk

theorem readCluster_one (h₁ : g.sectorsPerCluster = 1) (c : Nat) :
    readCluster c (fun _ => 0) blockSize g s
      = (.value (memcpy (fun _ => 0) 0 (s.disk (g.dataLba c)) blockSize), s) := by
  rw [readCluster, h₁, readClusterLoop, if_neg (by decide)]
  simp only [fetch_tty, readBlock, gets_bind, blockLba_mod]
  rw [readClusterLoop, Nat.add_zero, Nat.zero_mul]
  rfl

/-- What `terminal_writestring` prints of a buffer is the string it holds. -/
theorem exists_strnlen_bytesAt_iff {m : Mem} {text : List UInt8} (ht : 0 ∉ text) (k : Nat) :
    (∃ len, strnlen m k = some len ∧ bytesAt m 0 len = text) ↔
      text.length < k ∧ HoldsString m text := by
  constructor
  · rintro ⟨len, hlen, rfl⟩
    obtain ⟨hlt, hz, -⟩ := strnlen_eq_some_iff.mp hlen
    have hl : (bytesAt m 0 len).length = len := by
      rw [bytesAt, List.length_map, List.length_range]
    refine ⟨by rwa [hl], fun i hi => ?_⟩
    rw [hl] at hi
    rcases hi.lt_or_eq with hi | rfl
    · rw [List.getD_eq_getElem _ _ (by rwa [hl])]
      simp [bytesAt]
    · rw [List.getD_eq_default _ _ hl.le, hz]
  · rintro ⟨hlt, h⟩
    exact ⟨_, strnlen_of_holdsString h (fun b hb h0 => ht (h0 ▸ hb)) hlt,
      bytesAt_eq_of_getD rfl fun i hi => h i hi.le⟩

/-- The search of `read_file` finds the file with the name. -/
theorem Listed.find (h : Listed n g s done) (hlen : done.length ≤ maxFiles)
    (hnames : (done.map (·.filename)).Nodup) (hl : ∀ call ∈ done, call.filename.1.length ≤ 31)
    (hi : done[i]? = some call) :
    ((List.range (s.mountedDrives n).rootDirectory.fileCount).find? fun j =>
      maxFiles ≤ j ∨ strcmp ((s.mountedDrives n).rootDirectory.bytesFrom j) call.filename.1 = 0)
        = some i := by
  obtain ⟨hlt, hcall⟩ := List.getElem?_eq_some_iff.mp hi
  have hholds (j : Nat) (call' : WriteCall) (hj : done[j]? = some call') :
      HoldsString ((s.mountedDrives n).rootDirectory.bytesFrom j) call'.filename.1 :=
    holdsString_bytesFrom (hl call' (List.mem_of_getElem? hj)) (h.name j call' hj)
  refine List.find?_range_eq_some.mpr ⟨?_, ?_, fun j hj => ?_⟩
  · rw [decide_eq_true_eq]
    exact .inr ((strcmp_eq_zero_iff call.filename.2).mpr (hholds i call hi))
  · rw [List.mem_range, h.fileCount]
    exact hlt
  · rw [Bool.not_eq_true', decide_eq_false_iff_not, not_or, not_le]
    refine ⟨by omega, fun hz => ?_⟩
    -- another file has another name
    have hjlt : j < done.length := hj.trans hlt
    have hsame := (hholds j done[j] (List.getElem?_eq_getElem hjlt)).unique
      ((strcmp_eq_zero_iff call.filename.2).mp hz) done[j].filename.2 call.filename.2
    have hcalls : done[j] = done[i] := List.inj_on_of_nodup_map hnames (List.getElem_mem hjlt)
      (List.getElem_mem hlt) (Subtype.ext (by rwa [hcall]))
    have hij := (hnames.of_map _).getElem_inj_iff.mp hcalls
    omega

theorem writestring_iff {m : Mem} {text : List UInt8} (ht : 0 ∉ text) (room : Nat) :
    (∃ s', writestring m room s = (.value (), s') ∧ s'.printed = s.printed ++ text) ↔
      text.length < room ∧ HoldsString m text := by
  rw [← exists_strnlen_bytesAt_iff ht, writestring]
  cases hstr : strnlen m room with
  | none => simp
  | some len => simp

/-- Reading a file prints its content exactly when its sector holds it. -/
theorem Listed.read_iff (h : Listed n g s done) (hn : n < maxMountedDrives)
    (h₁ : g.sectorsPerCluster = 1) (hlen : done.length ≤ maxFiles)
    (hnames : (done.map (·.filename)).Nodup) (hl : ∀ call ∈ done, call.filename.1.length ≤ 31)
    (hi : done[i]? = some call) (hc : call.content.1.length < blockSize) :
    (∃ s', readFile n call.filename s = (.value (), s') ∧
        s'.printed = s.printed ++ call.content.1) ↔
      HoldsString (s.disk (g.dataLba (s.clusterOf n i))) call.content.1 := by
  have hilt : i < maxFiles := ((List.getElem?_eq_some_iff.mp hi).1).trans_le hlen
  have hrun : readFile n call.filename s = writestring
      (memcpy (fun _ => 0) 0 (s.disk (g.dataLba (s.clusterOf n i))) blockSize) blockSize s := by
    rw [readFile, if_neg (not_le.mpr hn)]
    simp only [onTables_tty, gets_bind, h.find hlen hnames hl hi, if_neg (not_le.mpr hilt)]
    rw [h.geometry]
    exact bind_value (readCluster_one h₁ (s.clusterOf n i))
  rw [hrun, writestring_iff call.content.2, and_iff_right hc]
  refine forall₂_congr fun k hk => ?_
  rw [memcpy_apply_of_mem (Nat.zero_le _) (by omega), Nat.sub_zero]

end

/-! ### Files that are kept -/

namespace Geometry

variable {g : Geometry} {d : Disk} {l : Locals} {content : CString} {c k lba : Nat}

theorem placed_of_ne (h : lba ≠ g.fatLba (c / 128)) :
    g.placed d l content c lba = g.filled d l content c lba := writeSector_other _ _ h

theorem filled_of_ne (h : lba ≠ g.dataLba c) : g.filled d l content c lba = d lba :=
  writeSector_other _ _ h

theorem holdsString_filled (h : content.1.length < blockSize) :
    HoldsString (g.filled d l content c (g.dataLba c)) content.1 := by
  intro i hi
  have hlt : i < 0 + 512 := by
    rw [blockSize] at h
    omega
  rw [filled, writeSector_self, memcpy_apply_of_mem (Nat.zero_le _) hlt, Nat.sub_zero]
  exact holdsString_strncpy h i hi

/-- A used cluster whose sector holds a text. -/
structure KeepsText (g : Geometry) (d : Disk) (c : Nat) (text : List UInt8) : Prop where
  cluster : 2 ≤ c ∧ c < g.clusters
  covered : c / 128 < g.fatSectors
  used : g.fatWord d c ≠ 0
  text : HoldsString (d (g.dataLba c)) text

section

variable (hg : g.Layout) (hd : g.Headed d) (h : g.FirstFree d c)

include hg hd h

/-- The cluster of a call keeps its content. -/
theorem keepsText_placed (hlen : content.1.length < blockSize) :
    g.KeepsText (g.placed d l content c) c content.1 := by
  obtain ⟨h₂, hc, hs, -⟩ := h.isFree
  refine ⟨⟨h₂, hc⟩, hs, fun hw => ?_, ?_⟩
  · exact ((fatWord_placed_eq_zero_iff hg hd h hs).mp hw).2 rfl
  · rw [placed_of_ne (hg.apart _ hs c h₂ hc).symm]
    exact holdsString_filled hlen

/-- The clusters of earlier calls keep theirs. -/
theorem KeepsText.placed {text : List UInt8} (hk : g.KeepsText d k text) :
    g.KeepsText (g.placed d l content c) k text := by
  obtain ⟨h₂, hc, hs, hw⟩ := h.isFree
  have hne : k ≠ c := by
    rintro rfl
    exact hk.used hw
  refine ⟨hk.cluster, hk.covered, fun hw => ?_, ?_⟩
  · exact hk.used ((fatWord_placed_eq_zero_iff hg hd h hk.covered).mp hw).1
  · rw [placed_of_ne (hg.apart _ hs k hk.cluster.1 hk.cluster.2).symm, filled_of_ne fun heq =>
      hne (hg.dataLba_injOn (by omega) hk.cluster ⟨h₂, hc⟩ heq)]
    exact hk.text

end

end Geometry

/-- The files of the calls are listed and kept, each in a used cluster. -/
structure Filed (n : Nat) (g : Geometry) (s : Tty) (done : List WriteCall) : Prop extends
    Listed n g s done where
  headed : g.Headed s.disk
  keeps : ∀ i call, done[i]? = some call →
    g.KeepsText s.disk (s.clusterOf n i) call.content.1

/-- What a call is asked to be: an array for the whole FAT, a short name, a text that
fits a block. -/
structure Geometry.Suits (g : Geometry) (call : WriteCall) : Prop where
  fits : g.Fits call.locals
  name : call.filename.1.length ≤ 31
  content : 1 ≤ call.content.1.length ∧ call.content.1.length ≤ 511

/-- The byte behind the buffer for the content is free. -/
def WriteCall.Padded (call : WriteCall) : Prop := blockSize < call.locals.room

/-- A text of such a call takes 513 bytes. -/
theorem Geometry.Suits.extent {g : Geometry} {call : WriteCall} (h : g.Suits call) :
    strncpyExtent call.content blockSize = blockSize + 1 :=
  if_pos (Nat.lt_succ_of_le h.content.2)

section

variable {n c : Nat} {g : Geometry} {s : Tty} {done calls : List WriteCall} {call : WriteCall}

/-- A call that finds a free cluster. -/
theorem Filed.step (h : Filed n g s done) (hn : n < maxMountedDrives) (hg : g.Layout)
    (hlen : done.length < maxFiles) (hcall : g.Suits call) (hpad : call.Padded)
    (hc : g.FirstFree s.disk c) :
    ∃ s', writeFile call.locals n call.filename call.content s = (.value (), s') ∧
      Filed n g s' (done ++ [call]) ∧ g.reach s'.disk + 1 = g.reach s.disk := by
  have hs : g.Stays s.disk call.locals call.content :=
    ⟨hcall.fits, hg.one ▸ Nat.one_ne_zero, hcall.extent.trans_le hpad, hc.found_lt hcall.fits⟩
  obtain ⟨s', hrun, hlist, hdisk, hnew, hold⟩ :=
    h.toListed.step hn hg.one hlen hcall.name hs
  rw [hc.found] at hdisk hnew
  refine ⟨s', hrun, ⟨hlist, ?_, fun i call' hi => ?_⟩, ?_⟩
  · rw [hdisk]
    exact Geometry.headed_placed hg h.headed hc
  · rw [hdisk]
    rcases getElem?_concat_eq_some hi with ⟨hi, hlt⟩ | ⟨rfl, rfl⟩
    · rw [hold i hlt]
      exact (h.keeps i call' hi).placed hg h.headed hc
    · rw [hnew]
      exact Geometry.keepsText_placed hg h.headed hc (Nat.lt_succ_of_le hcall.content.2)
  · rw [hdisk]
    exact Geometry.reach_placed hg h.headed hc

/-- As many calls as the drive reaches return, and all their files are kept. -/
theorem Filed.run (h : Filed n g s done) (hn : n < maxMountedDrives) (hg : g.Layout)
    (hcalls : ∀ call ∈ calls, g.Suits call) (hpad : ∀ call ∈ calls, call.Padded)
    (hlen : done.length + calls.length ≤ maxFiles)
    (hreach : calls.length ≤ g.reach s.disk) :
    ∃ s', writeFiles n calls s = (.value (), s') ∧ Filed n g s' (done ++ calls) ∧
      g.reach s'.disk + calls.length = g.reach s.disk := by
  induction calls generalizing s done with
  | nil => exact ⟨s, rfl, by rwa [List.append_nil], rfl⟩
  | cons call calls ih =>
      rw [List.length_cons] at hlen hreach
      obtain ⟨hcall, hcalls⟩ := List.forall_mem_cons.mp hcalls
      obtain ⟨hpad₁, hpad⟩ := List.forall_mem_cons.mp hpad
      -- a call is left, so the search still reaches a free cluster
      obtain ⟨c, hc⟩ : ∃ c, g.FirstFree s.disk c := by
        have hne : ¬∀ c, ¬g.IsFree s.disk c := fun hnone => by
          have hz := Geometry.reach_eq_zero_iff.mpr hnone
          omega
        obtain ⟨c, hc⟩ := not_forall_not.mp hne
        exact Geometry.exists_firstFree hc
      obtain ⟨s₁, hrun₁, hfiled, hr₁⟩ := h.step hn hg (by omega) hcall hpad₁ hc
      obtain ⟨s', hrun, hfiled, hr⟩ := ih hfiled hcalls hpad
        (by rw [List.length_append, List.length_singleton]; omega) (by omega)
      refine ⟨s', ?_, ?_, ?_⟩
      · rw [writeFiles, bind_value hrun₁, hrun]
      · rwa [List.append_assoc, List.singleton_append] at hfiled
      · rw [List.length_cons]
        omega

end

end PotatoOS
