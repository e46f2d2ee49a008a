/-
PotatoOS/Alloc.lean

The cluster allocator, `allocateFreeFAT`.

The scan takes the least cluster whose table entry reads as zero and writes
an end mark into it.  The mark protects the cluster from the next scan only
if it reaches the disk.  With two or more sectors in a cluster the entry of
cluster 128 never does (Table.lean), so the allocator hands out the free
clusters below 128 once each and cluster 128 for ever after.

`allocateFreeFAT_found` and `allocateFreeFAT_full` are the specification on
the reliable drive, in terms of `IsFirstFree` and `NoFree`.  Main result:
`distinctAllocs_iff`, which says for which geometries, tables and numbers of
calls the allocator hands out no cluster twice.
-/
import PotatoOS.Table

namespace PotatoOS

open Prog

/-- An `int` assigned to an `unsigned int`. -/
def toUnsigned (z : Int) : Nat := (z % 2 ^ 32).toNat

theorem toUnsigned_natCast {n : Nat} (h : n < 2 ^ 32) : toUnsigned n = n := by
  rw [toUnsigned]
  omega

/-! ### The allocator -/

/-- States that the allocator and `directoryAdd` can run on.  A state may record
more than the machine does, and for that the calls on the way are told apart; on
the machine itself all four are the call as it is. -/
class Driver (σ : Type) where
  /-- A `FATRead` of the allocator. -/
  scan : Prog State Int → Prog σ Int
  /-- A `FATRead` behind the last entry of a directory cluster. -/
  follow : Prog State Int → Prog σ Int
  /-- A `FATWrite` or `clusterWrite`. -/
  write : Prog State Int → Prog σ Int
  /-- Everything else. -/
  run : {α : Type} → Prog State α → Prog σ α

@[default_instance] instance : Driver State where
  scan m := m
  follow m := m
  write m := m
  run m := m

@[simp] theorem scan_state (m : Prog State Int) : Driver.scan m = m := rfl

@[simp] theorem follow_state (m : Prog State Int) : Driver.follow m = m := rfl

@[simp] theorem write_state (m : Prog State Int) : Driver.write m = m := rfl

@[simp] theorem run_state {α : Type} (m : Prog State α) : Driver.run m = m := rfl

section

variable {σ : Type} [Driver σ]

/-- The scan of `allocateFreeFAT`; `n` clusters are left to look at.  The
source's test `clusterStatus < 0` is on an unsigned variable and never true,
so a failed read counts as a taken cluster. -/
def allocLoop (env : Env) (g : Globals) (freeMark badMark endMark : Nat) :
    Nat → Nat → Prog σ Nat
  | 0, _ => pure badMark
  | n + 1, cluster => do
      let clusterStatus := toUnsigned (← Driver.scan (fatRead env g cluster))
      if clusterStatus = freeMark then
        if (← Driver.write (fatWrite env g cluster endMark)) = 0 then return cluster
        return badMark
      allocLoop env g freeMark badMark endMark n (cluster + 1)

/-- `allocateFreeFAT`: a cluster that is marked as the end of a chain now, or the
mark for bad clusters. -/
def allocateFreeFAT (env : Env) (g : Globals) : Prog σ Nat :=
  if g.fatType = 32 then
    allocLoop env g freeCluster32 badCluster32 endCluster32 (g.totalClusters - 2) 2
  else if g.fatType = 16 then
    allocLoop env g freeCluster16 badCluster16 endCluster16 (g.totalClusters - 2) 2
  else if g.fatType = 12 then
    allocLoop env g freeCluster12 badCluster12 endCluster12 (g.totalClusters - 2) 2
  else pure badCluster12

end

/-! ### FAT32 values -/

/-- The value of a FAT32 entry on disk. -/
def fatValue (g : Globals) (d : Disk) (c : Nat) : Nat := entry g 4 d c % 2 ^ 28

/-- The disk after a FAT32 entry is written. -/
def setFat (g : Globals) (d : Disk) (c v : Nat) : Disk := setEntry g 4 d c v

section

variable {g : Globals} {c c' v : Nat} {d : Disk} {s : State}

theorem Globals.IsImage.width_eq (h : g.IsImage) : g.width = 4 := if_pos h.fatType

theorem fatValue_lt (g : Globals) (d : Disk) (c : Nat) : fatValue g d c < 2 ^ 28 :=
  Nat.mod_lt _ (by decide)

@[simp] theorem toUnsigned_fatValue (g : Globals) (d : Disk) (c : Nat) :
    toUnsigned (fatValue g d c : Nat) = fatValue g d c := by
  have := fatValue_lt g d c
  exact toUnsigned_natCast (by omega)

theorem fatValue_setFat_self (h : g.IsFat32) (hc : g.InSector 4 c) :
    fatValue g (setFat g d c v) c = v % 2 ^ 28 := by
  rw [fatValue, setFat, entry_setEntry_self h.toBlocks512 (.inr rfl) hc]
  omega

theorem fatValue_setFat_other (h : g.IsFat32) (hne : g.fatOffset 4 c' ≠ g.fatOffset 4 c) :
    fatValue g (setFat g d c v) c' = fatValue g d c' := by
  rw [fatValue, setFat, entry_setEntry_other h.toBlocks512 (.inr rfl) hne, fatValue]

/-- Two numbers of the same word have the same value. -/
theorem fatValue_congr (ho : g.fatOffset 4 c' = g.fatOffset 4 c) :
    fatValue g d c' = fatValue g d c := by
  rw [fatValue, fatValue, entry_congr ho]

theorem fatValue_of_not_inSector (hc : ¬ g.InSector 4 c) : fatValue g d c = 0 := by
  rw [fatValue, entry, if_neg hc, Nat.zero_mod]

theorem fatRead_image (h : g.IsImage) (hc : g.InRange c) (hb : g.entOffset 4 c < fatTableSize) :
    fatRead reliable g c s = (.value (fatValue g s.disk c : Nat), s.loadFat g 4 c) := by
  have hw := h.width_eq
  have hr : g.Readable c := .inr ⟨h.fatType, by rwa [hw]⟩
  rw [fatRead_reliable h.toBlocks512 (.inl h.fatType) hc hr, hw, Globals.maskEntry,
    if_pos h.fatType, fatValue]

/-- An index past the local array is not defined. -/
theorem fatRead_image_undefined (h : g.IsImage) (hc : g.InRange c)
    (hb : ¬ g.entOffset 4 c < fatTableSize) :
    fatRead reliable g c s = (.stop .undefined, s.loadFat g 4 c) := by
  rw [← h.width_eq]
  refine fatRead_undefined h.toBlocks512 (.inl h.fatType) hc ?_
  rw [Globals.Readable, Globals.InSector, h.width_eq]
  rintro (hs | ⟨-, hs⟩)
  · exact hb (Nat.lt_trans hs (by decide))
  · exact hb hs

theorem fatWrite_image (h : g.IsImage) (hc : g.InRange c)
    (hb : g.entOffset 4 c < fatTableSize) :
    ∃ s', fatWrite reliable g c v s = (.value 0, s') ∧ s'.disk = setFat g s.disk c v ∧
      s'.mem = memcpy s.mem diskLocation (s'.disk.sector (g.fatSector 4 c)) 512 := by
  have hw := h.width_eq
  obtain ⟨s', h₁, h₂, h₃⟩ := fatWrite_reliable (v := v) (s := s) h.toBlocks512
    (.inl h.fatType) hc (by rwa [hw])
  rw [hw] at h₂ h₃
  exact ⟨s', h₁, h₂, h₃⟩

theorem fatRead_fat32 (h : g.IsFat32) (hc : g.InRange c) (hb : g.entOffset 4 c < fatTableSize) :
    fatRead reliable g c s = (.value (fatValue g s.disk c : Nat), s.loadFat g 4 c) :=
  fatRead_image h.isImage hc hb

theorem fatRead_fat32_undefined (h : g.IsFat32) (hc : g.InRange c)
    (hb : ¬ g.entOffset 4 c < fatTableSize) :
    fatRead reliable g c s = (.stop .undefined, s.loadFat g 4 c) :=
  fatRead_image_undefined h.isImage hc hb

theorem fatWrite_fat32 (h : g.IsFat32) (hc : g.InRange c)
    (hb : g.entOffset 4 c < fatTableSize) :
    ∃ s', fatWrite reliable g c v s = (.value 0, s') ∧ s'.disk = setFat g s.disk c v ∧
      s'.mem = memcpy s.mem diskLocation (s'.disk.sector (g.fatSector 4 c)) 512 :=
  fatWrite_image h.isImage hc hb

end

/-! ### What the scan finds -/

/-- `x` is the least cluster whose entry reads as zero. -/
structure IsFirstFree (g : Globals) (d : Disk) (x : Nat) : Prop where
  inRange : g.InRange x
  free : fatValue g d x = 0
  least : ∀ c, 2 ≤ c → c < x → fatValue g d c ≠ 0

/-- No entry reads as zero. -/
def NoFree (g : Globals) (d : Disk) : Prop := ∀ c, g.InRange c → fatValue g d c ≠ 0

section

variable {g : Globals} {d : Disk} {x : Nat} {s : State}

theorem IsFirstFree.unique {y : Nat} (hx : IsFirstFree g d x) (hy : IsFirstFree g d y) :
    x = y := by
  rcases Nat.lt_trichotomy x y with hlt | rfl | hlt
  · exact absurd hx.free (hy.least x hx.inRange.1 hlt)
  · rfl
  · exact absurd hy.free (hx.least y hy.inRange.1 hlt)

theorem exists_isFirstFree_or_noFree (g : Globals) (d : Disk) :
    (∃ x, IsFirstFree g d x) ∨ NoFree g d := by
  classical
  by_cases hex : ∃ c, g.InRange c ∧ fatValue g d c = 0
  · left
    refine ⟨Nat.find hex, (Nat.find_spec hex).1, (Nat.find_spec hex).2, fun c h₂ hlt h₀ => ?_⟩
    have := (Nat.find_spec hex).1.2
    exact Nat.find_min hex hlt ⟨⟨h₂, by omega⟩, h₀⟩
  · right
    intro c hc h₀
    exact hex ⟨c, hc, h₀⟩

theorem allocLoop_found (h : g.IsFat32) (bad : Nat) (hx : g.InRange x)
    (hb : ∀ c, 2 ≤ c → c ≤ x → g.entOffset 4 c < fatTableSize) (n cluster : Nat) (s : State)
    (h₂ : 2 ≤ cluster) (hle : cluster ≤ x) (hn : x < cluster + n)
    (hfree : fatValue g s.disk x = 0)
    (hleast : ∀ c, cluster ≤ c → c < x → fatValue g s.disk c ≠ 0) :
    ∃ s', allocLoop reliable g 0 bad endCluster32 n cluster s = (.value x, s') ∧
      s'.disk = setFat g s.disk x endCluster32 ∧
      s'.mem = memcpy s.mem diskLocation (s'.disk.sector (g.fatSector 4 x)) 512 := by
  induction n generalizing cluster s with
  | zero => omega
  | succ n ih =>
      have hc : g.InRange cluster := ⟨h₂, Nat.lt_of_le_of_lt hle hx.2⟩
      have hread := fatRead_fat32 (s := s) h hc (hb cluster h₂ hle)
      rw [allocLoop, scan_state, bind_value hread]
      simp only [toUnsigned_fatValue]
      rcases Nat.eq_or_lt_of_le hle with rfl | hlt
      · -- the free cluster: mark it
        obtain ⟨s', hw, hd, hm⟩ := fatWrite_fat32 (v := endCluster32)
          (s := s.loadFat g 4 cluster) h hc (hb cluster h₂ hle)
        rw [if_pos hfree, write_state, bind_value hw]
        refine ⟨s', rfl, hd, ?_⟩
        rw [hm, State.loadFat, State.load_mem, memcpy_memcpy]
      · rw [if_neg (hleast cluster (Nat.le_refl _) hlt)]
        obtain ⟨s', hr, hd, hm⟩ := ih (cluster + 1) (s.loadFat g 4 cluster) (by omega) hlt
          (by omega) hfree fun c hc => hleast c (by omega)
        refine ⟨s', hr, hd, ?_⟩
        rw [hm, State.loadFat, State.load_mem, memcpy_memcpy]

theorem allocLoop_full (h : g.IsFat32) (bad : Nat)
    (hb : ∀ c, g.InRange c → g.entOffset 4 c < fatTableSize) (n cluster : Nat) (s : State)
    (h₂ : 2 ≤ cluster) (hn : cluster + n ≤ g.totalClusters ∨ n = 0)
    (hno : NoFree g s.disk) :
    ∃ s', allocLoop reliable g 0 bad endCluster32 n cluster s = (.value bad, s') ∧
      s'.disk = s.disk := by
  induction n generalizing cluster s with
  | zero => exact ⟨s, rfl, rfl⟩
  | succ n ih =>
      have hc : g.InRange cluster := ⟨h₂, by omega⟩
      have hread := fatRead_fat32 (s := s) h hc (hb cluster hc)
      rw [allocLoop, scan_state, bind_value hread]
      simp only [toUnsigned_fatValue]
      rw [if_neg (hno cluster hc)]
      exact ih (cluster + 1) (s.loadFat g 4 cluster) (by omega) (by omega) hno

/-- The allocator returns the least free cluster, marked on disk; the sector
with its entry is what the transfer buffer holds afterwards. -/
theorem allocateFreeFAT_found (h : g.IsFat32) (hx : IsFirstFree g s.disk x)
    (hb : ∀ c, 2 ≤ c → c ≤ x → g.entOffset 4 c < fatTableSize) :
    ∃ s', allocateFreeFAT reliable g s = (.value x, s') ∧
      s'.disk = setFat g s.disk x endCluster32 ∧
      s'.mem = memcpy s.mem diskLocation (s'.disk.sector (g.fatSector 4 x)) 512 := by
  obtain ⟨h₁, h₂⟩ := hx.inRange
  rw [allocateFreeFAT, if_pos h.fatType]
  exact allocLoop_found h _ hx.inRange hb _ 2 s (by decide) h₁ (by omega) hx.free
    fun c hc => hx.least c hc

/-- Without a free cluster it returns the bad mark and leaves the disk alone. -/
theorem allocateFreeFAT_full (h : g.IsFat32) (hno : NoFree g s.disk)
    (hb : ∀ c, g.InRange c → g.entOffset 4 c < fatTableSize) :
    ∃ s', allocateFreeFAT reliable g s = (.value badCluster32, s') ∧ s'.disk = s.disk := by
  rw [allocateFreeFAT, if_pos h.fatType]
  exact allocLoop_full h _ hb _ 2 s (by decide) (by omega) hno

end

/-! ### Consecutive calls -/

/-- The values of `m` calls in a row. -/
def allocRun (env : Env) (g : Globals) : Nat → Prog State (List Nat)
  | 0 => pure []
  | m + 1 => do
      let x ← allocateFreeFAT env g
      let xs ← allocRun env g m
      return x :: xs

/-- The calls return, and no cluster is handed out twice. -/
def DistinctAllocs (g : Globals) (s : State) (m : Nat) : Prop :=
  ∃ vs s', allocRun reliable g m s = (.value vs, s') ∧
    (vs.filter (· ≠ badCluster32)).Nodup

/-- The free clusters below 128. -/
def freeBelow (g : Globals) (d : Disk) : Finset Nat :=
  (Finset.range 128).filter fun c => g.InRange c ∧ fatValue g d c = 0

section

variable {g : Globals} {d : Disk} {x : Nat} {s s₁ : State} {m : Nat}

theorem allocRun_succ {xs : List Nat} {s₂ : State}
    (h₁ : allocateFreeFAT reliable g s = (.value x, s₁))
    (h₂ : allocRun reliable g m s₁ = (.value xs, s₂)) :
    allocRun reliable g (m + 1) s = (.value (x :: xs), s₂) := by
  rw [allocRun, bind_value h₁, bind_value h₂]
  rfl

/-- Marking a cluster frees no other. -/
theorem free_of_free_setFat (h : g.IsFat32) {c : Nat} (hx : g.InSector 4 x)
    (hc : fatValue g (setFat g d x endCluster32) c = 0) : fatValue g d c = 0 := by
  by_cases ho : g.fatOffset 4 c = g.fatOffset 4 x
  · rw [fatValue_congr ho, fatValue_setFat_self h hx] at hc
    exact absurd hc (by decide)
  · rwa [fatValue_setFat_other h ho] at hc

/-- When every entry is stored on disk, what is handed out was free and is
handed out once. -/
theorem allocRun_nodup (h : g.IsFat32) (hin : ∀ c, g.InRange c → g.InSector 4 c) (m : Nat)
    (s : State) :
    ∃ vs s', allocRun reliable g m s = (.value vs, s') ∧
      (vs.filter (· ≠ badCluster32)).Nodup ∧
      ∀ v ∈ vs.filter (· ≠ badCluster32), fatValue g s.disk v = 0 := by
  have hb : ∀ c, g.InRange c → g.entOffset 4 c < fatTableSize := fun c hc =>
    Nat.lt_trans (hin c hc) (by decide)
  induction m generalizing s with
  | zero => exact ⟨[], s, rfl, by simp, by simp⟩
  | succ m ih =>
      rcases exists_isFirstFree_or_noFree g s.disk with ⟨x, hx⟩ | hno
      · -- the cluster is marked, so later rounds do not return it
        have hxs := hin x hx.inRange
        obtain ⟨s₁, h₁, hd, -⟩ := allocateFreeFAT_found h hx fun c h₂ hle =>
          hb c ⟨h₂, Nat.lt_of_le_of_lt hle hx.inRange.2⟩
        obtain ⟨vs, s₂, h₂, hnd, hfree⟩ := ih s₁
        rw [hd] at hfree
        refine ⟨x :: vs, s₂, allocRun_succ h₁ h₂, ?_, ?_⟩
        · rw [List.filter_cons]
          split
          · refine List.nodup_cons.mpr ⟨fun hmem => ?_, hnd⟩
            have := hfree x hmem
            rw [fatValue_setFat_self h hxs] at this
            exact absurd this (by decide)
          · exact hnd
        · intro v hv
          obtain ⟨hv₁, hv₂⟩ := List.mem_filter.mp hv
          rcases List.mem_cons.mp hv₁ with rfl | hv₁
          · exact hx.free
          · exact free_of_free_setFat h hxs (hfree v (List.mem_filter.mpr ⟨hv₁, hv₂⟩))
      · -- no cluster is free: the mark for that is filtered out
        obtain ⟨s₁, h₁, hd⟩ := allocateFreeFAT_full h hno hb
        obtain ⟨vs, s₂, h₂, hnd, hfree⟩ := ih s₁
        rw [hd] at hfree
        refine ⟨badCluster32 :: vs, s₂, allocRun_succ h₁ h₂, ?_, ?_⟩
        · simpa using hnd
        · simpa using hfree

/-- Below cluster 128 the index is the offset itself. -/
theorem entOffset_of_lt (h : g.Blocks512) {c : Nat} (hc : c < 128) :
    g.entOffset 4 c = 4 * c := by
  have h₁ := h.one_le
  have h₂ : g.fatOffset 4 c = 4 * c := by
    rw [Globals.fatOffset]
    omega
  rw [Globals.entOffset, h₂, h.clusterSize_eq]
  exact Nat.mod_eq_of_lt (by omega)

theorem inSector_of_lt (h : g.Blocks512) {c : Nat} (hc : c < 128) : g.InSector 4 c := by
  rw [Globals.InSector, entOffset_of_lt h hc]
  omega

/-- With two sectors per cluster the entry of cluster 128 has index 512. -/
theorem entOffset_128 (h : g.Blocks512) (h₂ : 2 ≤ g.sectorsPerCluster) :
    g.entOffset 4 128 = 512 := by
  rw [Globals.entOffset, h.clusterSize_eq, show g.fatOffset 4 128 = 512 from rfl]
  exact Nat.mod_eq_of_lt (by omega)

theorem not_inSector_128 (h : g.Blocks512) (h₂ : 2 ≤ g.sectorsPerCluster) :
    ¬ g.InSector 4 128 := by
  rw [Globals.InSector, entOffset_128 h h₂]
  decide

/-- Handing out a cluster below 128 takes it, and only it, off the count. -/
theorem freeBelow_setFat (h : g.IsFat32) (hx : x < 128) :
    freeBelow g (setFat g d x endCluster32) = (freeBelow g d).erase x := by
  ext c
  simp only [freeBelow, Finset.mem_filter, Finset.mem_range, Finset.mem_erase]
  by_cases hcx : c = x
  · subst hcx
    rw [fatValue_setFat_self h (inSector_of_lt h.toBlocks512 hx)]
    simp [endCluster32]
  · constructor
    · rintro ⟨hc, hr, h₀⟩
      exact ⟨hcx, hc, hr, free_of_free_setFat h (inSector_of_lt h.toBlocks512 hx) h₀⟩
    · rintro ⟨-, hc, hr, h₀⟩
      have ho : g.fatOffset 4 c ≠ g.fatOffset 4 x := by
        simp only [Globals.fatOffset]
        omega
      exact ⟨hc, hr, by rwa [fatValue_setFat_other h ho]⟩

/-- With larger clusters the entry of cluster 128 reads as free and stays so. -/
theorem fatValue_128 (h : g.IsFat32) (h₂ : 2 ≤ g.sectorsPerCluster) (d : Disk) :
    fatValue g d 128 = 0 := fatValue_of_not_inSector (not_inSector_128 h.toBlocks512 h₂)

theorem setFat_128 (h : g.IsFat32) (h₂ : 2 ≤ g.sectorsPerCluster) (d : Disk) (v : Nat) :
    setFat g d 128 v = d := by
  rw [setFat, setEntry_of_not_inSector (not_inSector_128 h.toBlocks512 h₂)]

/-- So the scan ends there at the latest. -/
theorem exists_isFirstFree_le (h : g.IsFat32) (h₂ : 2 ≤ g.sectorsPerCluster)
    (ht : 128 < g.totalClusters) (d : Disk) : ∃ x, IsFirstFree g d x ∧ x ≤ 128 := by
  rcases exists_isFirstFree_or_noFree g d with ⟨x, hx⟩ | hno
  · refine ⟨x, hx, ?_⟩
    by_contra hlt
    exact hx.least 128 (by decide) (by omega) (fatValue_128 h h₂ d)
  · exact absurd (fatValue_128 h h₂ d) (hno 128 ⟨by decide, ht⟩)

theorem entOffset_le_128 (h : g.IsFat32) (h₂ : 2 ≤ g.sectorsPerCluster) {c : Nat}
    (hc : c ≤ 128) : g.entOffset 4 c < fatTableSize := by
  rcases Nat.eq_or_lt_of_le hc with rfl | hlt
  · rw [entOffset_128 h.toBlocks512 h₂]
    decide
  · exact Nat.lt_trans (inSector_of_lt h.toBlocks512 hlt) (by decide)

/-- What is free after a call was free before it. -/
theorem free_of_setFat_le (h : g.IsFat32) (h₂ : 2 ≤ g.sectorsPerCluster) (hx : x ≤ 128) {c : Nat}
    (hc : fatValue g (setFat g d x endCluster32) c = 0) : fatValue g d c = 0 := by
  rcases Nat.eq_or_lt_of_le hx with rfl | hlt
  · rwa [setFat_128 h h₂] at hc
  · exact free_of_free_setFat h (inSector_of_lt h.toBlocks512 hlt) hc

/-- When nothing is free below 128, a second call returns 128 again. -/
theorem nodup_cons_128_iff (hx : IsFirstFree g d 128) {vs : List Nat}
    (hall : ∀ v ∈ vs, 2 ≤ v ∧ v ≤ 128 ∧ fatValue g d v = 0) :
    (128 :: vs).Nodup ↔ vs.length + 1 ≤ (freeBelow g d).card + 1 := by
  have hemp : freeBelow g d = ∅ := by
    refine Finset.filter_eq_empty_iff.mpr ?_
    rintro c hc ⟨hr, h₀⟩
    exact hx.least c hr.1 (Finset.mem_range.mp hc) h₀
  rw [hemp, Finset.card_empty, List.nodup_cons]
  rcases vs with - | ⟨v, vs⟩
  · simp
  · obtain ⟨hv₀, hv₁, hv₂⟩ := hall v (by simp)
    rcases Nat.eq_or_lt_of_le hv₁ with rfl | hvlt
    · simp
    · exact absurd hv₂ (hx.least v hv₀ hvlt)

/-- A cluster below 128 is taken off the count and not returned again. -/
theorem nodup_cons_below_iff (h : g.IsFat32) (hx : IsFirstFree g d x) (hlt : x < 128)
    {vs : List Nat} {m : Nat}
    (hall : ∀ v ∈ vs, 2 ≤ v ∧ v ≤ 128 ∧ fatValue g (setFat g d x endCluster32) v = 0)
    (hiff : vs.Nodup ↔ m ≤ (freeBelow g (setFat g d x endCluster32)).card + 1) :
    (x :: vs).Nodup ↔ m + 1 ≤ (freeBelow g d).card + 1 := by
  have hmem : x ∈ freeBelow g d := by
    simp only [freeBelow, Finset.mem_filter, Finset.mem_range]
    exact ⟨hlt, hx.inRange, hx.free⟩
  have hnot : x ∉ vs := by
    intro hmem'
    have := (hall x hmem').2.2
    rw [fatValue_setFat_self h (inSector_of_lt h.toBlocks512 hlt)] at this
    exact absurd this (by decide)
  have hpos := Finset.card_pos.mpr ⟨x, hmem⟩
  rw [freeBelow_setFat h hlt, Finset.card_erase_of_mem hmem] at hiff
  rw [List.nodup_cons, hiff]
  constructor
  · rintro ⟨-, hle⟩
    omega
  · intro hle
    exact ⟨hnot, by omega⟩

/-- With larger clusters the allocator first hands out what is free below
128, and then cluster 128 again and again. -/
theorem allocRun_beyond (h : g.IsFat32) (h₂ : 2 ≤ g.sectorsPerCluster)
    (ht : 128 < g.totalClusters) (m : Nat) (s : State) :
    ∃ vs s', allocRun reliable g m s = (.value vs, s') ∧ vs.length = m ∧
      (∀ v ∈ vs, 2 ≤ v ∧ v ≤ 128 ∧ fatValue g s.disk v = 0) ∧
      (vs.Nodup ↔ m ≤ (freeBelow g s.disk).card + 1) := by
  induction m generalizing s with
  | zero => exact ⟨[], s, rfl, rfl, by simp, by simp⟩
  | succ m ih =>
      obtain ⟨x, hx, hx128⟩ := exists_isFirstFree_le h h₂ ht s.disk
      obtain ⟨s₁, h₁, hd, -⟩ := allocateFreeFAT_found h hx fun c _ hle =>
        entOffset_le_128 h h₂ (Nat.le_trans hle hx128)
      obtain ⟨vs, s₂, hrun, hlen, hall, hiff⟩ := ih s₁
      rw [hd] at hall hiff
      -- what is free after the round was free before
      have hall' : ∀ v ∈ vs, 2 ≤ v ∧ v ≤ 128 ∧ fatValue g s.disk v = 0 := fun v hv => by
        obtain ⟨hv₀, hv₁, hv₂⟩ := hall v hv
        exact ⟨hv₀, hv₁, free_of_setFat_le h h₂ hx128 hv₂⟩
      refine ⟨x :: vs, s₂, allocRun_succ h₁ hrun, by rw [List.length_cons, hlen], ?_, ?_⟩
      · intro v hv
        rcases List.mem_cons.mp hv with rfl | hv
        · exact ⟨hx.inRange.1, hx128, hx.free⟩
        · exact hall' v hv
      · -- cluster 128 is not marked and comes again, the others do not
        rcases Nat.eq_or_lt_of_le hx128 with rfl | hlt
        · rw [nodup_cons_128_iff hx hall', hlen]
        · exact nodup_cons_below_iff h hx hlt hall hiff

theorem filter_ne_bad_eq_self {vs : List Nat} (h : ∀ v ∈ vs, v ≤ 128) :
    vs.filter (· ≠ badCluster32) = vs := by
  refine List.filter_eq_self.mpr fun v hv => ?_
  have hne : v ≠ badCluster32 := by
    have := h v hv
    rw [badCluster32]
    omega
  exact decide_eq_true hne

end

/-- **Exactly when no cluster is handed out twice.**  One sector per cluster,
or a volume whose whole table lies in one sector, or at most one call more
than there are free clusters below 128. -/
theorem distinctAllocs_iff {g : Globals} (h : g.IsFat32) (s : State) (m : Nat) :
    DistinctAllocs g s m ↔
      g.sectorsPerCluster = 1 ∨ g.totalClusters ≤ 128 ∨ m ≤ (freeBelow g s.disk).card + 1 := by
  by_cases hin : g.sectorsPerCluster = 1 ∨ g.totalClusters ≤ 128
  · -- all entries that are used are stored
    have hin' : ∀ c, g.InRange c → g.InSector 4 c := by
      intro c hc
      rcases hin with h₁ | ht
      · exact h.toBlocks512.inSector_of_one h₁ 4 c
      · exact inSector_of_lt h.toBlocks512 (Nat.lt_of_lt_of_le hc.2 ht)
    obtain ⟨vs, s', hrun, hnd, -⟩ := allocRun_nodup h hin' m s
    refine ⟨fun _ => ?_, fun _ => ⟨vs, s', hrun, hnd⟩⟩
    rcases hin with h₁ | ht
    · exact .inl h₁
    · exact .inr (.inl ht)
  · obtain ⟨h₁, ht⟩ := not_or.mp hin
    have h₂ : 2 ≤ g.sectorsPerCluster := by
      have := h.one_le
      omega
    obtain ⟨vs, s', hrun, -, hall, hiff⟩ := allocRun_beyond h h₂ (by omega) m s
    have hfilter := filter_ne_bad_eq_self fun v hv => (hall v hv).2.1
    simp only [h₁, ht, false_or]
    rw [← hiff]
    -- a run has one result
    constructor
    · rintro ⟨vs', s'', hrun', hnd⟩
      rw [hrun] at hrun'
      cases hrun'
      rwa [hfilter] at hnd
    · intro hnd
      exact ⟨vs, s', hrun, by rwa [hfilter]⟩

theorem twoSectorVolume_isFat32 : twoSectorVolume.IsFat32 where
  toSectors512 := twoSectorVolume_sectors512
  fatType := rfl

/-- On the empty drive the first two calls return different clusters. -/
theorem distinctAllocs_twoSectorVolume : DistinctAllocs twoSectorVolume blankState 2 :=
  (distinctAllocs_iff twoSectorVolume_isFat32 blankState 2).mpr (.inr (.inr (by
    have hmem : 2 ∈ freeBelow twoSectorVolume blankState.disk := by
      simp only [freeBelow, Finset.mem_filter, Finset.mem_range]
      exact ⟨by decide, by decide, by decide⟩
    have := Finset.card_pos.mpr ⟨2, hmem⟩
    omega)))

/-- A machine on whose drive every word is an end mark: all stored entries
are taken. -/
def takenState : State := ⟨fun _ i => leBytes endCluster32 (i % 4), fun _ => 0, 0, []⟩

theorem fatValue_takenState {g : Globals} (h : g.Blocks512) {c : Nat} (hc : g.InSector 4 c) :
    fatValue g takenState.disk c = endCluster32 := by
  have hd := h.dvd_entOffset (.inr rfl) c
  have hw : le (takenState.disk.sector (g.fatSector 4 c)) (g.entOffset 4 c) 4
      = le (leBytes endCluster32) 0 4 := by
    refine le_congr fun i hi => ?_
    show leBytes endCluster32 ((g.entOffset 4 c + i) % 4) = leBytes endCluster32 (0 + i)
    congr 1
    omega
  rw [fatValue, entry, if_pos hc, hw, le_leBytes]
  rfl

/-- With nothing free below 128, two calls both return cluster 128. -/
theorem not_distinctAllocs_twoSectorVolume : ¬ DistinctAllocs twoSectorVolume takenState 2 := by
  rintro ⟨vs, s', hrun, hnd⟩
  obtain ⟨ws, s'', hrun', hlen, hall, hiff⟩ :=
    allocRun_beyond twoSectorVolume_isFat32 (by decide) (by decide) 2 takenState
  rw [hrun] at hrun'
  cases hrun'
  rw [filter_ne_bad_eq_self fun v hv => (hall v hv).2.1, hiff] at hnd
  have hemp : freeBelow twoSectorVolume takenState.disk = ∅ := by
    refine Finset.filter_eq_empty_iff.mpr ?_
    rintro c hc ⟨-, h₀⟩
    rw [fatValue_takenState twoSectorVolume_sectors512.toBlocks512
      (inSector_of_lt twoSectorVolume_sectors512.toBlocks512 (Finset.mem_range.mp hc))] at h₀
    exact absurd h₀ (by decide)
  rw [hemp] at hnd
  exact absurd hnd (by decide)

end PotatoOS
