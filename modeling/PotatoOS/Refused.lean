/-
PotatoOS/Refused.lean

Sectors that cannot be read, on a volume of any geometry.

`FATRead` transfers one sector of the table to memory and copies
`bytes_per_sector` bytes of it.  With other than 512 bytes in a sector the copy
reaches into the memory behind the sector, so the entry of a cluster is a value
of disk and memory, `peek`.  On a drive with bad sectors a call of `FATRead`
is `Missed`, or it `Peeks` at a value, or it has no result at all
(`fatRead_missed`, `fatRead_peeks`, `fatRead_stops`); a write goes through where
a read would (`fatWrite_peeks`).  A cluster is `Legible` if all of its sectors
can be read.  For 512-byte sectors these are the notions of Failing.lean and
Alloc.lean (`fetches_iff`, `peek_image`).
-/
import PotatoOS.Failing

namespace PotatoOS

open Prog

/-! ### A sector of the table -/

/-- The sector of the table for a cluster, as the drive gets it. -/
def Globals.tableLba (g : Globals) (c : Nat) : Nat :=
  lbaOf (programLba ((g.fatSector 4 c + partStartLba) % 2 ^ 32))

/-- The table sector of the cluster can be read, wherever it is. -/
def Fetches (g : Globals) (F : Nat → Bool) (c : Nat) : Prop :=
  (g.fatSector 4 c + 1) % 2 ^ 32 ≤ partLength ∧ F (g.tableLba c) = false

/-- The memory with the table sector of the cluster in the buffer. -/
def tableMem (g : Globals) (d : Disk) (m : Mem) (c : Nat) : Mem :=
  memcpy m diskLocation (d (g.tableLba c)) 512

/-- The entry of a cluster in the local copy, where that is defined. -/
def peek (g : Globals) (d : Disk) (m : Mem) (c : Nat) : Option Nat :=
  if g.bytesPerSector > fatTableSize then none
  else (tableWord (fatTable g (some 0) (tableMem g d m c)) (g.entOffset 4 c) 4).map
    (· &&& 0x0FFFFFFF)

/-- `FATRead` cannot read the table. -/
def Missed (g : Globals) (F : Nat → Bool) (c : Nat) : Prop :=
  g.clusterSize ≠ 0 ∧ ¬Fetches g F c

/-- `FATRead` finds this value. -/
def Peeks (g : Globals) (F : Nat → Bool) (d : Disk) (m : Mem) (c v : Nat) : Prop :=
  g.clusterSize ≠ 0 ∧ Fetches g F c ∧ peek g d m c = some v

/-- The memory after a value was stored in the local copy. -/
def updateMem (g : Globals) (d : Disk) (m : Mem) (c v : Nat) : Mem :=
  memcpy (tableMem g d m c) diskLocation
    (memcpy (fun i => tableMem g d m c (diskLocation + i)) (g.entOffset 4 c) (leBytes v) 4)
    g.bytesPerSector

/-- The disk after that. -/
def updateDisk (g : Globals) (d : Disk) (m : Mem) (c v : Nat) : Disk :=
  writeSector d (g.tableLba c) fun i => updateMem g d m c v (diskLocation + i)

section

variable {g : Globals} {F : Nat → Bool} {d : Disk} {m m' : Mem} {c n v : Nat} {s : State}

theorem tableMem_congr (h : ∀ a, a < diskLocation ∨ diskLocation + 512 ≤ a → m' a = m a) :
    tableMem g d m' c = tableMem g d m c := by
  funext a
  by_cases ha : diskLocation ≤ a ∧ a < diskLocation + 512
  · rw [tableMem, tableMem, memcpy_apply_of_mem ha.1 ha.2, memcpy_apply_of_mem ha.1 ha.2]
  · have hout : a < diskLocation ∨ diskLocation + 512 ≤ a := by omega
    rw [tableMem, tableMem, memcpy_apply_of_notMem hout, memcpy_apply_of_notMem hout, h a hout]

theorem tableWord_isSome {t : Nat → Option UInt8} {a w : Nat} (h : tableWord t a w = some v)
    {i : Nat} (hi : i < w) : t (a + i) ≠ none := by
  induction w generalizing a v i with
  | zero => omega
  | succ w ih =>
      simp only [tableWord, Option.bind_eq_some_iff, Option.map_eq_some_iff] at h
      obtain ⟨b, hb, r, hr, -⟩ := h
      rcases i with - | i
      · rw [Nat.add_zero, hb]
        exact Option.some_ne_none b
      · rw [show a + (i + 1) = a + 1 + i by omega]
        exact ih hr (by omega)

/-- An entry that can be read lies in the local array. -/
theorem peek_bounds (h : peek g d m c = some v) :
    g.bytesPerSector ≤ fatTableSize ∧ g.entOffset 4 c + 4 ≤ fatTableSize ∧ v < 2 ^ 28 := by
  rw [peek] at h
  split at h
  · cases h
  next hb =>
      obtain ⟨u, hu, rfl⟩ := Option.map_eq_some_iff.mp h
      refine ⟨Nat.not_lt.mp hb, ?_, ?_⟩
      · by_contra hlt
        refine tableWord_isSome hu (show 3 < 4 by decide) ?_
        rw [fatTable, if_neg (by omega), if_neg (by omega)]
      · exact Nat.lt_of_le_of_lt Nat.and_le_right (by decide)

/-- With 512 bytes in a sector the transfer is the one of `TableSound`. -/
theorem tableLba_eq (h : g.Blocks512) (c : Nat) :
    g.tableLba c = partStartLba + g.fatSector 4 c := by
  have := (h.fatSector_lt 4 c).2
  exact lbaOf_rebased (by omega)

theorem fetches_iff (h : g.Blocks512) : Fetches g F c ↔ TableSound g F c := by
  have hle := (h.fatSector_lt 4 c).2
  rw [Fetches, TableSound, tableLba_eq h]
  exact and_iff_right (Nat.le_trans (Nat.mod_le _ _) hle)

/-- And the entry is the one on the disk. -/
theorem peek_image (h : g.IsImage) (hb : g.entOffset 4 c < fatTableSize) :
    peek g d m c = some (fatValue g d c) := by
  have hword : tableWord (fatTable g (some 0) (tableMem g d m c)) (g.entOffset 4 c) 4
      = some (entry g 4 d c) := by
    rw [entry]
    -- behind the sector the buffer still holds its zeros
    by_cases hin : g.InSector 4 c
    · have hle := h.entOffset_add_le (.inr rfl) (by decide) hin
      rw [if_pos hin]
      refine tableWord_eq_some fun i hi => ?_
      rw [fatTable, h.bytesPerSector, if_pos (by omega), tableMem, memcpy_apply_add (by omega),
        tableLba_eq h.toBlocks512]
      rfl
    · have hle := h.entOffset_add_le (.inr rfl) (n := fatTableSize) (by decide) hb
      rw [if_neg hin, ← le_zero_mem 0 4]
      refine tableWord_eq_some fun i hi => ?_
      rw [Globals.InSector] at hin
      rw [fatTable, h.bytesPerSector, if_neg (by omega), if_pos (by omega)]
  have hbps : ¬g.bytesPerSector > fatTableSize := by
    rw [h.bytesPerSector]
    decide
  rw [peek, if_neg hbps, hword, Option.map_some, fatValue]
  exact congrArg some (Nat.and_two_pow_sub_one_eq_mod _ 28)

theorem int13hRead_fetched (hb : (n + 1) % 2 ^ 32 ≤ partLength)
    (hF : F (lbaOf (programLba ((n + partStartLba) % 2 ^ 32))) = false) :
    int13hRead (failing F) n 1 s
      = (.value 0, s.load (lbaOf (programLba ((n + partStartLba) % 2 ^ 32))) diskLocation) := by
  rw [int13hRead, int13hReadO_failing 0 hb, if_neg (by rw [hF]; decide)]
  rfl

theorem int13hRead_missed (h : ¬((n + 1) % 2 ^ 32 ≤ partLength ∧
      F (lbaOf (programLba ((n + partStartLba) % 2 ^ 32))) = false)) (s : State) :
    ∃ s', int13hRead (failing F) n 1 s = (.value (-1), s') ∧ s'.disk = s.disk ∧ s'.mem = s.mem := by
  by_cases hb : (n + 1) % 2 ^ 32 ≤ partLength
  · refine ⟨s.miss, ?_, rfl, rfl⟩
    rw [int13hRead, int13hReadO_failing 0 hb, if_pos]
    exact (Bool.not_eq_false _).mp fun hF => h ⟨hb, hF⟩
  · refine ⟨s, ?_, rfl, rfl⟩
    rw [int13hRead, int13hReadO, if_pos (Nat.not_le.mp hb)]
    rfl

theorem int13hWrite_failing (hb : (n + 1) % 2 ^ 32 ≤ partLength) (s : State) :
    int13hWrite (failing F) n 1 s
      = (.value 0, s.store (lbaOf (programLba ((n + partStartLba) % 2 ^ 32))) diskLocation) := by
  rw [int13hWrite, int13hWriteO, if_neg (Nat.not_lt.mpr hb), if_neg (by decide)]
  rfl

variable (h : g.fatType = 32) (hc : g.InRange c)

include h hc

theorem fatRead_missed (hm : Missed g F c) (s : State) :
    ∃ s', fatRead (failing F) g c s = (.value (-1), s') ∧ s'.disk = s.disk ∧ s'.mem = s.mem := by
  obtain ⟨s', hread, hs⟩ := int13hRead_missed hm.2 s
  have hentry : readEntry (failing F) g 4 (some 0) c s = (.value none, s') := by
    simp only [readEntry, if_neg hm.1]
    rw [bind_value hread]
    rfl
  refine ⟨s', ?_, hs⟩
  rw [fatRead, if_neg (not_outOfRange hc), if_pos h, bind_value hentry]
  rfl

theorem fatRead_peeks (hf : Peeks g F s.disk s.mem c v) :
    ∃ s', fatRead (failing F) g c s = (.value v, s') ∧ s'.disk = s.disk ∧
      s'.mem = tableMem g s.disk s.mem c := by
  obtain ⟨h₀, ⟨hb, hF⟩, hp⟩ := hf
  have hread := int13hRead_fetched (s := s) hb hF
  have hbps : ¬g.bytesPerSector > fatTableSize := Nat.not_lt.mpr (peek_bounds hp).1
  rw [peek, if_neg hbps, Option.map_eq_some_iff] at hp
  obtain ⟨u, hu, rfl⟩ := hp
  refine ⟨s.load (g.tableLba c) diskLocation, ?_, rfl, rfl⟩
  have hentry : readEntry (failing F) g 4 (some 0) c s
      = (.value (some u), s.load (g.tableLba c) diskLocation) := by
    simp only [readEntry, if_neg h₀, if_neg hbps]
    rw [bind_value hread]
    simp only [ne_eq, not_true_eq_false, if_false, gets_bind]
    change tableWord (fatTable g (some 0) (s.load (g.tableLba c) diskLocation).mem) _ _ = _ at hu
    rw [← Globals.tableLba, hu]
    rfl
  rw [fatRead, if_neg (not_outOfRange hc), if_pos h, bind_value hentry]
  rfl

/-- Otherwise the call has no result. -/
theorem fatRead_stops (hm : ¬Missed g F c) (hf : ∀ v, ¬Peeks g F s.disk s.mem c v) :
    ∃ e s', fatRead (failing F) g c s = (.stop e, s') := by
  rw [fatRead, if_neg (not_outOfRange hc), if_pos h]
  -- `fatRead` divides by the cluster size first
  by_cases h₀ : g.clusterSize = 0
  · refine ⟨.divideByZero, s, bind_stop ?_⟩
    simp only [readEntry, if_pos h₀]
    rfl
  have hfetch : Fetches g F c := not_not.mp fun hno => hm ⟨h₀, hno⟩
  have hread := int13hRead_fetched (s := s) hfetch.1 hfetch.2
  rw [← Globals.tableLba] at hread
  have hnone : peek g s.disk s.mem c = none :=
    Option.eq_none_iff_forall_ne_some.mpr fun v hv => hf v ⟨h₀, hfetch, hv⟩
  refine ⟨.undefined, s.load (g.tableLba c) diskLocation, bind_stop ?_⟩
  simp only [readEntry, if_neg h₀]
  rw [bind_value hread]
  rw [peek] at hnone
  -- the sector overruns `FAT_table`, or the entry is read behind it
  by_cases hbps : g.bytesPerSector > fatTableSize
  · simp only [if_pos hbps, ne_eq, not_true_eq_false, if_false]
    rfl
  · rw [if_neg hbps, Option.map_eq_none_iff] at hnone
    change tableWord (fatTable g (some 0) (s.load (g.tableLba c) diskLocation).mem) _ _ = _ at hnone
    simp only [if_neg hbps, ne_eq, not_true_eq_false, if_false, gets_bind]
    rw [hnone]
    rfl

theorem fatWrite_missed (hm : Missed g F c) (v : Nat) (s : State) :
    ∃ s', fatWrite (failing F) g c v s = (.value (-1), s') := by
  obtain ⟨s', hread, hs⟩ := int13hRead_missed hm.2 s
  refine ⟨s', ?_⟩
  rw [fatWrite, if_neg (not_outOfRange hc), if_pos h]
  simp only [writeEntry, if_neg hm.1]
  rw [bind_value hread]
  rfl

/-- Where the entry can be read it can be written. -/
theorem fatWrite_peeks {u : Nat} {d' : Disk} (hf : Peeks g F d' m c u) (v : Nat) (s : State) :
    ∃ s', fatWrite (failing F) g c v s = (.value 0, s') ∧
      s'.disk = updateDisk g s.disk s.mem c v ∧ s'.mem = updateMem g s.disk s.mem c v := by
  obtain ⟨h₀, ⟨hb, hF⟩, hp⟩ := hf
  obtain ⟨hbps, hent, -⟩ := peek_bounds hp
  have hread := int13hRead_fetched (s := s) hb hF
  rw [fatWrite, if_neg (not_outOfRange hc), if_pos h]
  simp only [writeEntry, if_neg h₀, if_neg (Nat.not_lt.mpr hbps), if_neg (Nat.not_lt.mpr hent)]
  rw [bind_value hread]
  simp only [ne_eq, not_true_eq_false, if_false, modify_bind]
  rw [bind_value (int13hWrite_failing hb _)]
  exact ⟨_, rfl, rfl, rfl⟩

end

/-! ### A cluster -/

/-- All sectors of the cluster can be read. -/
def Legible (g : Globals) (F : Nat → Bool) (c : Nat) : Prop :=
  g.Transfers c ∧ ∀ i < g.sectorsPerCluster, F (g.lba c + i) = false

/-- The memory with the cluster in the buffer. -/
def clusterMem (g : Globals) (d : Disk) (m : Mem) (c : Nat) : Mem :=
  ((⟨d, m, 0, []⟩ : State).loads (g.lba c) diskLocation g.sectorsPerCluster).mem

section

variable {g : Globals} {F : Nat → Bool} {c n lba buffer : Nat}

theorem loads_mem_congr {s s' : State} (hd : s'.disk = s.disk) (hm : s'.mem = s.mem)
    (lba buffer n : Nat) : (s'.loads lba buffer n).mem = (s.loads lba buffer n).mem := by
  induction n generalizing s s' lba buffer with
  | zero => exact hm
  | succ n ih =>
      rw [State.loads, State.loads]
      refine @ih (s.load lba buffer) (s'.load lba buffer) hd ?_ _ _
      rw [State.load_mem, State.load_mem, hd, hm]

theorem readBlocks_legible (h : ∀ i < n, F (lba + i) = false) (s : State) :
    readBlocks (failing F) lba buffer n s = (.value 0, s.loads lba buffer n) := by
  induction n generalizing lba buffer s with
  | zero => rfl
  | succ n ih =>
      have hF : ¬(failing F).readFails s.tick lba = true := by
        rw [show (failing F).readFails s.tick lba = F (lba + 0) from rfl, h 0 (by omega)]
        decide
      rw [readBlocks, gets_bind, if_neg hF, modify_bind, State.loads]
      refine ih (fun i hi => ?_) _
      rw [show lba + 1 + i = lba + (i + 1) by omega]
      exact h (i + 1) (by omega)

theorem readBlocks_illegible (h : ¬∀ i < n, F (lba + i) = false) (s : State) :
    ∃ s', readBlocks (failing F) lba buffer n s = (.value (-1), s') := by
  induction n generalizing lba buffer s with
  | zero => exact absurd (fun i hi => absurd hi (Nat.not_lt_zero i)) h
  | succ n ih =>
      rw [readBlocks, gets_bind]
      by_cases hF : (failing F).readFails s.tick lba = true
      · rw [if_pos hF]
        exact ⟨_, rfl⟩
      · rw [if_neg hF, modify_bind]
        refine ih (fun hall => h fun i hi => ?_) _
        rcases i with - | i
        · exact (Bool.not_eq_true _).mp hF
        · rw [show lba + (i + 1) = lba + 1 + i by omega]
          exact hall i (by omega)

theorem clusterRead_legible (h : Legible g F c) (s : State) :
    ∃ s', clusterRead (failing F) g c 0 s = (.value 0, s') ∧ s'.disk = s.disk ∧
      s'.mem = clusterMem g s.disk s.mem c := by
  obtain ⟨⟨hc, hp, hle⟩, hF⟩ := h
  refine ⟨s.loads (g.lba c) diskLocation g.sectorsPerCluster, ?_, State.loads_disk s _ _ _,
    @loads_mem_congr ⟨s.disk, s.mem, 0, []⟩ s rfl rfl _ _ _⟩
  have hread : int13hReadO (failing F) (g.startSect c) g.sectorsPerCluster 0 s
      = (.value 0, s.loads (g.lba c) diskLocation g.sectorsPerCluster) := by
    rw [int13hReadO, if_neg (Nat.not_lt.mpr hp), if_neg (Nat.not_lt.mpr hle)]
    exact readBlocks_legible hF s
  rw [clusterRead, if_neg (not_outOfRange hc), Nat.zero_mul, Nat.zero_mul, Nat.zero_mod,
    bind_value hread]
  rfl

theorem clusterRead_illegible (h : ¬Legible g F c) (s : State) :
    ∃ s', clusterRead (failing F) g c 0 s = (.value (-1), s') := by
  by_cases hc : g.InRange c
  swap
  · exact ⟨s, clusterRead_outOfRange _ hc⟩
  have hread : ∃ s', int13hReadO (failing F) (g.startSect c) g.sectorsPerCluster 0 s
      = (.value (-1), s') := by
    rw [int13hReadO]
    split
    · exact ⟨s, rfl⟩
    · split
      · exact ⟨s, rfl⟩
      next hp hle =>
        refine readBlocks_illegible (fun hF => h ⟨⟨hc, ?_, ?_⟩, hF⟩) s
        · exact Nat.not_lt.mp hp
        · exact Nat.not_lt.mp hle
  obtain ⟨s', hread⟩ := hread
  refine ⟨s', ?_⟩
  rw [clusterRead, if_neg (not_outOfRange hc), Nat.zero_mul, Nat.zero_mul, Nat.zero_mod,
    bind_value hread]
  rfl

end

end PotatoOS
