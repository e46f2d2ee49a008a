/-
PotatoOS/Residue.lean

What `putFile` takes from the transfer buffer to the disk.

Two runs of `putFile` start with the same disk and different memories.  All
searches and insertions look only at what they have read themselves, so both
runs come to the same cluster, with the same disk (`Paired`).  The data is
copied to the second cluster of the buffer, and then the whole cluster is
written: behind a short file lies what the memory held before.  A file of at
least one cluster has filled the cluster of the buffer once, and its last
part is followed by its own bytes.

Main result: `putFile_sameDisk_iff`.
-/
import PotatoOS.Halting
import PotatoOS.Links

namespace PotatoOS

open Prog

/-! ### Two states -/

/-- The address lies outside the first cluster of the transfer buffer. -/
def Globals.Outside (g : Globals) (a : Nat) : Prop :=
  a < diskLocation ∨ diskLocation + g.clusterSize ≤ a

/-- Two states with the same disk: outside the first cluster of the buffer
they hold the memories `m` and `m'`, and its first `n` bytes are the same. -/
structure Paired (g : Globals) (m m' : Mem) (n : Nat) (s t : State) : Prop where
  disk : s.disk = t.disk
  left : ∀ a, g.Outside a → s.mem a = m a
  right : ∀ a, g.Outside a → t.mem a = m' a
  known : ∀ i < n, s.mem (diskLocation + i) = t.mem (diskLocation + i)

theorem writeSectors_congr {d : Disk} {lba n : Nat} {src src' : Mem}
    (h : ∀ i < 512 * n, src i = src' i) : writeSectors d lba n src = writeSectors d lba n src' := by
  funext l
  rw [writeSectors, writeSectors]
  split
  · refine memcpy_congr fun i hi => h _ ?_
    omega
  · rfl

section

variable {g : Globals} {m m' : Mem} {n c k : Nat} {s t s' t' : State}

theorem Globals.IsFat32.clusterSize_le (h : g.IsFat32) : g.clusterSize ≤ 65024 := by
  have := h.le
  rw [h.clusterSize_eq]
  omega

theorem Globals.IsFat32.le_clusterSize (h : g.IsFat32) : 512 ≤ g.clusterSize := by
  have := h.one_le
  rw [h.clusterSize_eq]
  omega

namespace Paired

theorem weaken {n' : Nat} (hp : Paired g m m' n s t) (hle : n' ≤ n) : Paired g m m' n' s t where
  disk := hp.disk
  left := hp.left
  right := hp.right
  known i hi := hp.known i (Nat.lt_of_lt_of_le hi hle)

/-- Two memories outside the buffer with what the states hold in it. -/
theorem of_disk (g : Globals) (hd : s.disk = t.disk) : Paired g s.mem t.mem 0 s t where
  disk := hd
  left _ _ := rfl
  right _ _ := rfl
  known i hi := absurd hi (Nat.not_lt_zero i)

/-- The same bytes are copied into the first cluster of the buffer. -/
theorem copy {src src' : Mem} {o len : Nat} (hp : Paired g m m' n s t) (hd : s'.disk = t'.disk)
    (hs : s'.mem = memcpy s.mem (diskLocation + o) src len)
    (ht : t'.mem = memcpy t.mem (diskLocation + o) src' len)
    (hsrc : ∀ i < len, src i = src' i) (hle : o + len ≤ g.clusterSize) :
    Paired g m m' n s' t' where
  disk := hd
  left a ha := by
    rw [hs, memcpy_apply_of_notMem, hp.left a ha]
    rcases ha with ha | ha
    · exact .inl (by omega)
    · exact .inr (by omega)
  right a ha := by
    rw [ht, memcpy_apply_of_notMem, hp.right a ha]
    rcases ha with ha | ha
    · exact .inl (by omega)
    · exact .inr (by omega)
  known i hi := by
    rw [hs, ht, memcpy_congr hsrc]
    exact memcpy_apply_congr (hp.known i hi)

/-- Copied to its start they are known afterwards. -/
theorem copy_front {src src' : Mem} {len : Nat} (hp : Paired g m m' n s t)
    (hd : s'.disk = t'.disk) (hs : s'.mem = memcpy s.mem diskLocation src len)
    (ht : t'.mem = memcpy t.mem diskLocation src' len) (hsrc : ∀ i < len, src i = src' i)
    (hle : len ≤ g.clusterSize) : Paired g m m' len s' t' where
  disk := hd
  left := (hp.copy (o := 0) hd hs ht hsrc (by omega)).left
  right := (hp.copy (o := 0) hd hs ht hsrc (by omega)).right
  known i hi := by rw [hs, ht, memcpy_apply_add hi, memcpy_apply_add hi, hsrc i hi]

theorem loadFat (h : g.IsFat32) (hp : Paired g m m' n s t) (c : Nat) :
    Paired g m m' n (s.loadFat g 4 c) (t.loadFat g 4 c) :=
  hp.copy (o := 0) hp.disk rfl rfl (fun i _ => by rw [hp.disk]) (by
    rw [Nat.zero_add]
    exact h.le_clusterSize)

theorem loadCluster (h : g.IsFat32) (hp : Paired g m m' n s t) (c : Nat) :
    Paired g m m' g.clusterSize (s.loadCluster g c 0) (t.loadCluster g c 0) := by
  have hload : ∀ s : State, (s.loadCluster g c 0).mem
      = memcpy s.mem diskLocation (clusterBytes g s.disk c) g.clusterSize := by
    intro s
    rw [loadCluster_mem_zero s c h.le, h.clusterSize_eq]
  refine hp.copy_front ?_ (hload s) (hload t) (fun i _ => by rw [hp.disk]) (Nat.le_refl _)
  rw [loadCluster_disk, loadCluster_disk, hp.disk]

theorem slotAt (hp : Paired g m m' n s t) (hk : 32 * k + 32 ≤ n) : s.slotAt k = t.slotAt k := by
  funext j
  have hj := j.isLt
  have := hp.known (32 * k + j) (by omega)
  rwa [← Nat.add_assoc] at this

end Paired

/-! ### The table -/

theorem fatRead_alike (h : g.IsFat32) (hp : Paired g m m' n s t) (c : Nat) :
    Alike (Paired g m m' n) (fatRead reliable g c s) (fatRead reliable g c t) := by
  by_cases hc : g.InRange c
  swap
  · rw [Globals.InRange] at hc
    rw [fatRead, if_pos (by omega)]
    exact .same _ hp
  by_cases hoff : g.entOffset 4 c < fatTableSize
  · rw [fatRead_fat32 h hc hoff, fatRead_fat32 h hc hoff, hp.disk]
    exact .same _ (hp.loadFat h c)
  · rw [fatRead_fat32_undefined h hc hoff, fatRead_fat32_undefined h hc hoff]
    exact .same _ (hp.loadFat h c)

/-- A write past the local array is not defined. -/
theorem fatWrite_fat32_undefined {v : Nat} (h : g.IsFat32) (hc : g.InRange c)
    (hoff : ¬ g.entOffset 4 c < fatTableSize) :
    fatWrite reliable g c v s = (.stop .undefined, s.loadFat g 4 c) := by
  have hread : int13hRead reliable (g.fatSector 4 c) 1 s = (.value 0, s.loadFat g 4 c) :=
    int13hRead_reliable s (h.fatSector_lt 4 c).2
  have hsize : ¬ g.clusterSize = 0 := h.clusterSize_pos.ne'
  have hsector : ¬ g.bytesPerSector > fatTableSize := by
    rw [h.bytesPerSector]
    decide
  rw [fatWrite, if_neg (not_outOfRange hc), if_pos h.fatType]
  simp only [writeEntry, if_neg hsize, if_neg hsector]
  rw [bind_value hread]
  simp only [ne_eq, not_true_eq_false, if_false]
  rw [if_pos (by omega)]
  rfl

theorem fatWrite_alike (h : g.IsFat32) (hp : Paired g m m' n s t) (c v : Nat) :
    Alike (Paired g m m' n) (fatWrite reliable g c v s) (fatWrite reliable g c v t) := by
  by_cases hc : g.InRange c
  swap
  · rw [Globals.InRange] at hc
    rw [fatWrite, if_pos (by omega)]
    exact .same _ hp
  by_cases hoff : g.entOffset 4 c < fatTableSize
  · obtain ⟨s', hs, hds, hms⟩ := fatWrite_fat32 (v := v) (s := s) h hc hoff
    obtain ⟨t', ht, hdt, hmt⟩ := fatWrite_fat32 (v := v) (s := t) h hc hoff
    have hd : s'.disk = t'.disk := by rw [hds, hdt, hp.disk]
    rw [hs, ht]
    refine .same _ (hp.copy (o := 0) hd hms hmt (fun i _ => by rw [hd]) ?_)
    rw [Nat.zero_add]
    exact h.le_clusterSize
  · rw [fatWrite_fat32_undefined h hc hoff, fatWrite_fat32_undefined h hc hoff]
    exact .same _ (hp.loadFat h c)

theorem allocLoop_alike (h : g.IsFat32) (free bad last k c : Nat) (hp : Paired g m m' n s t) :
    Alike (Paired g m m' n) (allocLoop reliable g free bad last k c s)
      (allocLoop reliable g free bad last k c t) := by
  induction k generalizing c s t with
  | zero => exact .same _ hp
  | succ k ih =>
      refine (fatRead_alike h hp c).bind fun v s' t' hp' => .ite ?_ (ih _ hp')
      exact (fatWrite_alike h hp' c last).bind fun r s' t' hp' =>
        .ite (.same _ hp') (.same _ hp')

theorem allocateFreeFAT_alike (h : g.IsFat32) (hp : Paired g m m' n s t) :
    Alike (Paired g m m' n) (allocateFreeFAT reliable g s) (allocateFreeFAT reliable g t) := by
  rw [allocateFreeFAT, if_pos h.fatType]
  exact allocLoop_alike h _ _ _ _ _ hp

/-! ### Directories -/

theorem directorySearch_alike (h : g.IsFat32) (filepart : Mem) (fuel c : Nat)
    (hp : Paired g m m' 0 s t) :
    Alike (Paired g m m' 0) (directorySearch reliable g filepart fuel c s)
      (directorySearch reliable g filepart fuel c t) := by
  induction fuel generalizing c s t with
  | zero => exact .same _ hp
  | succ fuel ih =>
      rcases hkey : searchName filepart with - | key
      · rw [directorySearch, hkey]
        exact .ite (.same _ hp) (.same _ hp)
      by_cases ht : g.Transfers c
      swap
      · have hread : ∀ s : State, clusterRead reliable g c 0 s = (.value (-1), s) :=
          fun s => (clusterRead_run h.bytesPerSector).trans (if_neg ht)
        rw [directorySearch, hkey]
        refine .ite (.same _ hp) ?_
        simp only
        rw [bind_value (hread s), bind_value (hread t)]
        exact .same _ hp
      have hl := (hp.loadCluster h c).weaken (Nat.zero_le _)
      rw [directorySearch_cluster h.isImage hkey ht, directorySearch_cluster h.isImage hkey ht,
        hp.disk]
      -- the slots are those of the common disk
      rcases lookup (nameOf key) (dirSlots g t.disk c) with i | - | -
      · exact .same _ hl
      · exact .same _ hl
      · refine (fatRead_alike h hl c).bind fun v s' t' hp' => ?_
        rcases v with v | v
        · exact .ite (.same _ hp') (ih v hp')
        · exact .same _ hp'

/-- The cluster in the buffer goes to the disk as it is. -/
theorem clusterWrite_front_alike {contents contents' : Mem} (h : g.IsFat32)
    (hp : Paired g m m' g.clusterSize s t)
    (hsrc : ∀ i < g.clusterSize, contents i = contents' i) (c : Nat) :
    Alike (Paired g m m' 0) (clusterWrite reliable g contents g.clusterSize 0 c s)
      (clusterWrite reliable g contents' g.clusterSize 0 c t) := by
  have hsize := h.clusterSize_le
  have hfill : ∀ (s : State) (src : Mem), (s.fill g src g.clusterSize 0).mem
      = memcpy s.mem diskLocation src g.clusterSize := by
    intro s src
    rw [State.fill, Globals.bufferAt_zero, memcpy32_eq (by rw [diskLocation]; omega)]
  have hp' : Paired g m m' g.clusterSize (s.fill g contents g.clusterSize 0)
      (t.fill g contents' g.clusterSize 0) :=
    hp.copy_front hp.disk (hfill s _) (hfill t _) hsrc (Nat.le_refl _)
  rw [clusterWrite_run h.bytesPerSector, clusterWrite_run h.bytesPerSector]
  split
  · refine .same _ ?_
    -- the whole cluster was filled, with the same bytes
    have hdisk : ((s.fill g contents g.clusterSize 0).storeCluster g c 0).disk
        = ((t.fill g contents' g.clusterSize 0).storeCluster g c 0).disk := by
      rw [storeCluster_disk, storeCluster_disk, hp'.disk]
      refine writeSectors_congr fun i hi => ?_
      rw [← h.clusterSize_eq] at hi
      rw [Mem.around, Mem.around, Globals.bufferAt_zero,
        Nat.mod_eq_of_lt (by rw [diskLocation]; omega)]
      exact hp'.known i hi
    exact ⟨hdisk, fun a ha => by rw [storeCluster_mem]; exact hp'.left a ha,
      fun a ha => by rw [storeCluster_mem]; exact hp'.right a ha,
      fun i hi => absurd hi (Nat.not_lt_zero i)⟩
  · split
    · exact .same _ (hp'.weaken (Nat.zero_le _))
    · exact .same _ (hp.weaken (Nat.zero_le _))

theorem storeEntry_alike (h : g.IsFat32) (e : DirectoryEntry) (c : Nat)
    (hp : Paired g m m' g.clusterSize s t) (hk : 32 * k + 32 ≤ g.clusterSize) :
    Alike (Paired g m m' 0) (storeEntry reliable g e c k s) (storeEntry reliable g e c k t) := by
  have hweak : ∀ s t, Paired g m m' g.clusterSize s t → Paired g m m' 0 s t :=
    fun s t hp => hp.weaken (Nat.zero_le _)
  refine .ite (.same _ (hweak _ _ hp)) ?_
  refine (allocateFreeFAT_alike h hp).bind_of (fun x s' t' hp' => ?_) hweak
  refine .ite (.same _ (hweak _ _ hp')) ?_
  -- the entry lies over its slot, in the cluster that was read
  have hcopy : Paired g m m' g.clusterSize
      { s' with mem := memcpy s'.mem (diskLocation + 32 * k) (filledIn g e x).bytes 32 }
      { t' with mem := memcpy t'.mem (diskLocation + 32 * k) (filledIn g e x).bytes 32 } :=
    hp'.copy hp'.disk rfl rfl (fun _ _ => rfl) hk
  exact (clusterWrite_front_alike h hcopy hcopy.known c).bind fun r s' t' hp' =>
    .ite (.same _ hp') (.same _ hp')

theorem addSlot_alike (h : g.IsFat32) (e : DirectoryEntry) (c : Nat)
    (hp : Paired g m m' g.clusterSize s t) (hk : 32 * k + 32 ≤ g.clusterSize)
    {taken : Prog State (Int × DirectoryEntry)}
    (htaken : Alike (Paired g m m' 0) (taken s) (taken t)) :
    Alike (Paired g m m' 0) (addSlot reliable g e c k taken s)
      (addSlot reliable g e c k taken t) := by
  rw [addSlot_run, addSlot_run, hp.slotAt hk]
  by_cases hv : Vacant (t.slotAt k)
  · rw [if_pos hv, if_pos hv]
    exact storeEntry_alike h e c hp hk
  · rw [if_neg hv, if_neg hv]
    exact htaken

section

variable {next : Nat → Prog State (Int × DirectoryEntry)}
  (hnext : ∀ c s t, Paired g m m' 0 s t → Alike (Paired g m m' 0) (next c s) (next c t))

include hnext

theorem addNext_alike (h : g.IsFat32) (e : DirectoryEntry) (c : Nat) (hp : Paired g m m' 0 s t) :
    Alike (Paired g m m' 0) (addNext reliable g e c next s) (addNext reliable g e c next t) := by
  refine (fatRead_alike h hp c).bind fun v s' t' hp' => .ite ?_ (hnext _ _ _ hp')
  refine (allocateFreeFAT_alike h hp').bind fun x s' t' hp' => .ite (.same _ hp') ?_
  exact (fatWrite_alike h hp' c x).bind fun r s' t' hp' => .ite (.same _ hp') (hnext _ _ _ hp')

theorem addSlots_alike (h : g.IsFat32) (e : DirectoryEntry) (c : Nat)
    (hp : Paired g m m' g.clusterSize s t) {j count : Nat}
    (hle : 32 * (count + j) + 32 ≤ g.clusterSize) :
    Alike (Paired g m m' 0) (addSlots reliable g e c next j count s)
      (addSlots reliable g e c next j count t) := by
  induction j generalizing count with
  | zero =>
      exact addSlot_alike h e c hp hle (addNext_alike hnext h e c (hp.weaken (Nat.zero_le _)))
  | succ j ih => exact addSlot_alike h e c hp (by omega) (ih (by omega))

end

theorem directoryAdd_alike (h : g.IsFat32) (e : DirectoryEntry) (fuel c : Nat)
    (hp : Paired g m m' 0 s t) :
    Alike (Paired g m m' 0) (directoryAdd reliable g e fuel c s)
      (directoryAdd reliable g e fuel c t) := by
  induction fuel generalizing c s t with
  | zero => exact .same _ hp
  | succ fuel ih =>
      by_cases hl : testIfFATFormat e.bytes = 0
      swap
      · rw [directoryAdd, if_pos hl]
        exact .same _ hp
      rw [directoryAdd_cluster h.isImage hl, directoryAdd_cluster h.isImage hl]
      by_cases ht : g.Transfers c
      · rw [if_pos ht, if_pos ht]
        refine addSlots_alike (fun c s t hp => ih c hp) h e c (hp.loadCluster h c) ?_
        have hone := h.one_le
        rw [h.lastSlot_eq, h.clusterSize_eq]
        omega
      · rw [if_neg ht, if_neg ht]
        exact .same _ hp

/-! ### Up to the data -/

theorem walkLoop_alike (h : g.IsFat32) (fuel : Nat) (path : CString) (j iterator start c : Nat)
    (info : Option DirectoryEntry) (hp : Paired g m m' 0 s t) :
    Alike (Paired g m m' 0) (walkLoop reliable g fuel path j iterator start c info s)
      (walkLoop reliable g fuel path j iterator start c info t) := by
  induction j generalizing iterator start c info s t with
  | zero => exact .same _ hp
  | succ j ih =>
      refine .ite (.ite (.same _ hp) ?_) (ih _ _ _ _ hp)
      refine (directorySearch_alike h _ fuel c hp).bind fun r s' t' hp' => ?_
      rcases r with code | ⟨e, i⟩
      · exact .same _ hp'
      · exact ih _ _ _ _ hp'

theorem findDirectory_alike (h : g.IsFat32) (fuel : Nat) (path : CString)
    (hp : Paired g m m' 0 s t) :
    Alike (Paired g m m' 0) (findDirectory reliable g fuel path s)
      (findDirectory reliable g fuel path t) :=
  .ite (.same _ hp) (.ite (.same _ hp) (walkLoop_alike h fuel path _ _ _ _ _ hp))

theorem putTarget_alike (h : g.IsFat32) (fuel : Nat) (path : CString) (e : DirectoryEntry)
    (output : Mem) (hp : Paired g m m' 0 s t) :
    Alike (Paired g m m' 0) (putTarget reliable g fuel path e output s)
      (putTarget reliable g fuel path e output t) := by
  refine .ite (.same _ hp) (.ite (.same _ hp) ?_)
  refine (findDirectory_alike h fuel path hp).bind fun r s' t' hp' => ?_
  rcases r with code | ⟨c, info⟩
  · exact .same _ hp'
  refine (directorySearch_alike h _ fuel c hp').bind fun r s' t' hp' => ?_
  rcases r with code | found
  · refine .ite (.same _ hp') ?_
    rcases info with - | info
    · exact .same _ hp'
    · exact .ite (.same _ hp') (.same _ hp')
  · exact .same _ hp'

end

/-! ### The data -/

/-- From byte `k` on the second cluster of the buffer is the same. -/
def SameBehind (g : Globals) (k : Nat) (m m' : Mem) : Prop :=
  ∀ i, k ≤ i → i < g.clusterSize →
    m (diskLocation + g.clusterSize + i) = m' (diskLocation + g.clusterSize + i)

section

variable {g : Globals} {m m' contents : Mem} {n c len : Nat} {s t : State}

theorem Globals.IsFat32.bufferAt_one (h : g.IsFat32) :
    g.bufferAt 1 = diskLocation + g.clusterSize := by
  have := h.clusterSize_le
  rw [Globals.bufferAt, h.clusterSize_eq, diskLocation]
  rw [h.clusterSize_eq] at this
  omega

/-- The memory with data in the second cluster of the buffer. -/
def Globals.withData (g : Globals) (m contents : Mem) (len : Nat) : Mem :=
  memcpy m (diskLocation + g.clusterSize) contents len

theorem fill_data (h : g.IsFat32) (hlen : len ≤ g.clusterSize + 1) (s : State) :
    (s.fill g contents len 1).mem = g.withData s.mem contents len := by
  have := h.clusterSize_le
  rw [State.fill, h.bufferAt_one, memcpy32_eq (by rw [diskLocation]; omega)]
  rfl

theorem Paired.fill (h : g.IsFat32) (hlen : len ≤ g.clusterSize + 1) (hp : Paired g m m' n s t)
    (contents : Mem) :
    Paired g (g.withData m contents len) (g.withData m' contents len) n (s.fill g contents len 1)
      (t.fill g contents len 1) where
  disk := hp.disk
  left a ha := by
    rw [fill_data h hlen]
    exact memcpy_apply_congr (hp.left a ha)
  right a ha := by
    rw [fill_data h hlen]
    exact memcpy_apply_congr (hp.right a ha)
  known i hi := by
    rw [fill_data h hlen, fill_data h hlen]
    exact memcpy_apply_congr (hp.known i hi)

/-- Only what is not overwritten can differ. -/
theorem sameBehind_withData_iff :
    SameBehind g 0 (g.withData m contents len) (g.withData m' contents len)
      ↔ SameBehind g len m m' := by
  have hbehind : ∀ (m : Mem) i, len ≤ i → g.withData m contents len
      (diskLocation + g.clusterSize + i) = m (diskLocation + g.clusterSize + i) :=
    fun m i hi => memcpy_apply_of_notMem (.inr (by omega))
  constructor
  · intro hsame i hle hlt
    rw [← hbehind m i hle, ← hbehind m' i hle]
    exact hsame i (Nat.zero_le i) hlt
  · intro hsame i _ hlt
    by_cases hi : i < len
    · rw [Globals.withData, Globals.withData, memcpy_apply_add hi, memcpy_apply_add hi]
    · rw [hbehind m i (by omega), hbehind m' i (by omega)]
      exact hsame i (by omega) hlt

/-- A cluster that is written from the second cluster of the buffer is the
same on both disks exactly when the buffer is. -/
theorem storeCluster_sameDisk_iff (h : g.IsFat32) (hp : Paired g m m' n s t) :
    (s.storeCluster g c 1).disk = (t.storeCluster g c 1).disk ↔ SameBehind g 0 m m' := by
  have hsize := h.clusterSize_le
  have houtside : ∀ i, g.Outside (diskLocation + g.clusterSize + i) :=
    fun i => .inr (Nat.le_add_right _ _)
  have hsrc : ∀ i < g.clusterSize, ∀ m : Mem,
      m.around (diskLocation + g.clusterSize) i = m (diskLocation + g.clusterSize + i) := by
    intro i hi m
    rw [Mem.around, Nat.mod_eq_of_lt (by rw [diskLocation]; omega)]
  rw [storeCluster_disk, storeCluster_disk, hp.disk, h.bufferAt_one]
  constructor
  · -- the bytes of the cluster are those of the buffer
    intro hd i _ hi
    have hbyte := congrArg (fun d : Disk => d.bytesFrom (g.lba c) i) hd
    rw [bytesFrom_writeSectors (by rwa [← h.clusterSize_eq]),
      bytesFrom_writeSectors (by rwa [← h.clusterSize_eq]), hsrc i hi, hsrc i hi] at hbyte
    rw [← hp.left _ (houtside i), ← hp.right _ (houtside i)]
    exact hbyte
  · intro hsame
    refine writeSectors_congr fun i hi => ?_
    rw [← h.clusterSize_eq] at hi
    rw [hsrc i hi, hsrc i hi, hp.left _ (houtside i), hp.right _ (houtside i)]
    exact hsame i (Nat.zero_le i) hi

theorem Paired.storeCluster (h : g.IsFat32) (hp : Paired g m m' 0 s t) (hsame : SameBehind g 0 m m')
    (c : Nat) : Paired g m m' 0 (s.storeCluster g c 1) (t.storeCluster g c 1) where
  disk := (storeCluster_sameDisk_iff h hp).mpr hsame
  left a ha := by
    rw [storeCluster_mem]
    exact hp.left a ha
  right a ha := by
    rw [storeCluster_mem]
    exact hp.right a ha
  known i hi := absurd hi (Nat.not_lt_zero i)

end

/-! ### The write loop -/

/-- The disks are the same. -/
def SameDisk (s t : State) : Prop := s.disk = t.disk

section

variable {g : Globals} {m m' contents : Mem} {fuel size left c : Nat} {s t : State}

/-- One round of the loop, at a cluster that can be written. -/
theorem writeLoop_transfers (h : g.IsFat32) (hleft : left ≠ 0) (ht : g.Transfers c) :
    writeLoop reliable g contents size (fuel + 1) left c s =
      let len := if left ≥ g.clusterSize then g.clusterSize + 1 else left
      let offset := (size + (2 ^ 32 - left)) % 2 ^ 32
      (if (left + (2 ^ 32 - len)) % 2 ^ 32 = 0 then pure 0
        else do
          let newCluster ← allocateFreeFAT reliable g
          if g.isBadMark newCluster then return -1
          if (← fatWrite reliable g c newCluster) ≠ 0 then return -1
          writeLoop reliable g contents size fuel ((left + (2 ^ 32 - len)) % 2 ^ 32) newCluster :
        Prog State Int)
        ((s.fill g (fun i => contents (offset + i)) len 1).storeCluster g c 1) := by
  rw [writeLoop, if_neg hleft]
  have hw : ∀ (src : Mem) (len : Nat), clusterWrite reliable g src len 1 c s
      = (.value 0, (s.fill g src len 1).storeCluster g c 1) :=
    fun src len => (clusterWrite_run h.bytesPerSector).trans (if_pos ht)
  simp only
  rw [bind_value (hw _ _)]
  rfl

/-- At any other cluster it ends without a write. -/
theorem writeLoop_unwritten (contents : Mem) (size fuel : Nat) (s : State) (h : g.IsFat32)
    (hleft : left ≠ 0) (ht : ¬ g.Transfers c) :
    (writeLoop reliable g contents size (fuel + 1) left c s).1 = .value (-1) ∧
      (writeLoop reliable g contents size (fuel + 1) left c s).2.disk = s.disk := by
  have hw : ∀ (src : Mem) (len : Nat), ∃ s', clusterWrite reliable g src len 1 c s
      = (.value (-1), s') ∧ s'.disk = s.disk := by
    intro src len
    rw [clusterWrite_run h.bytesPerSector, if_neg ht]
    split
    · exact ⟨_, rfl, rfl⟩
    · exact ⟨_, rfl, rfl⟩
  rw [writeLoop, if_neg hleft]
  simp only
  obtain ⟨s', hrun, hd⟩ := hw (fun i => contents ((size + (2 ^ 32 - left)) % 2 ^ 32 + i))
    (if left ≥ g.clusterSize then g.clusterSize + 1 else left)
  rw [bind_value hrun]
  exact ⟨rfl, hd⟩

theorem writeLoop_unwritten_alike (contents : Mem) (size fuel : Nat) (h : g.IsFat32)
    (hd : s.disk = t.disk) (hleft : left ≠ 0) (ht : ¬ g.Transfers c) :
    Alike SameDisk (writeLoop reliable g contents size (fuel + 1) left c s)
      (writeLoop reliable g contents size (fuel + 1) left c t) := by
  obtain ⟨hs₁, hs₂⟩ := writeLoop_unwritten contents size fuel s h hleft ht
  obtain ⟨ht₁, ht₂⟩ := writeLoop_unwritten contents size fuel t h hleft ht
  exact ⟨hs₁.trans ht₁.symm, hs₂.trans (hd.trans ht₂.symm)⟩

/-- How much of the data a round copies. -/
theorem writtenLength_le (g : Globals) (left : Nat) :
    (if left ≥ g.clusterSize then g.clusterSize + 1 else left) ≤ g.clusterSize + 1 := by
  split
  · exact Nat.le_refl _
  · omega

/-- Behind that much both runs have the same bytes. -/
theorem sameBehind_writtenLength (hleft : left ≠ 0)
    (hsame : left = 0 ∨ g.clusterSize ≤ left ∨ SameBehind g left m m') :
    SameBehind g (if left ≥ g.clusterSize then g.clusterSize + 1 else left) m m' := by
  intro i hi hlt
  by_cases hfull : left ≥ g.clusterSize
  · rw [if_pos hfull] at hi
    omega
  · rw [if_neg hfull] at hi
    rcases hsame with h₀ | h₁ | hsame
    · exact absurd h₀ hleft
    · exact absurd h₁ hfull
    · exact hsame i hi hlt

/-- With the same bytes behind the data both runs write the same. -/
theorem writeLoop_alike (h : g.IsFat32) (hp : Paired g m m' 0 s t)
    (hsame : left = 0 ∨ g.clusterSize ≤ left ∨ SameBehind g left m m') :
    Alike SameDisk (writeLoop reliable g contents size fuel left c s)
      (writeLoop reliable g contents size fuel left c t) := by
  induction fuel generalizing left c s t m m' with
  | zero => exact .same _ hp.disk
  | succ fuel ih =>
      by_cases hleft : left = 0
      · rw [writeLoop, if_pos hleft]
        exact .same _ hp.disk
      by_cases ht : g.Transfers c
      swap
      · exact writeLoop_unwritten_alike contents size fuel h hp.disk hleft ht
      rw [writeLoop_transfers h hleft ht, writeLoop_transfers h hleft ht]
      simp only
      -- what is written, and what lies in the buffer behind it
      have hle := writtenLength_le g left
      have hbehind := sameBehind_writtenLength hleft hsame
      generalize (if left ≥ g.clusterSize then g.clusterSize + 1 else left) = len at hle hbehind ⊢
      have hfill := hp.fill h hle fun i => contents ((size + (2 ^ 32 - left)) % 2 ^ 32 + i)
      have hp' := hfill.storeCluster h (sameBehind_withData_iff.mpr hbehind) c
      refine .ite (.same _ hp'.disk) ?_
      refine (allocateFreeFAT_alike h hp').bind_of (fun x s' t' hp' => ?_) fun _ _ hp => hp.disk
      refine .ite (.same _ hp'.disk) ?_
      refine (fatWrite_alike h hp' c x).bind_of (fun r s' t' hp' => ?_) fun _ _ hp => hp.disk
      -- in the next round all of the buffer is the same
      refine .ite (.same _ hp'.disk) (ih hp' (.inr (.inr fun i _ hlt => ?_)))
      exact sameBehind_withData_iff.mpr hbehind i (Nat.zero_le i) hlt

/-- What both runs of the loop come to. -/
theorem writeLoop_sameDisk_iff (contents : Mem) (size fuel left c : Nat) (h : g.IsFat32)
    (hp : Paired g m m' 0 s t) :
    (writeLoop reliable g contents size fuel left c s).1
        = (writeLoop reliable g contents size fuel left c t).1 ∧
      (SameDisk (writeLoop reliable g contents size fuel left c s).2
          (writeLoop reliable g contents size fuel left c t).2 ↔
        (writeLoop reliable g contents size fuel left c s).1 ≠ .value 0 ∨ left = 0 ∨
          g.clusterSize ≤ left ∨ SameBehind g left m m') := by
  by_cases hsame : left = 0 ∨ g.clusterSize ≤ left ∨ SameBehind g left m m'
  · obtain ⟨ho, hd⟩ := writeLoop_alike h hp hsame
    exact ⟨ho, iff_of_true hd (.inr hsame)⟩
  -- a short file: the loop has one round
  obtain ⟨hleft, hshort⟩ := not_or.mp hsame
  obtain ⟨hfull, hbehind⟩ := not_or.mp hshort
  rcases fuel with - | fuel
  · exact ⟨rfl, iff_of_true hp.disk (.inl fun h => by cases h)⟩
  by_cases ht : g.Transfers c
  swap
  · obtain ⟨ho, hd⟩ := writeLoop_unwritten_alike contents size fuel h hp.disk hleft ht
    refine ⟨ho, iff_of_true hd (.inl ?_)⟩
    rw [(writeLoop_unwritten contents size fuel s h hleft ht).1]
    simp
  have hsize := h.clusterSize_le
  have hdone : (left + (2 ^ 32 - left)) % 2 ^ 32 = 0 := by omega
  rw [writeLoop_transfers h hleft ht, writeLoop_transfers h hleft ht]
  simp only [if_neg hfull, hdone, if_true]
  refine ⟨rfl, iff_of_false ?_ ?_⟩
  · intro hd
    exact hbehind (sameBehind_withData_iff.mp
      ((storeCluster_sameDisk_iff h (hp.fill h (by omega) _)).mp hd))
  · rintro (hv | hcond)
    · exact hv rfl
    · exact hsame hcond

end

/-! ### Up to the data -/

/-- `putFile` up to its write loop: the cluster for the data and the entry
with its fields filled in, or what it returns. -/
def putPlace (env : Env) (g : Globals) (fuel : Nat) (filePath : CString)
    (fileMeta : DirectoryEntry) (output output' : Mem) :
    Prog State (Except (Int × DirectoryEntry) (Nat × DirectoryEntry)) := do
  match ← putTarget env g fuel filePath fileMeta output with
  | .error code => return .error (code, fileMeta)
  | .ok activeCluster =>
      let (code, fileMeta) ← directoryAdd env g fileMeta fuel activeCluster
      if code ≠ 0 then return .error (-1, fileMeta)
      match ← directorySearch env g (convertFromFATFormat fileMeta.bytes output') fuel
        activeCluster with
      | .error code => return .error (if code = -2 then -2 else -1, fileMeta)
      | .ok (fileInfo, _) => return .ok (getClusterFromEntry g fileInfo, fileMeta)

/-- What `putFile` does behind that. -/
def putData (env : Env) (g : Globals) (fuel : Nat) (fileContents : Mem) :
    Except (Int × DirectoryEntry) (Nat × DirectoryEntry) → Prog State (Int × DirectoryEntry)
  | .error r => pure r
  | .ok (cluster, fileMeta) => do
      let code ← writeLoop env g fileContents fileMeta.fileSize fuel fileMeta.fileSize cluster
      return (code, fileMeta)

/-- What `putPlace` returns: an error, or an entry of the same size. -/
def PlacedAs (e : DirectoryEntry) : Except (Int × DirectoryEntry) (Nat × DirectoryEntry) → Prop
  | .error r => r.1 ≠ 0
  | .ok p => p.2.fileSize = e.fileSize

/-- A failed insertion, or an entry of the same size. -/
def AddedAs (e : DirectoryEntry) (r : Int × DirectoryEntry) : Prop :=
  r.1 = 0 → r.2.fileSize = e.fileSize

section

variable {env : Env} {g : Globals} {e : DirectoryEntry} {c : Nat}

theorem AddedAs.failed (e e' : DirectoryEntry) : AddedAs e (-1, e') :=
  fun h => absurd h (by decide : ¬ (-1 : Int) = 0)

theorem storeEntry_addedAs (k : Nat) : Yields (AddedAs e) (storeEntry env g e c k) := by
  refine .ite (.pure (.failed _ _)) (.bind fun x => .ite (.pure (.failed _ _)) ?_)
  refine .bind fun _ => .bind fun mem => .bind fun r => .ite (.pure (.failed _ _)) ?_
  exact .pure fun _ => fileSize_filledIn g e x

theorem directoryAdd_addedAs (fuel : Nat) : Yields (AddedAs e) (directoryAdd env g e fuel c) := by
  induction fuel generalizing c with
  | zero => exact .halt _
  | succ fuel ih =>
      have hnext : Yields (AddedAs e) (addNext env g e c (directoryAdd env g e fuel)) :=
        .bind fun v => .ite (.bind fun x => .ite (.pure (.failed _ _))
          (.bind fun r => .ite (.pure (.failed _ _)) ih)) ih
      have hslots : ∀ j count, Yields (AddedAs e)
          (addSlots env g e c (directoryAdd env g e fuel) j count) := by
        intro j
        induction j with
        | zero => exact fun count => .bind fun _ => .ite hnext (storeEntry_addedAs _)
        | succ j ihj => exact fun count => .bind fun _ => .ite (ihj _) (storeEntry_addedAs _)
      exact .ite (.pure (.failed _ _)) (.bind fun r => .ite (.pure (.failed _ _)) (hslots _ _))

theorem putTarget_yields (fuel : Nat) (path : CString) (e : DirectoryEntry) (output : Mem) :
    Yields (fun r => ∀ code, r = .error code → code ≠ 0)
      (putTarget env g fuel path e output) := by
  -- every way out of the checks returns a code of its own, none of them 0
  have hcode : ∀ {code : Int}, code ≠ 0 → Yields (fun r => ∀ code, r = .error code → code ≠ 0)
      (pure (.error code) : Prog State (Except Int Nat)) := by
    intro code hcode
    refine .pure fun c hc => ?_
    cases hc
    exact hcode
  refine .ite (hcode (by decide)) (.ite (hcode (by decide)) ?_)
  have hfind : Yields IsErrorCode (findDirectory env g fuel path) :=
    .ite (.pure trivial) (walkPath_yields env g fuel path)
  refine .bind_of hfind fun r hr => ?_
  rcases r with code | ⟨c, info⟩
  · refine hcode ?_
    rcases hr with rfl | rfl
    · decide
    · decide
  refine .bind fun r => ?_
  rcases r with code | found
  · refine .ite (hcode (by decide)) ?_
    rcases info with - | info
    · exact .halt _
    · refine .ite (.pure fun code hc => ?_) (hcode (by decide))
      cases hc
  · exact hcode (by decide)

theorem putPlace_yields (fuel : Nat) (path : CString) (e : DirectoryEntry) (output output' : Mem) :
    Yields (PlacedAs e) (putPlace env g fuel path e output output') := by
  refine .bind_of (putTarget_yields fuel path e output) fun r hr => ?_
  rcases r with code | c
  · exact .pure (hr code rfl)
  refine .bind_of (directoryAdd_addedAs fuel) fun r hr => ?_
  obtain ⟨code, e'⟩ := r
  show Yields (PlacedAs e) (if code ≠ 0 then _ else _)
  -- a failed insertion returns -1; after one that succeeds the entry is looked up again
  by_cases hcode : code = 0
  swap
  · rw [if_pos hcode]
    exact .pure (by decide : ¬ (-1 : Int) = 0)
  rw [if_neg (not_not.mpr hcode)]
  refine .bind fun found => ?_
  rcases found with code | ⟨info, k⟩
  · refine .pure ?_
    show (if code = -2 then (-2 : Int) else -1) ≠ 0
    split
    · decide
    · decide
  · exact .pure (hr hcode)

theorem putFile_eq_putPlace (fuel : Nat) (path : CString) (contents : Mem) (e : DirectoryEntry)
    (output output' : Mem) :
    putFile env g fuel path contents e output output'
      = putPlace env g fuel path e output output' >>= putData env g fuel contents := by
  rw [putFile, putPlace, bind_assoc]
  refine bind_congr fun r => ?_
  rcases r with code | c
  · rfl
  show putStore env g fuel contents e output' c = _ >>= _
  rw [putStore, bind_assoc]
  refine bind_congr fun r => ?_
  obtain ⟨code, e'⟩ := r
  show (if code ≠ 0 then _ else _) = (if code ≠ 0 then _ else _) >>= _
  by_cases hcode : code ≠ 0
  · rw [if_pos hcode, if_pos hcode]
    rfl
  · rw [if_neg hcode, if_neg hcode, bind_assoc]
    refine bind_congr fun found => ?_
    rcases found with code | ⟨info, k⟩
    · rfl
    · rfl

end

section

variable {g : Globals} {m m' : Mem} {s t : State} {e : DirectoryEntry}

theorem putPlace_alike (h : g.IsFat32) (fuel : Nat) (path : CString) (e : DirectoryEntry)
    (output output' : Mem) (hp : Paired g m m' 0 s t) :
    Alike (Paired g m m' 0) (putPlace reliable g fuel path e output output' s)
      (putPlace reliable g fuel path e output output' t) := by
  refine (putTarget_alike h fuel path e output hp).bind fun r s' t' hp' => ?_
  rcases r with code | c
  · exact .same _ hp'
  refine (directoryAdd_alike h e fuel c hp').bind fun r s' t' hp' => .ite (.same _ hp') ?_
  refine (directorySearch_alike h _ fuel c hp').bind fun found s' t' hp' => ?_
  rcases found with code | ⟨info, k⟩
  · exact .same _ hp'
  · exact .same _ hp'

/-! ### Files -/

/-- The run has returned zero: the file is stored. -/
def Stored (r : Outcome (Int × DirectoryEntry) × State) : Prop := ∃ e, r.1 = .value (0, e)

/-- The data, once both runs have come to the same cluster. -/
theorem putData_sameDisk_iff (h : g.IsFat32) (hp : Paired g m m' 0 s t) (fuel : Nat)
    (contents : Mem) (c : Nat) (e : DirectoryEntry) :
    (putData reliable g fuel contents (.ok (c, e)) s).1
        = (putData reliable g fuel contents (.ok (c, e)) t).1 ∧
      ((putData reliable g fuel contents (.ok (c, e)) s).2.disk
          = (putData reliable g fuel contents (.ok (c, e)) t).2.disk ↔
        ¬ Stored (putData reliable g fuel contents (.ok (c, e)) s) ∨ e.fileSize = 0 ∨
          g.clusterSize ≤ e.fileSize ∨ SameBehind g e.fileSize m m') := by
  rw [putData]
  obtain ⟨ho, hiff⟩ := writeLoop_sameDisk_iff contents e.fileSize fuel e.fileSize c h hp
  rcases hws : writeLoop reliable g contents e.fileSize fuel e.fileSize c s with ⟨o, s'⟩
  rcases hwt : writeLoop reliable g contents e.fileSize fuel e.fileSize c t with ⟨o', t'⟩
  rw [hws, hwt] at ho hiff
  obtain rfl : o = o' := ho
  -- a code of the loop is returned with the entry; a run that stops is not `Stored`
  rcases o with code | stop
  · rw [bind_value hws, bind_value hwt]
    refine ⟨rfl, hiff.trans (or_congr_left (not_congr ⟨?_, ?_⟩))⟩
    · intro hcode
      cases hcode
      exact ⟨e, rfl⟩
    · rintro ⟨e', he'⟩
      cases he'
      rfl
  · rw [bind_stop hws, bind_stop hwt]
    refine ⟨rfl, hiff.trans (or_congr_left (not_congr ⟨?_, ?_⟩))⟩
    · intro hcode
      cases hcode
    · rintro ⟨e', he'⟩
      cases he'

/-- Two calls of `putFile` that differ in the memory they start with return the
same, and leave the same disk exactly when the file is not stored, is empty or
fills a cluster, or the memories hold the same where the rest of its cluster
is taken from. -/
theorem putFile_sameDisk_iff (h : g.IsFat32) (hd : s.disk = t.disk) (fuel : Nat) (path : CString)
    (contents : Mem) (e : DirectoryEntry) (output output' : Mem) :
    (putFile reliable g fuel path contents e output output' s).1
        = (putFile reliable g fuel path contents e output output' t).1 ∧
      ((putFile reliable g fuel path contents e output output' s).2.disk
          = (putFile reliable g fuel path contents e output output' t).2.disk ↔
        ¬ Stored (putFile reliable g fuel path contents e output output' s) ∨ e.fileSize = 0 ∨
          g.clusterSize ≤ e.fileSize ∨ SameBehind g e.fileSize s.mem t.mem) := by
  have halike := putPlace_alike h fuel path e output output' (Paired.of_disk g hd)
  have hyields : ∀ r, (putPlace reliable g fuel path e output output' s).1 = .value r →
      PlacedAs e r := putPlace_yields fuel path e output output' s
  rw [putFile_eq_putPlace]
  rcases hs : putPlace reliable g fuel path e output output' s with ⟨o, s'⟩
  rcases ht : putPlace reliable g fuel path e output output' t with ⟨o', t'⟩
  rw [hs, ht] at halike
  rw [hs] at hyields
  obtain ⟨rfl, hp⟩ : o = o' ∧ Paired g s.mem t.mem 0 s' t' := halike
  rcases o with (r | ⟨c, e'⟩) | stop
  · -- an error before the data
    rw [bind_value hs, bind_value ht]
    refine ⟨rfl, iff_of_true hp.disk (.inl ?_)⟩
    rintro ⟨e', he'⟩
    cases he'
    exact hyields _ rfl rfl
  · have hsize : e'.fileSize = e.fileSize := hyields _ rfl
    rw [bind_value hs, bind_value ht, ← hsize]
    exact putData_sameDisk_iff h hp fuel contents c e'
  · rw [bind_stop hs, bind_stop ht]
    refine ⟨rfl, iff_of_true hp.disk (.inl ?_)⟩
    rintro ⟨e', he'⟩
    cases he'

end

/-! ### A file of one byte -/

/-- The empty volume in a machine whose buffer was used before. -/
def usedState (m : Mem) : State := { emptyState with mem := m }

/-- What lay in front of the second cluster of the buffer does not matter. -/
theorem afterByteCall_usedFront :
    (afterByteCall emptyState).disk
      = (afterByteCall (usedState fun a => if a < diskLocation + 512 then 0x66 else 0)).disk := by
  rw [afterByteCall, afterByteCall]
  have hd : emptyState.disk
      = (usedState fun a => if a < diskLocation + 512 then 0x66 else 0).disk := rfl
  refine (putFile_sameDisk_iff smallVolume_isVolume.toIsFat32 hd 3 rootPath (fun _ => 0x55)
    byteEntry (fun _ => 0) (fun _ => 0)).2.mpr (.inr (.inr (.inr fun i _ _ => ?_)))
  have hle : ¬ diskLocation + smallVolume.clusterSize + i < diskLocation + 512 := by
    rw [smallVolume_isVolume.clusterSize_eq_512]
    omega
  show (0 : UInt8)
    = if diskLocation + smallVolume.clusterSize + i < diskLocation + 512 then 0x66 else 0
  rw [if_neg hle]

/-- What lay behind the byte goes to the disk. -/
theorem afterByteCall_residue :
    smallVolume.IsFat32 ∧ emptyState.disk = (usedState fun _ => 0x66).disk ∧
      (afterByteCall emptyState).disk (smallVolume.lba 3) 1 = 0 ∧
      (afterByteCall (usedState fun _ => 0x66)).disk (smallVolume.lba 3) 1 = 0x66 :=
  ⟨smallVolume_isVolume.toIsFat32, rfl, by decide +kernel, by decide +kernel⟩

end PotatoOS
