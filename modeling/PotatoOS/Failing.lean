/-
PotatoOS/Failing.lean

Reads that fail: what `getFile` returns on a drive with bad sectors.

The loop of `getFile` does not look at the result of its data reads, so a
cluster that cannot be read leaves in its window of memory what was there
before, and the call still succeeds; nor does it compare the length of the
chain with the size of the file.  `contentAfter` says what lies in each window
of 512 bytes when the loop has ended (`getFile_content`): the last cluster
that was read to it, and in the window that all table reads go to the table
sector of the last cluster.

A failed read of a directory or of the table ends the call with a code, so
`FoundSafe` and `TableSound` are what success needs on the way.  Main result:
`readsReported_iff`.
-/
import PotatoOS.Fetch

namespace PotatoOS

open Prog

/-! ### A drive with bad sectors -/

/-- The drive on which the reads of some sectors fail. -/
def failing (F : Nat → Bool) : Env := ⟨fun _ lba => F lba, fun _ _ => false⟩

/-- A FAT32 volume with 512-byte sectors and one sector in a cluster. -/
structure Globals.Single (g : Globals) : Prop extends IsFat32 g where
  one : g.sectorsPerCluster = 1

/-- The cluster can be read. -/
def Sound (g : Globals) (F : Nat → Bool) (c : Nat) : Prop :=
  g.Transfers c ∧ F (g.lba c) = false

/-- The table sector of the cluster can be read. -/
def TableSound (g : Globals) (F : Nat → Bool) (c : Nat) : Prop :=
  F (partStartLba + g.fatSector 4 c) = false

instance (g : Globals) (F : Nat → Bool) (c : Nat) : Decidable (Sound g F c) :=
  inferInstanceAs (Decidable (_ ∧ _))

instance (g : Globals) (F : Nat → Bool) (c : Nat) : Decidable (TableSound g F c) :=
  inferInstanceAs (Decidable (_ = _))

section

variable {g : Globals} {F : Nat → Bool} {c n off : Nat} {s : State}

theorem Globals.Single.entOffset_lt (h : g.Single) (c : Nat) : g.entOffset 4 c < fatTableSize :=
  Nat.lt_trans (h.toBlocks512.inSector_of_one h.one 4 c) (by decide)

/-- One block: the drive fails or reads it. -/
theorem int13hReadO_failing (off : Nat) (h : (n + 1) % 2 ^ 32 ≤ partLength) :
    int13hReadO (failing F) n 1 off s =
      if F (lbaOf (programLba ((n + partStartLba) % 2 ^ 32))) = true then (.value (-1), s.miss)
      else (.value 0, s.load (lbaOf (programLba ((n + partStartLba) % 2 ^ 32)))
        ((diskLocation + off) % 2 ^ 32)) := by
  rw [int13hReadO, if_neg (Nat.not_lt.mpr h), if_neg (by decide)]
  simp only [readBlocks, gets_bind]
  by_cases hF : F (lbaOf (programLba ((n + partStartLba) % 2 ^ 32))) = true
  · rw [if_pos hF, if_pos (show (failing F).readFails s.tick _ = true from hF)]
    rfl
  · rw [if_neg hF, if_neg (show ¬ (failing F).readFails s.tick _ = true from hF)]
    rfl

theorem clusterRead_sound (h : g.Single) (hs : Sound g F c) (off : Nat) (s : State) :
    clusterRead (failing F) g c off s = (.value 0, s.loadCluster g c off) := by
  obtain ⟨⟨hc, hp, -⟩, hF⟩ := hs
  rw [Globals.OnPartition, h.one] at hp
  have hread := int13hReadO_failing (F := F) (s := s)
    (off * g.sectorsPerCluster * g.bytesPerSector % 2 ^ 32) hp
  rw [if_neg (by rw [← Globals.lba, hF]; decide), Nat.add_mod_mod, h.bytesPerSector, h.one] at hread
  rw [clusterRead, if_neg (not_outOfRange hc), h.bytesPerSector, h.one, bind_value hread,
    State.loadCluster, Globals.bufferAt, h.one]
  rfl

/-- A failed read leaves disk and memory as they are. -/
theorem clusterRead_unsound (h : g.Single) (hs : ¬ Sound g F c) (off : Nat) (s : State) :
    ∃ s', clusterRead (failing F) g c off s = (.value (-1), s') ∧ s'.disk = s.disk ∧
      s'.mem = s.mem := by
  by_cases hc : g.InRange c
  swap
  · exact ⟨s, clusterRead_outOfRange _ hc, rfl, rfl⟩
  by_cases hp : g.OnPartition c
  swap
  · refine ⟨s, ?_, rfl, rfl⟩
    rw [clusterRead, if_neg (not_outOfRange hc), int13hReadO, if_pos (Nat.not_le.mp hp)]
    rfl
  -- only the sector itself is left
  have hF : F (g.lba c) = true := by
    by_contra hF
    exact hs ⟨⟨hc, hp, h.le⟩, by simpa using hF⟩
  refine ⟨s.miss, ?_, rfl, rfl⟩
  rw [Globals.OnPartition, h.one] at hp
  have hread := int13hReadO_failing (F := F) (s := s)
    (off * g.sectorsPerCluster * g.bytesPerSector % 2 ^ 32) hp
  rw [← Globals.lba, if_pos hF, h.one] at hread
  rw [clusterRead, if_neg (not_outOfRange hc), h.one, bind_value hread]
  rfl

theorem int13hRead_failing (h : n + 1 ≤ partLength) :
    int13hRead (failing F) n 1 s = if F (partStartLba + n) = true then (.value (-1), s.miss)
      else int13hRead reliable n 1 s := by
  have hlen : (n + 1) % 2 ^ 32 ≤ partLength := Nat.le_trans (Nat.mod_le _ _) h
  rw [int13hRead_reliable s h, int13hRead, int13hReadO_failing 0 hlen, lbaOf_rebased (by omega)]
  rfl

theorem fatRead_sound (h : g.Single) (hc : g.InRange c) (hs : TableSound g F c) :
    fatRead (failing F) g c s = (.value (fatValue g s.disk c : Nat), s.loadFat g 4 c) := by
  have hread : int13hRead (failing F) (g.fatSector 4 c) 1 s
      = int13hRead reliable (g.fatSector 4 c) 1 s := by
    rw [int13hRead_failing (h.fatSector_lt 4 c).2, if_neg]
    rw [show F (partStartLba + g.fatSector 4 c) = false from hs]
    decide
  have hsize : ¬ g.clusterSize = 0 := h.clusterSize_pos.ne'
  rw [← fatRead_fat32 h.toIsFat32 hc (h.entOffset_lt c), fatRead, fatRead,
    if_neg (not_outOfRange hc), if_neg (not_outOfRange hc), if_pos h.fatType, if_pos h.fatType]
  refine bind_congr_left ?_
  simp only [readEntry, if_neg hsize]
  exact bind_congr_left hread

theorem fatRead_unsound (h : g.Single) (hs : ¬ TableSound g F c) (s : State) :
    ∃ s', fatRead (failing F) g c s = (.value (-1), s') := by
  by_cases hc : g.InRange c
  swap
  · refine ⟨s, ?_⟩
    rw [Globals.InRange] at hc
    rw [fatRead, if_pos (by omega)]
    rfl
  have hread : int13hRead (failing F) (g.fatSector 4 c) 1 s = (.value (-1), s.miss) := by
    rw [int13hRead_failing (h.fatSector_lt 4 c).2, if_pos (by simpa [TableSound] using hs)]
  have hsize : ¬ g.clusterSize = 0 := h.clusterSize_pos.ne'
  have hentry : readEntry (failing F) g 4 (some 0) c s = (.value none, s.miss) := by
    simp only [readEntry, if_neg hsize]
    rw [bind_value hread]
    rfl
  refine ⟨s.miss, ?_⟩
  rw [fatRead, if_neg (not_outOfRange hc), if_pos h.fatType, bind_value hentry]
  rfl

end

/-! ### Paths -/

/-- The search finds the entry, and can read all sectors on the way. -/
inductive FoundSafe (g : Globals) (F : Nat → Bool) (d : Disk) (name : Name) :
    Nat → DirectoryEntry → Prop
  | here {c i : Nat} : Sound g F c → lookup name (dirSlots g d c) = .hit i →
      FoundSafe g F d name c (dirSlot g d c i)
  | next {c b : Nat} {e : DirectoryEntry} : Sound g F c → lookup name (dirSlots g d c) = .pass →
      TableSound g F c → nextCluster g d c = some b → FoundSafe g F d name b e →
      FoundSafe g F d name c e

/-- The disk is `d`, and so is the memory `m` outside the sector of the buffer
that directories and table are read to. -/
structure Beside (d : Disk) (m : Mem) (s : State) : Prop where
  disk : s.disk = d
  mem : ∀ a, a < diskLocation ∨ diskLocation + 512 ≤ a → s.mem a = m a

section

variable {g : Globals} {F : Nat → Bool} {d : Disk} {m : Mem} {c fuel : Nat} {s s' : State}
  {key filepart : Mem} {e : DirectoryEntry}

theorem Beside.loadCluster (h : g.Single) (hs : Beside d m s) (c : Nat) :
    Beside d m (s.loadCluster g c 0) := by
  refine ⟨(loadCluster_disk s g c 0).trans hs.disk, fun a ha => ?_⟩
  rw [loadCluster_mem_zero s c h.le, h.one, memcpy_apply_of_notMem ha]
  exact hs.mem a ha

theorem Beside.loadFat (hs : Beside d m s) (g : Globals) (c : Nat) :
    Beside d m (s.loadFat g 4 c) := by
  refine ⟨hs.disk, fun a ha => ?_⟩
  rw [State.loadFat, State.load_mem, memcpy_apply_of_notMem ha]
  exact hs.mem a ha

theorem FoundSafe.run (h : g.Single) (hkey : searchName filepart = some key)
    (hf : FoundSafe g F d (nameOf key) c e) :
    ∃ N k, ∀ fuel ≥ N, ∀ s : State, s.disk = d →
      (directorySearch (failing F) g filepart fuel c s).1 = .value (.ok (e, k)) := by
  induction hf with
  | @here c i hs hl =>
      refine ⟨1, i, ?_⟩
      rintro (_ | fuel) hfuel s rfl
      · cases hfuel
      · rw [directorySearch_loaded h.toIsFat32 hkey hs.1.1 (clusterRead_sound h hs 0 s), hl]
  | @next c b e hs hl ht hn _ ih =>
      obtain ⟨N, k, hN⟩ := ih
      refine ⟨N + 1, k, ?_⟩
      rintro (_ | fuel) hfuel s rfl
      · cases hfuel
      · rw [directorySearch_loaded h.toIsFat32 hkey hs.1.1 (clusterRead_sound h hs 0 s), hl]
        simp only
        rw [searchNext_run h.toIsFat32 (fatRead_sound h hs.1.1 ht), loadCluster_disk, hn]
        exact hN fuel (Nat.le_of_succ_le_succ hfuel) _ (loadCluster_disk s g c 0)

theorem FoundSafe.of_run (h : g.Single) (hkey : searchName filepart = some key)
    (hs : Beside d m s) {k : Nat}
    (hrun : directorySearch (failing F) g filepart fuel c s = (.value (.ok (e, k)), s')) :
    FoundSafe g F d (nameOf key) c e ∧ Beside d m s' := by
  induction fuel generalizing c s with
  | zero => cases hrun
  | succ fuel ih =>
      by_cases hc : Sound g F c
      swap
      · -- a directory that cannot be read is an error
        obtain ⟨s₁, hread, -⟩ := clusterRead_unsound h hc 0 s
        have hcode : (directorySearch (failing F) g filepart (fuel + 1) c s).1
            = .value (.error (-1)) := directorySearch_unread hkey hread
        rw [hrun] at hcode
        cases hcode
      have hs₁ := hs.loadCluster h c
      rw [directorySearch_loaded h.toIsFat32 hkey hc.1.1 (clusterRead_sound h hc 0 s),
        hs.disk] at hrun
      rcases hl : lookup (nameOf key) (dirSlots g d c) with i | - | -
      · rw [hl] at hrun
        cases hrun
        exact ⟨.here hc hl, hs₁⟩
      · rw [hl] at hrun
        cases hrun
      rw [hl] at hrun
      by_cases ht : TableSound g F c
      swap
      · -- so is a table that cannot
        obtain ⟨s₂, hread⟩ := fatRead_unsound h ht (s.loadCluster g c 0)
        simp only [searchNext] at hrun
        rw [bind_value hread] at hrun
        cases hrun
      simp only at hrun
      rw [searchNext_run h.toIsFat32 (fatRead_sound h hc.1.1 ht), hs₁.disk] at hrun
      rcases hn : nextCluster g d c with - | b
      · rw [hn] at hrun
        cases hrun
      · rw [hn] at hrun
        obtain ⟨hf, hs'⟩ := ih (hs₁.loadFat g c) hrun
        exact ⟨.next hc hl ht hn hf, hs'⟩

theorem FoundSafe.foundIn {name : Name} (h : g.Single) (hf : FoundSafe g F d name c e) :
    FoundIn g d name c e := by
  induction hf with
  | here hs hl => exact .here hs.1 hl
  | @next c b e hs hl _ hn _ ih =>
      exact .next (searchLink_eq_some_iff.mpr ⟨⟨hs.1, hl, h.entOffset_lt c⟩, hn⟩) ih

theorem searchSpec_failing (h : g.Single) (F : Nat → Bool) (d : Disk) (m : Mem) :
    SearchSpec (failing F) g (FoundSafe g F d) (Beside d m) where
  run := by
    intro part key c e hkey hf
    obtain ⟨N, k, hN⟩ := hf.run h hkey
    exact ⟨N, k, fun fuel hfuel s hs => hN fuel hfuel s hs.disk⟩
  of_run hs hkey hrun := FoundSafe.of_run h hkey hs hrun

end

/-! ### The chain of a file -/

/-- The clusters of a file, up to the end mark. -/
inductive FileChain (g : Globals) (d : Disk) : Nat → List Nat → Prop
  | done {c : Nat} : ¬ toSigned c < endCluster32 → FileChain g d c []
  | next {c b : Nat} {l : List Nat} : readLink g d c = some b → FileChain g d b l →
      FileChain g d c (c :: l)

/-- The window of memory that the loop reads a cluster to, by its position. -/
def window (pos : Nat) : Nat := (512 + pos) % 2 ^ 23

/-- The last cluster of a list that is read to the window; the first cluster
has the given position. -/
def lastReadTo (g : Globals) (F : Nat → Bool) (W : Nat) : Nat → List Nat → Option Nat
  | _, [] => none
  | pos, a :: l =>
      (lastReadTo g F W (pos + 1) l).or (if window pos = W ∧ Sound g F a then some a else none)

/-- What lies in a window of memory after the clusters were read. -/
def contentAfter (g : Globals) (F : Nat → Bool) (d : Disk) (m : Mem) (pos : Nat) (l : List Nat)
    (W : Nat) : Mem := fun j =>
  if W = 512 then
    -- all table reads go to this window, behind the data of the same round
    match l.getLast? with
    | some a => d.sector (g.fatSector 4 a) j
    | none => m (512 * W + j)
  else
    match lastReadTo g F W pos l with
    | some a => clusterBytes g d a j
    | none => m (512 * W + j)

section

variable {g : Globals} {F : Nat → Bool} {d : Disk} {m m' : Mem} {c b pos W j fuel : Nat}
  {s s' : State} {l l' : List Nat}

theorem FileChain.unique (hl : FileChain g d c l) (hl' : FileChain g d c l') : l = l' := by
  induction hl generalizing l' with
  | done hend =>
      cases hl' with
      | done => rfl
      | next hb => exact absurd (readLink_eq_some_iff.mp hb).1.1 hend
  | next hb _ ih =>
      cases hl' with
      | done hend => exact absurd (readLink_eq_some_iff.mp hb).1.1 hend
      | next hb' hl' =>
          rw [hb] at hb'
          cases hb'
          rw [ih hl']

theorem bufferAt_eq_window (h : g.Single) (pos : Nat) : g.bufferAt pos = 512 * window pos := by
  rw [Globals.bufferAt, window, h.one, diskLocation]
  omega

/-- The state after a round of the loop: the data if they can be read, then the
table sector. -/
def State.failingRound (s : State) (g : Globals) (F : Nat → Bool) (c pos : Nat) : Mem :=
  memcpy (if Sound g F c then memcpy s.mem (g.bufferAt pos) (clusterBytes g s.disk c) 512
    else s.mem) diskLocation (s.disk.sector (g.fatSector 4 c)) 512

theorem failingRound_window (h : g.Single) (s : State) (c pos : Nat) (hW : W ≠ 512) (hj : j < 512) :
    s.failingRound g F c pos (512 * W + j)
      = if window pos = W ∧ Sound g F c then clusterBytes g s.disk c j
        else s.mem (512 * W + j) := by
  have hout : 512 * W + j < diskLocation ∨ diskLocation + 512 ≤ 512 * W + j := by
    rw [diskLocation]
    omega
  rw [State.failingRound, memcpy_apply_of_notMem hout]
  by_cases hs : Sound g F c
  · rw [if_pos hs, bufferAt_eq_window h]
    by_cases hw : window pos = W
    · rw [if_pos ⟨hw, hs⟩, hw, memcpy_apply_add hj]
    · rw [if_neg fun h' => hw h'.1, memcpy_apply_of_notMem]
      omega
  · rw [if_neg hs, if_neg fun h' => hs h'.2]

theorem failingRound_table (s : State) (c pos : Nat) (hj : j < 512) :
    s.failingRound g F c pos (512 * 512 + j) = s.disk.sector (g.fatSector 4 c) j := by
  rw [State.failingRound]
  exact memcpy_apply_add hj

/-- Reading a list of clusters is one round, then the rest. -/
theorem contentAfter_cons (h : g.Single) (s : State) (pos : Nat) (l : List Nat) (W : Nat)
    (hj : j < 512) :
    contentAfter g F s.disk (s.failingRound g F c pos) (pos + 1) l W j
      = contentAfter g F s.disk s.mem pos (c :: l) W j := by
  rw [contentAfter, contentAfter]
  -- the window of the table, and all others
  by_cases hW : W = 512
  · subst hW
    rw [if_pos rfl, if_pos rfl]
    rcases l with - | ⟨a, l⟩
    · exact failingRound_table s c pos hj
    · rw [List.getLast?_cons_cons]
      rfl
  · rw [if_neg hW, if_neg hW, lastReadTo]
    rcases lastReadTo g F W (pos + 1) l with - | a
    · rw [Option.none_or]
      simp only
      rw [failingRound_window h s c pos hW hj]
      split
      · rfl
      · rfl
    · rfl

/-- One round of the loop. -/
theorem readLoop_failing_link (h : g.Single) (s : State) (count off : Nat) (hc : c < 2 ^ 32)
    (hb : readLink g s.disk c = some b) (ht : TableSound g F c) :
    ∃ s', s'.disk = s.disk ∧ s'.mem = s.failingRound g F c (count + off) ∧
      ∀ fuel, readLoop (failing F) g off (fuel + 1) (toSigned c) count s
        = readLoop (failing F) g off fuel (toSigned b) (count + 1) s' := by
  obtain ⟨⟨hlt, hcont⟩, rfl⟩ := readLink_eq_some_iff.mp hb
  have hbuf : g.bufferAt ((count + off) % 2 ^ 32) = g.bufferAt (count + off) := by
    rw [bufferAt_eq_window h, bufferAt_eq_window h, window, window]
    omega
  -- the data read leaves `m₁` in memory, whatever its code
  obtain ⟨r, s₁, hread, hd₁, hm₁⟩ : ∃ r s₁, clusterRead (failing F) g c ((count + off) % 2 ^ 32) s
      = (.value r, s₁) ∧ s₁.disk = s.disk ∧ s₁.mem = if Sound g F c then
        memcpy s.mem (g.bufferAt (count + off)) (clusterBytes g s.disk c) 512 else s.mem := by
    by_cases hs : Sound g F c
    · refine ⟨0, _, clusterRead_sound h hs _ s, loadCluster_disk _ _ _ _, ?_⟩
      have hfit : g.bufferAt (count + off) + 512 ≤ 2 ^ 32 := by
        rw [bufferAt_eq_window h, window]
        omega
      rw [if_pos hs, loadCluster_mem _ _ _ h.le, h.one, hbuf, memcpy32_eq hfit]
    · obtain ⟨s₁, hread, hd₁, hm₁⟩ := clusterRead_unsound h hs ((count + off) % 2 ^ 32) s
      exact ⟨-1, s₁, hread, hd₁, by rw [hm₁, if_neg hs]⟩
  have hfat := fatRead_sound (s := s₁) h hcont.1 ht
  rw [hd₁] at hfat
  refine ⟨s₁.loadFat g 4 c, hd₁, ?_, fun fuel => ?_⟩
  · rw [State.loadFat, State.load_mem, hm₁, hd₁, State.failingRound]
    rfl
  · have h₁ : ¬ ((fatValue g s.disk c : Nat) : Int) = badCluster32 := by
      have := hcont.2.2
      omega
    have h₂ : ¬ ((fatValue g s.disk c : Nat) : Int) = -1 := by omega
    rw [readLoop, if_pos hlt, toUnsigned_toSigned hc, bind_value hread, bind_value hfat]
    show (if ((fatValue g s.disk c : Nat) : Int) = badCluster32 then _ else
      if ((fatValue g s.disk c : Nat) : Int) = -1 then _ else _ : Prog State Int) _ = _
    rw [if_neg h₁, if_neg h₂, toSigned_fatValue]

/-- Where there is no link, or its sector cannot be read, the loop fails. -/
theorem readLoop_failing_stop (h : g.Single) (s : State) (count off : Nat) (hc : c < 2 ^ 32)
    (hlt : toSigned c < endCluster32) (hno : ¬ (TableSound g F c ∧ Continues g s.disk c)) :
    (readLoop (failing F) g off (fuel + 1) (toSigned c) count s).1 = .value (-1) := by
  -- the result of the data read does not matter
  obtain ⟨r, s₁, hread, hd₁⟩ : ∃ r s₁, clusterRead (failing F) g c ((count + off) % 2 ^ 32) s
      = (.value r, s₁) ∧ s₁.disk = s.disk := by
    by_cases hs : Sound g F c
    · exact ⟨0, _, clusterRead_sound h hs _ s, loadCluster_disk _ _ _ _⟩
    · obtain ⟨s₁, hread, hd₁, -⟩ := clusterRead_unsound h hs ((count + off) % 2 ^ 32) s
      exact ⟨-1, s₁, hread, hd₁⟩
  rw [readLoop, if_pos hlt, toUnsigned_toSigned hc, bind_value hread]
  by_cases ht : TableSound g F c
  swap
  · obtain ⟨s₂, hfat⟩ := fatRead_unsound h ht s₁
    rw [bind_value hfat]
    rfl
  by_cases hin : g.InRange c
  swap
  · have hfat : fatRead (failing F) g c s₁ = (.value (-1), s₁) := by
      rw [Globals.InRange] at hin
      rw [fatRead, if_pos (by omega)]
      rfl
    rw [bind_value hfat]
    rfl
  -- the table was read, so it says that the cluster is bad
  have hbad : fatValue g s.disk c = badCluster32 := by
    by_contra hbad
    exact hno ⟨ht, hin, h.entOffset_lt c, hbad⟩
  have hfat := fatRead_sound (s := s₁) h hin ht
  rw [hd₁, hbad] at hfat
  rw [bind_value hfat]
  rfl

/-- The loop reads a chain to its end, and this is what it leaves in memory. -/
theorem FileChain.run (h : g.Single) (off : Nat) (hl : FileChain g d c l)
    (ht : ∀ a ∈ l, TableSound g F a) (hc : c < 2 ^ 32) :
    ∀ fuel > l.length, ∀ count (s : State), s.disk = d →
      ∃ s', readLoop (failing F) g off fuel (toSigned c) count s = (.value 0, s') ∧
        ∀ W j, j < 512 → s'.mem (512 * W + j) = contentAfter g F d s.mem (count + off) l W j := by
  -- one cluster is one round, which moves the position by one
  induction hl with
  | @done c hend =>
      rintro (_ | fuel) hfuel count s -
      · cases hfuel
      · refine ⟨s, ?_, fun W j _ => ?_⟩
        · rw [readLoop, if_neg hend]
          rfl
        · rw [contentAfter]
          split
          · rfl
          · rfl
  | @next c b l hb _ ih =>
      rintro (_ | fuel) hfuel count s rfl
      · cases hfuel
      · obtain ⟨s₁, hd₁, hm₁, hround⟩ := readLoop_failing_link h s count off hc hb
          (ht c List.mem_cons_self)
        obtain ⟨s', hrun, hcontent⟩ := ih (fun a ha => ht a (List.mem_cons_of_mem _ ha))
          (readLink_lt hb) fuel (Nat.lt_of_succ_lt_succ hfuel) (count + 1) s₁ hd₁
        refine ⟨s', (hround fuel).trans hrun, fun W j hj => ?_⟩
        rw [hcontent W j hj, hm₁, Nat.add_right_comm count 1, contentAfter_cons h s _ l W hj]

/-- A loop that succeeds has read a chain to its end. -/
theorem FileChain.of_run (h : g.Single) {count off : Nat} (hc : c < 2 ^ 32)
    (hrun : (readLoop (failing F) g off fuel (toSigned c) count s).1 = .value 0) :
    ∃ l, FileChain g s.disk c l ∧ ∀ a ∈ l, TableSound g F a := by
  induction fuel generalizing c count s with
  | zero => cases hrun
  | succ fuel ih =>
      by_cases hlt : toSigned c < endCluster32
      swap
      · exact ⟨[], .done hlt, by simp⟩
      -- a round that does not go on ends the loop with a code that is not 0
      by_cases hgo : TableSound g F c ∧ Continues g s.disk c
      swap
      · rw [readLoop_failing_stop h s count off hc hlt hgo] at hrun
        cases hrun
      have hb := readLink_eq_some_iff.mpr ⟨⟨hlt, hgo.2⟩, rfl⟩
      obtain ⟨s₁, hd₁, -, hround⟩ := readLoop_failing_link h s count off hc hb hgo.1
      rw [hround fuel] at hrun
      obtain ⟨l, hl, ht⟩ := ih (readLink_lt hb) hrun
      rw [hd₁] at hl
      refine ⟨c :: l, .next hb hl, fun a ha => ?_⟩
      rcases List.mem_cons.mp ha with rfl | ha
      · exact hgo.1
      · exact ht a ha

end

/-! ### Files -/

/-- Whenever `getFile` returns zero, the bytes that it points to are those of
the file's clusters, for the whole size of the file. -/
def ReadsReported (g : Globals) (F : Nat → Bool) (s : State) (path : CString) (off : Nat) : Prop :=
  ∀ fuel r s', getFile (failing F) g fuel path off s = (.value r, s') → r.code = 0 →
    ∃ e p l, r.fileMeta = some e ∧ r.fileContents = some p ∧
      FileChain g s.disk (getClusterFromEntry g e) l ∧ e.fileSize ≤ 512 * l.length ∧
      ∀ i < e.fileSize, s'.mem ((p + i) % 2 ^ 32)
        = clusterBytes g s.disk (l.getD (i / 512) 0) (i % 512)

/-- What the loop leaves in the windows of a file is the file. -/
def Delivers (g : Globals) (F : Nat → Bool) (d : Disk) (m : Mem) (off size : Nat) (l : List Nat) :
    Prop :=
  size ≤ 512 * l.length ∧ ∀ i < size, contentAfter g F d m off l (window (off + i / 512)) (i % 512)
    = clusterBytes g d (l.getD (i / 512) 0) (i % 512)

section

variable {g : Globals} {F : Nat → Bool} {s : State} {path : CString} {off : Nat}

/-- Behind the path only the first sector of the buffer has changed, and the
loop overwrites it. -/
theorem contentAfter_beside {d : Disk} {m m' : Mem} {pos W j : Nat} {l : List Nat} (hl : l ≠ [])
    (hm : ∀ a, a < diskLocation ∨ diskLocation + 512 ≤ a → m' a = m a) (hj : j < 512) :
    contentAfter g F d m' pos l W j = contentAfter g F d m pos l W j := by
  rw [contentAfter, contentAfter]
  by_cases hW : W = 512
  · rw [if_pos hW, if_pos hW, List.getLast?_eq_some_getLast hl]
  · have hout : 512 * W + j < diskLocation ∨ diskLocation + 512 ≤ 512 * W + j := by
      rw [diskLocation]
      omega
    rw [if_neg hW, if_neg hW, hm _ hout]

theorem pointer_add (h : g.Single) (off i : Nat) :
    ((diskLocation + g.sectorsPerCluster * g.bytesPerSector * off) % 2 ^ 32 + i) % 2 ^ 32
      = 512 * window (off + i / 512) + i % 512 := by
  rw [h.one, h.bytesPerSector, diskLocation, window]
  omega

/-- The bytes that a successful call points to. -/
theorem getFile_content (h : g.Single) {fuel : Nat} {e : DirectoryEntry} {l : List Nat}
    {s₁ s' : State} (hs₁ : Beside s.disk s.mem s₁)
    (hloop : readLoop (failing F) g off fuel (toSigned (getClusterFromEntry g e)) 0 s₁
      = (.value 0, s')) (hl : FileChain g s.disk (getClusterFromEntry g e) l)
    (ht : ∀ a ∈ l, TableSound g F a) (hne : l ≠ []) (i : Nat) :
    s'.mem (((diskLocation + g.sectorsPerCluster * g.bytesPerSector * off) % 2 ^ 32 + i) % 2 ^ 32)
      = contentAfter g F s.disk s.mem off l (window (off + i / 512)) (i % 512) := by
  have hj := Nat.mod_lt i (show 512 > 0 by decide)
  -- with a larger budget the loop does the same
  obtain ⟨s'', hrun, hcontent⟩ := hl.run h off ht (getClusterFromEntry_lt g e)
    (max fuel (l.length + 1)) (Nat.lt_of_lt_of_le (Nat.lt_succ_self _) (Nat.le_max_right _ _)) 0 s₁
    hs₁.disk
  rw [(readLoop_mono (Nat.le_max_left fuel (l.length + 1)) off _ 0).value hloop] at hrun
  cases hrun
  rw [pointer_add h, hcontent _ _ hj, Nat.zero_add, contentAfter_beside hne hs₁.mem hj]

theorem ne_nil_of_lt {size i : Nat} {l : List Nat} (hlen : size ≤ 512 * l.length) (hi : i < size) :
    l ≠ [] := by
  rintro rfl
  rw [List.length_nil, Nat.mul_zero] at hlen
  omega

/-- A file that a call reads to its end is delivered, if failures are reported. -/
theorem ReadsReported.delivers (h : g.Single) (hall : ReadsReported g F s path off)
    (es : List DirectoryEntry) {e : DirectoryEntry} {l : List Nat}
    (htrail : Trail g (FoundSafe g F s.disk) (piecesOf path) g.rootCluster (es ++ [e]))
    (hfile : ¬ e.isDirectory) (hsize : SizeOk g e off)
    (hl : FileChain g s.disk (getClusterFromEntry g e) l) (ht : ∀ a ∈ l, TableSound g F a) :
    Delivers g F s.disk s.mem off e.fileSize l := by
  obtain ⟨N, hN⟩ := htrail.run (searchSpec_failing h F s.disk s.mem)
  obtain ⟨s₁, hes, hs₁⟩ := hN (max N (l.length + 1)) (Nat.le_max_left _ _) s ⟨rfl, fun _ _ => rfl⟩
  obtain ⟨s', hloop, -⟩ := hl.run h off ht (getClusterFromEntry_lt g e) (max N (l.length + 1))
    (Nat.lt_of_lt_of_le (Nat.lt_succ_self _) (Nat.le_max_right _ _)) 0 s₁ hs₁.disk
  obtain ⟨e', p, l', he', hp, hl', hlen, hbytes⟩ := hall _ _ _
    (getFile_of_read h.fatType h.bytesPerSector hes hfile hsize hloop) rfl
  cases he'
  cases hp
  obtain rfl := hl.unique hl'
  refine ⟨hlen, fun i hi => ?_⟩
  rw [← getFile_content h hs₁ hloop hl ht (ne_nil_of_lt hlen hi) i]
  exact hbytes i hi

/-- Failed reads are reported exactly when every file that a call reads to its
end lies completely in its windows. -/
theorem readsReported_iff (h : g.Single) :
    ReadsReported g F s path off ↔
      ∀ es e l, Trail g (FoundSafe g F s.disk) (piecesOf path) g.rootCluster (es ++ [e]) →
        ¬ e.isDirectory → SizeOk g e off → FileChain g s.disk (getClusterFromEntry g e) l →
        (∀ a ∈ l, TableSound g F a) → Delivers g F s.disk s.mem off e.fileSize l := by
  constructor
  · intro hall es e l htrail hfile hsize hl ht
    exact hall.delivers h es htrail hfile hsize hl ht
  · intro hall fuel r s' hrun hr
    obtain ⟨es, e, s₁, hes, hfile, hsize, hloop, rfl⟩ :=
      getFile_eq_zero h.fatType h.bytesPerSector hrun hr
    obtain ⟨htrail, hs₁⟩ := Trail.of_run (searchSpec_failing h F s.disk s.mem)
      ⟨rfl, fun _ _ => rfl⟩ hes
    obtain ⟨l, hl, ht⟩ := FileChain.of_run h (getClusterFromEntry_lt g e)
      (congrArg Prod.fst hloop)
    rw [hs₁.disk] at hl
    obtain ⟨hlen, hbytes⟩ := hall es e l htrail hfile hsize hl ht
    refine ⟨e, _, l, rfl, rfl, hl, hlen, fun i hi => ?_⟩
    rw [getFile_content h hs₁ hloop hl ht (ne_nil_of_lt hlen hi) i]
    exact hbytes i hi

end

/-! ### A file with a bad sector -/

theorem smallVolume_single : smallVolume.Single where
  toIsFat32 := smallVolume_isVolume.toIsFat32
  one := rfl

/-- The entry of a file of one byte, in cluster 3. -/
def singleEntry : DirectoryEntry := fileEntry.setField 28 4 1

/-- The volume with this file, which holds a zero, and a memory without zeros. -/
def singleState : State :=
  { smallState (fun c => if c = 2 ∨ c = 3 then endCluster32 else 0) singleEntry.bytes with
    mem := fun _ => 0x55 }

theorem fileChain_singleState :
    FileChain smallVolume singleState.disk (getClusterFromEntry smallVolume singleEntry) [3] :=
  .next (b := endCluster32) (by decide) (.done (by decide))

/-- On a drive without bad sectors the byte is read. -/
theorem readsReported_singleState :
    ReadsReported smallVolume (fun _ => false) singleState filePath 1 := by
  refine (readsReported_iff smallVolume_single).mpr fun es e l htrail _ _ hl _ => ?_
  have hone := trail_filePath
    (show dirSlot smallVolume singleState.disk 2 0 = singleEntry by decide)
    (by decide) (by decide)
  obtain ⟨rfl, rfl⟩ : es = [] ∧ e = singleEntry := by
    have heq := (htrail.mono fun _ _ _ hf => hf.foundIn smallVolume_single).unique hone
      fun _ _ _ _ => FoundIn.unique
    rcases es with - | ⟨e', es⟩
    · exact ⟨rfl, by simpa using heq⟩
    · simp at heq
  obtain rfl := hl.unique fileChain_singleState
  refine ⟨by decide, fun i hi => ?_⟩
  obtain rfl : i = 0 := Nat.lt_one_iff.mp hi
  decide

/-- With the sector of cluster 3 bad, `getFile` returns zero and points to what
the memory held before. -/
theorem not_readsReported_singleState :
    smallVolume.Single ∧
      ¬ ReadsReported smallVolume (fun lba => lba = smallVolume.lba 3) singleState filePath 1 := by
  refine ⟨smallVolume_single, fun hall => ?_⟩
  obtain ⟨key, hkey, hk⟩ := searchName_letters (b := 0x41) (by decide) (by decide)
  have htrail : Trail smallVolume
      (FoundSafe smallVolume (fun lba => lba = smallVolume.lba 3) singleState.disk)
      (piecesOf filePath) 2 ([] ++ [singleEntry]) := by
    rw [piecesOf_filePath, ← show dirSlot smallVolume singleState.disk 2 0 = singleEntry by decide]
    refine .step hkey (.here (by decide) (lookup_first smallVolume_isImage (by decide) ?_)) .here
    rw [hk]
    decide
  have hdel := hall.delivers smallVolume_single [] htrail (by decide) (by decide)
    fileChain_singleState (by decide)
  exact absurd (hdel.2 0 (by decide)) (by decide)

end PotatoOS
