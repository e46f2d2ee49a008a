/-
PotatoOS/WriteFile.lean

What a call of `write_file` of tty.c leaves alone.

On the disk: a call writes the first free cluster and the sector of the FAT
that holds its entry, provided there is a free cluster.  `find_free_cluster`
reports a full drive by 0, which nobody checks: the content then goes two
clusters below the data area and entry 0 of the FAT is overwritten
(`writeFile_harmless_iff`).

In the table of files: a call looks for an entry of size 0 and stores behind
the last file.  An empty file keeps an entry of size 0 for ever, so a table of
128 files with an empty one among them takes a file more
(`writeFiles_tableSafe_iff`).
-/
import PotatoOS.Mounted

namespace PotatoOS

open Prog

/-! ### The first free cluster -/

namespace Geometry

variable (g : Geometry) (d : Disk)

/-- A cluster of the drive whose entry in the FAT is 0. -/
def IsFree (c : Nat) : Prop :=
  2 ≤ c ∧ c < g.clusters ∧ c / 128 < g.fatSectors ∧ g.fatWord d c = 0

instance (c : Nat) : Decidable (g.IsFree d c) := inferInstanceAs (Decidable (_ ∧ _))

/-- The free entry with the lowest number. -/
structure FirstFree (c : Nat) : Prop where
  isFree : g.IsFree d c
  le : ∀ k, g.IsFree d k → c ≤ k

variable {g d} {c k : Nat} {l : Locals}

theorem exists_firstFree (h : g.IsFree d c) : ∃ c, g.FirstFree d c :=
  ⟨Nat.find ⟨c, h⟩, Nat.find_spec ⟨c, h⟩, fun _ hk => Nat.find_min' _ hk⟩

theorem FirstFree.unique (h : g.FirstFree d c) (hk : g.FirstFree d k) : c = k :=
  Nat.le_antisymm (h.le k hk.isFree) (hk.le c h.isFree)

theorem table_of_covered {t : Nat → Nat} (h : k / 128 < g.fatSectors) :
    g.table d t k = g.fatWord d k := if_pos h

theorem FirstFree.found (h : g.FirstFree d c) : g.found d l = c := by
  obtain ⟨h₂, hc, hs, hw⟩ := h.isFree
  refine found_eq_of_first h₂ hc ((table_of_covered hs).trans hw) fun k hk₂ hk => ?_
  have hks : k / 128 < g.fatSectors := by omega
  rw [table_of_covered hks]
  exact fun hw => absurd (h.le k ⟨hk₂, hk.trans hc, hks, hw⟩) (not_le.mpr hk)

theorem FirstFree.found_lt (h : g.FirstFree d c) (hf : g.Fits l) : g.found d l < l.entries := by
  have hs := h.isFree.2.2.1
  rw [h.found]
  rw [Geometry.Fits] at hf
  omega

end Geometry

/-! ### The sectors a call writes -/

/-- A sector of cluster `c`, or the sector of the FAT with its entry. -/
def Geometry.OwnSector (g : Geometry) (c x : Nat) : Prop :=
  (∃ i < g.sectorsPerCluster, x = g.dataStart + (c - 2) * g.sectorsPerCluster + i) ∨
    x = g.fatStart + c / 128

/-- The call returned, every sector it wrote belongs to the cluster that was
free, and without a free cluster nothing changed. -/
structure Harmless (n : Nat) (s : Tty) (r : Outcome Unit × Tty) : Prop where
  returns : r.1 = .value ()
  written : ∃ ws, r.2.written = ws ++ s.written ∧
    ∀ x ∈ ws, ∃ c, (s.mountedDrives n).FirstFree s.disk c ∧ (s.mountedDrives n).OwnSector c x
  full : (∀ c, ¬(s.mountedDrives n).IsFree s.disk c) →
    r.2.disk = s.disk ∧ (r.2.mountedDrives n).rootDirectory = (s.mountedDrives n).rootDirectory

section

variable {g : Geometry} {l : Locals} {n c : Nat} {filename content : CString} {s : Tty}

theorem blockLba_getClusterAddress (h : 2 ≤ c) (i : Nat) :
    blockLba (g.getClusterAddress c + i)
      = (g.dataStart + (c - 2) * g.sectorsPerCluster + i) % 2 ^ 24 := by
  have hc : (c + (2 ^ 32 - 2)) % 2 ^ 32 = (c - 2) % 2 ^ 32 := by omega
  rw [blockLba_eq, Geometry.getClusterAddress, hc]
  generalize hk : c - 2 = k
  have hm : k % 2 ^ 32 * g.sectorsPerCluster % 2 ^ 32 = k * g.sectorsPerCluster % 2 ^ 32 := by
    rw [Nat.mod_mul_mod]
  generalize k % 2 ^ 32 * g.sectorsPerCluster = a at hm ⊢
  generalize k * g.sectorsPerCluster = b at hm ⊢
  omega

/-- The sectors that a call writes are those of its cluster, as far as the drive
sees their numbers. -/
theorem Tty.place_written (s : Tty) (g : Geometry) (l : Locals) (content : CString)
    (h : 2 ≤ c) :
    ∃ ws, (s.place g l content c).written = ws ++ s.written ∧
      ∀ x, x ∈ ws ↔ ∃ y, g.OwnSector c y ∧ x = y % 2 ^ 24 := by
  refine ⟨g.fatLba (c / 128) :: ((List.range' 0 g.sectorsPerCluster).map fun j =>
    blockLba (g.getClusterAddress c + j)).reverse, ?_, fun x => ?_⟩
  · show g.fatLba (c / 128) :: (s.writes _ _ _ _).written = _
    rw [Tty.writes_written]
    rfl
  · rw [List.mem_cons, List.mem_reverse, List.mem_map, Geometry.fatLba, blockLba_eq]
    constructor
    · rintro (rfl | ⟨i, hi, rfl⟩)
      · exact ⟨_, .inr rfl, rfl⟩
      · rw [List.mem_range'_1] at hi
        exact ⟨_, .inl ⟨i, by omega, rfl⟩, blockLba_getClusterAddress h i⟩
    · rintro ⟨y, ⟨i, hi, rfl⟩ | rfl, rfl⟩
      · refine .inr ⟨i, ?_, blockLba_getClusterAddress h i⟩
        rw [List.mem_range'_1]
        omega
      · exact .inl rfl

@[simp] theorem Tty.addFile_rootDirectory (s : Tty) (n : Nat) (e : FileEntry) :
    ((s.addFile n e).mountedDrives n).rootDirectory
      = (s.mountedDrives n).rootDirectory.append e := by
  simp only [Tty.addFile, Function.update_self]

@[simp] theorem Tty.addFile_toGeometry (s : Tty) (n : Nat) (e : FileEntry) :
    ((s.addFile n e).mountedDrives n).toGeometry = (s.mountedDrives n).toGeometry := by
  simp only [Tty.addFile, Function.update_self]

/-- A harmless call that stored a file had a free cluster. -/
theorem Harmless.exists_firstFree {e : FileEntry} {s' : Tty} {o : Outcome Unit}
    (h : Harmless n s (o, s'.addFile n e)) (hd : s'.mountedDrives = s.mountedDrives) :
    ∃ c, (s.mountedDrives n).FirstFree s.disk c := by
  obtain ⟨c, hc⟩ : ∃ c, (s.mountedDrives n).IsFree s.disk c := by
    refine not_forall_not.mp fun hnone => ?_
    have hdir := congrArg Directory.fileCount (h.full hnone).2
    rw [Tty.addFile_rootDirectory, hd] at hdir
    exact Nat.succ_ne_self _ hdir
  exact Geometry.exists_firstFree hc

/-- A call that stays within its arrays is harmless when a cluster is free and
its sector numbers are not cut to other ones. -/
theorem harmless_place_iff {e : FileEntry} {o : Outcome Unit} :
    Harmless n s (o, (s.place (s.mountedDrives n).toGeometry l content
        ((s.mountedDrives n).found s.disk l)).addFile n e) ↔
      o = .value () ∧ ∃ c, (s.mountedDrives n).FirstFree s.disk c ∧
        ∀ x, (s.mountedDrives n).OwnSector c x →
          (s.mountedDrives n).OwnSector c (x % 2 ^ 24) := by
  constructor
  · intro h
    obtain ⟨c, hc⟩ := h.exists_firstFree (s.place_mountedDrives _ _ _ _)
    refine ⟨h.returns, c, hc, fun x hx => ?_⟩
    obtain ⟨ws, hws, hown⟩ := h.written
    obtain ⟨ws', hws', hmem⟩ := s.place_written (s.mountedDrives n).toGeometry l content
      hc.isFree.1
    rw [hc.found] at hws
    -- both lists are what the log has more than before
    have hx' := (hmem _).mpr ⟨x, hx, rfl⟩
    rw [List.append_cancel_right (hws'.symm.trans hws)] at hx'
    obtain ⟨c', hc', hx'⟩ := hown _ hx'
    rwa [hc.unique hc']
  · rintro ⟨ho, c, hc, hcut⟩
    refine ⟨ho, ?_, fun hnone => absurd hc.isFree (hnone c)⟩
    obtain ⟨ws, hws, hmem⟩ := s.place_written (s.mountedDrives n).toGeometry l content
      hc.isFree.1
    rw [hc.found]
    refine ⟨ws, hws, fun x hx => ⟨c, hc, ?_⟩⟩
    obtain ⟨y, hy, rfl⟩ := (hmem x).mp hx
    exact hcut y hy

/-- Exactly when a call of `write_file` is harmless: on a full table, or when a
cluster is free, the local arrays are large enough and no sector number of the
cluster is cut to one of another sector. -/
theorem writeFile_harmless_iff (hn : n < maxMountedDrives) :
    Harmless n s (writeFile l n filename content s) ↔
      (s.mountedDrives n).rootDirectory.freeEntry = none ∨
      (s.mountedDrives n).rootDirectory.fileCount < maxFiles ∧
      (s.mountedDrives n).sectorsPerCluster ≠ 0 ∧ (s.mountedDrives n).Fits l ∧
      strncpyExtent content blockSize ≤ l.room ∧
      ∃ c, (s.mountedDrives n).FirstFree s.disk c ∧
        ∀ x, (s.mountedDrives n).OwnSector c x → (s.mountedDrives n).OwnSector c (x % 2 ^ 24) := by
  by_cases hfree : (s.mountedDrives n).rootDirectory.freeEntry = none
  · rw [writeFile_of_full hn hfree]
    refine iff_of_true ⟨rfl, ⟨[], rfl, by simp⟩, fun _ => ⟨rfl, rfl⟩⟩ (.inl hfree)
  rw [or_iff_right hfree]
  by_cases hs : (s.mountedDrives n).Stays s.disk l content
  · rw [writeFile_of_stays filename hn hfree hs, harmless_place_iff]
    have hcount : (if maxFiles ≤ (s.mountedDrives n).rootDirectory.fileCount then
        (.stop .undefined : Outcome Unit) else .value ()) = .value () ↔
        (s.mountedDrives n).rootDirectory.fileCount < maxFiles := by
      split
      next h => exact iff_of_false nofun (not_lt.mpr h)
      next h => exact iff_of_true rfl (not_le.mp h)
    rw [hcount]
    exact and_congr_right fun _ =>
      ⟨fun h => ⟨hs.sectorsPerCluster, hs.fits, hs.buffer, h⟩, fun h => h.2.2.2⟩
  · -- a call that leaves an array does not return
    obtain ⟨s', hrun, -⟩ := writeFile_of_not_stays filename hn hfree hs
    rw [hrun]
    refine iff_of_false (fun h => nomatch h.returns) ?_
    rintro ⟨-, hspc, hfits, hbuffer, c, hc, -⟩
    exact hs ⟨hfits, hspc, hbuffer, hc.found_lt hfits⟩

end

/-- A drive with `k` sectors of FAT from sector 1 on, then its data. -/
def storeDrive (k total : Nat) (h : k + total < 2 ^ 23) : MountedDrive where
  sectorsPerCluster := 1
  numFats := 1
  totalSectors32 := total
  fatSize32 := k
  fatStart := 1
  dataStart := k + 1
  rootDirectory := ⟨0, fun _ => ⟨fun _ => 0, 0, 0⟩⟩
  totalSectors32_lt := by omega
  fatSize32_lt := by omega
  dataStart_lt := by omega

/-- A drive of four clusters on a disk of one byte, with an empty table. -/
def sampleDrive : MountedDrive := storeDrive 1 4 (by decide)

/-- Every byte of the disk is `fill`. -/
def sampleTty (fill : UInt8) : Tty := ⟨fun _ _ => fill, fun _ => sampleDrive, [], [], []⟩

/-- Arrays as the source declares them over cleared memory, four bytes of padding behind the
last one. -/
def sampleLocals : Locals where
  entries := 128
  findTable := fun _ => 0
  updateTable := fun _ => 0
  newFile := fun _ => 0
  behind := fun _ => 0
  room := 516

/-- The string "a". -/
def sampleText : CString := ⟨[0x61], by decide⟩

theorem writeFile_harmless_sample : 0 < maxMountedDrives ∧
    Harmless 0 (sampleTty 0) (writeFile sampleLocals 0 sampleText sampleText (sampleTty 0)) := by
  refine ⟨by decide, (writeFile_harmless_iff (by decide)).mpr (.inr ⟨by decide, by decide,
    by decide, by decide, 2, ⟨by decide, fun k hk => hk.1⟩, ?_⟩)⟩
  rintro x (⟨i, hi, rfl⟩ | rfl)
  · obtain rfl : i = 0 := Nat.lt_one_iff.mp hi
    exact .inl ⟨0, by decide, rfl⟩
  · exact .inr rfl

/-- On a full drive the content lands in sector 0, the boot sector. -/
theorem not_harmless_sample :
    ¬Harmless 0 (sampleTty 1) (writeFile sampleLocals 0 sampleText sampleText (sampleTty 1)) ∧
      (writeFile sampleLocals 0 sampleText sampleText (sampleTty 1)).2.written = [1, 0] := by
  refine ⟨fun h => ?_, by decide⟩
  have hnone : ∀ c, ¬((sampleTty 1).mountedDrives 0).IsFree (sampleTty 1).disk c := by
    rintro c ⟨-, -, -, hw⟩
    exact absurd hw (by simp [Geometry.fatWord, sampleTty, le])
  have hcount := congrArg Directory.fileCount (h.full hnone).2
  exact absurd hcount (by decide)

/-! ### The table of files -/

/-- A call of `write_file`. -/
structure WriteCall where
  locals : Locals
  filename : CString
  content : CString
  content_lt : content.1.length < 2 ^ 32 := by decide

/-- Calls of `write_file`, one after the other. -/
def writeFiles {σ : Type} [Blocks σ] (n : Nat) : List WriteCall → Prog σ Unit
  | [] => pure ()
  | call :: calls => do
      writeFile call.locals n call.filename call.content
      writeFiles n calls

/-- No store missed the table or replaced a file. -/
structure TableSafe (n : Nat) (s : Tty) : Prop where
  fileCount : (s.mountedDrives n).rootDirectory.fileCount ≤ maxFiles
  stored : ∀ p ∈ s.stored, p.1 < maxFiles ∧ p.2 = 0

/-- The entries behind the last file have size 0. -/
def Directory.FreeBehind (dir : Directory) : Prop :=
  ∀ i, dir.fileCount ≤ i → i < maxFiles → (dir.files i).size = 0

/-- The entries up to the last file have another size. -/
def Directory.UsedBefore (dir : Directory) : Prop := ∀ i < dir.fileCount, (dir.files i).size ≠ 0

/-- A call stays within its local arrays, whatever the disk holds. -/
structure Geometry.Roomy (g : Geometry) (call : WriteCall) : Prop where
  fits : g.Fits call.locals
  sectorsPerCluster : g.sectorsPerCluster ≠ 0
  buffer : strncpyExtent call.content blockSize ≤ call.locals.room
  pos : 0 < call.locals.entries
  clusters : g.clusters ≤ call.locals.entries

namespace Directory

variable {dir : Directory} {e : FileEntry}

theorem freeEntry_ne_none_iff :
    dir.freeEntry ≠ none ↔ ∃ i < maxFiles, (dir.files i).size = 0 := by
  rw [ne_eq, freeEntry, List.find?_range_eq_none]
  simp

theorem FreeBehind.freeEntry_ne_none (h : dir.FreeBehind) (hc : dir.fileCount < maxFiles) :
    dir.freeEntry ≠ none :=
  freeEntry_ne_none_iff.mpr ⟨_, hc, h _ (Nat.le_refl _) hc⟩

theorem UsedBefore.freeEntry (h : dir.UsedBefore) (hc : maxFiles ≤ dir.fileCount) :
    dir.freeEntry = none := by
  by_contra hne
  obtain ⟨i, hi, hz⟩ := freeEntry_ne_none_iff.mp hne
  exact h i (hi.trans_le hc) hz

theorem FreeBehind.append (h : dir.FreeBehind) (e : FileEntry) : (dir.append e).FreeBehind := by
  intro i hi hm
  rw [append_fileCount] at hi
  rw [append_files_of_ne (by omega)]
  exact h i (by omega) hm

theorem UsedBefore.append (h : dir.UsedBefore) (he : e.size ≠ 0) : (dir.append e).UsedBefore := by
  intro i hi
  rw [append_fileCount] at hi
  rcases Nat.lt_succ_iff_lt_or_eq.mp hi with hlt | rfl
  · rw [append_files_of_ne hlt.ne]
    exact h i hlt
  · rwa [append_files_self]

/-- The table has room for the files of the calls, or is full after files that
are not empty. -/
def Takes (dir : Directory) (calls : List WriteCall) : Prop :=
  dir.FreeBehind ∧ dir.fileCount ≤ maxFiles ∧
    (dir.fileCount + calls.length ≤ maxFiles ∨ dir.UsedBefore ∧
      ∀ call ∈ calls.take (maxFiles - dir.fileCount), call.content.1 ≠ [])

variable {call : WriteCall} {calls : List WriteCall}

/-- A call that finds an entry of size 0 finds it behind the last file. -/
theorem Takes.fileCount_lt (h : dir.Takes (call :: calls)) (hfree : dir.freeEntry ≠ none) :
    dir.fileCount < maxFiles := by
  obtain ⟨-, -, hlen | ⟨hused, -⟩⟩ := h
  · rw [List.length_cons] at hlen
    omega
  · exact not_le.mp fun hle => hfree (hused.freeEntry hle)

theorem Takes.append (h : dir.Takes (call :: calls)) (hlt : dir.fileCount < maxFiles)
    (he : e.size = call.content.1.length) : (dir.append e).Takes calls := by
  obtain ⟨hfree, -, h⟩ := h
  refine ⟨hfree.append e, hlt, h.imp (fun hlen => ?_) fun ⟨hused, hne⟩ => ?_⟩
  · rw [List.length_cons] at hlen
    rw [append_fileCount]
    omega
  · rw [show maxFiles - dir.fileCount = maxFiles - (dir.fileCount + 1) + 1 by omega,
      List.take_succ_cons, List.forall_mem_cons] at hne
    refine ⟨hused.append ?_, hne.2⟩
    rw [he]
    exact fun h => hne.1 (List.length_eq_zero_iff.mp h)

/-- A full table takes nothing. -/
theorem Takes.skip (h : dir.Takes (call :: calls)) (hfull : dir.freeEntry = none) :
    dir.Takes calls := by
  have hmax : dir.fileCount = maxFiles := by
    refine h.2.1.antisymm (not_lt.mp fun hlt => ?_)
    exact h.1.freeEntry_ne_none hlt hfull
  obtain ⟨hfree, hle, hlen | ⟨hused, -⟩⟩ := h
  · rw [List.length_cons] at hlen
    omega
  · refine ⟨hfree, hle, .inr ⟨hused, ?_⟩⟩
    rw [hmax, Nat.sub_self, List.take_zero]
    exact List.forall_mem_nil _

/-- The table has an entry of size 0 left when the calls have filled it. -/
structure Overflows (dir : Directory) (calls : List WriteCall) : Prop where
  freeBehind : dir.FreeBehind
  fileCount : dir.fileCount ≤ maxFiles
  length : maxFiles < dir.fileCount + calls.length
  empty : (∃ i < dir.fileCount, (dir.files i).size = 0) ∨
    ∃ call ∈ calls.take (maxFiles - dir.fileCount), call.content.1 = []

/-- It is behind the last file, or an empty file. -/
theorem Overflows.freeEntry_ne_none (h : dir.Overflows calls) : dir.freeEntry ≠ none := by
  rcases h.fileCount.lt_or_eq with hlt | heq
  · exact h.freeBehind.freeEntry_ne_none hlt
  · obtain ⟨i, hi, hz⟩ | ⟨_, hmem, -⟩ := h.empty
    · exact freeEntry_ne_none_iff.mpr ⟨i, hi.trans_eq heq, hz⟩
    · rw [heq, Nat.sub_self, List.take_zero] at hmem
      exact absurd hmem List.not_mem_nil

theorem Overflows.append (h : dir.Overflows (call :: calls)) (hlt : dir.fileCount < maxFiles)
    (he : e.size = call.content.1.length) : (dir.append e).Overflows calls := by
  refine ⟨h.freeBehind.append e, hlt, ?_, ?_⟩
  · have hlen := h.length
    rw [List.length_cons] at hlen
    rw [append_fileCount]
    omega
  · have hempty := h.empty
    rw [show maxFiles - dir.fileCount = maxFiles - (dir.fileCount + 1) + 1 by omega,
      List.take_succ_cons] at hempty
    obtain ⟨i, hi, hz⟩ | ⟨call', hmem, hz⟩ := hempty
    · exact .inl ⟨i, Nat.lt_succ_of_lt hi, by rwa [append_files_of_ne hi.ne]⟩
    · rcases List.mem_cons.mp hmem with rfl | hmem
      · refine .inl ⟨dir.fileCount, Nat.lt_succ_self _, ?_⟩
        rw [append_files_self, he, hz]
        rfl
      · exact .inr ⟨call', hmem, hz⟩

end Directory

/-- What a call can do to the table: nothing, or a store behind the last file. -/
inductive TableStep (n : Nat) (call : WriteCall) (s : Tty) : Outcome Unit × Tty → Prop
  | full (hfree : (s.mountedDrives n).rootDirectory.freeEntry = none) :
      TableStep n call s (.value (), s)
  | leave {s' : Tty} (hs : ¬(s.mountedDrives n).Stays s.disk call.locals call.content)
      (hd : s'.mountedDrives = s.mountedDrives) (hst : s'.stored = s.stored) :
      TableStep n call s (.stop .undefined, s')
  | store {s' : Tty} {e : FileEntry}
      (hfree : (s.mountedDrives n).rootDirectory.freeEntry ≠ none)
      (hc : (s.mountedDrives n).rootDirectory.fileCount < maxFiles)
      (hd : s'.mountedDrives = s.mountedDrives) (hst : s'.stored = s.stored)
      (he : e.size = call.content.1.length) : TableStep n call s (.value (), s'.addFile n e)
  | overrun {s' : Tty} {e : FileEntry}
      (hfree : (s.mountedDrives n).rootDirectory.freeEntry ≠ none)
      (hc : maxFiles ≤ (s.mountedDrives n).rootDirectory.fileCount)
      (hd : s'.mountedDrives = s.mountedDrives) :
      TableStep n call s (.stop .undefined, s'.addFile n e)

section

variable {n : Nat} {s : Tty} {call : WriteCall} {calls : List WriteCall}

theorem writeFile_tableStep (hn : n < maxMountedDrives) (call : WriteCall) (s : Tty) :
    TableStep n call s (writeFile call.locals n call.filename call.content s) := by
  by_cases hfree : (s.mountedDrives n).rootDirectory.freeEntry = none
  · rw [writeFile_of_full hn hfree]
    exact .full hfree
  by_cases hs : (s.mountedDrives n).Stays s.disk call.locals call.content
  · rw [writeFile_of_stays call.filename hn hfree hs]
    split
    next hc => exact .overrun hfree hc (s.place_mountedDrives _ _ _ _)
    next hc =>
      exact .store hfree (not_le.mp hc) (s.place_mountedDrives _ _ _ _) (s.place_stored _ _ _ _)
        (Nat.mod_eq_of_lt call.content_lt)
  · obtain ⟨s', hrun, hd, hst⟩ := writeFile_of_not_stays call.filename hn hfree hs
    rw [hrun]
    exact .leave hs hd hst

theorem TableSafe.congr {s' : Tty} (h : TableSafe n s) (hd : s'.mountedDrives = s.mountedDrives)
    (hst : s'.stored = s.stored) : TableSafe n s' :=
  ⟨hd ▸ h.fileCount, hst ▸ h.stored⟩

/-- A store behind the last file, into an entry of size 0 of the table. -/
theorem TableSafe.addFile {e : FileEntry} (h : TableSafe n s)
    (hfree : (s.mountedDrives n).rootDirectory.FreeBehind)
    (hlt : (s.mountedDrives n).rootDirectory.fileCount < maxFiles) :
    TableSafe n (s.addFile n e) := by
  refine ⟨?_, ?_⟩
  · rw [Tty.addFile_rootDirectory]
    exact hlt
  · exact List.forall_mem_cons.mpr ⟨⟨hlt, hfree _ (Nat.le_refl _) hlt⟩, h.stored⟩

/-- The table stays safe over calls that it takes. -/
theorem writeFiles_tableSafe (hn : n < maxMountedDrives) (hs : TableSafe n s)
    (ht : (s.mountedDrives n).rootDirectory.Takes calls) :
    TableSafe n (writeFiles n calls s).2 := by
  -- what the table still takes becomes less with every call that stores
  induction calls generalizing s with
  | nil => exact hs
  | cons call calls ih =>
      have hstep := writeFile_tableStep hn call s
      generalize hr : writeFile call.locals n call.filename call.content s = r at hstep
      rw [writeFiles]
      cases hstep with
      | full hfree =>
          rw [bind_value hr]
          exact ih hs (ht.skip hfree)
      | leave _ hd hst =>
          rw [bind_stop hr]
          exact hs.congr hd hst
      | @store s' e hfree hc hd hst he =>
          rw [bind_value hr]
          refine ih ((hs.congr hd hst).addFile ?_ ?_) ?_
          · rw [hd]
            exact ht.1
          · rwa [hd]
          · rw [Tty.addFile_rootDirectory, hd]
            exact ht.append hc he
      | overrun hfree hc => exact absurd (ht.fileCount_lt hfree) (not_lt.mpr hc)

theorem Geometry.Roomy.stays {g : Geometry} (h : g.Roomy call) (d : Disk) :
    g.Stays d call.locals call.content := by
  refine ⟨h.fits, h.sectorsPerCluster, h.buffer, ?_⟩
  rcases Geometry.found_cases (g := g) (d := d) (l := call.locals) with hz | hlt
  · rw [hz]
    exact h.pos
  · exact hlt.trans_le h.clusters

/-- An empty file among the first 128 makes room for a store behind the table. -/
theorem writeFiles_not_tableSafe (hn : n < maxMountedDrives)
    (hroom : ∀ call ∈ calls, (s.mountedDrives n).Roomy call)
    (ho : (s.mountedDrives n).rootDirectory.Overflows calls) :
    ¬TableSafe n (writeFiles n calls s).2 := by
  induction calls generalizing s with
  | nil => exact absurd ho.length (not_lt.mpr ho.fileCount)
  | cons call calls ih =>
      obtain ⟨hcall, hcalls⟩ := List.forall_mem_cons.mp hroom
      have hstep := writeFile_tableStep hn call s
      generalize hr : writeFile call.locals n call.filename call.content s = r at hstep
      rw [writeFiles]
      cases hstep with
      | full hfull => exact absurd hfull ho.freeEntry_ne_none
      | leave hs => exact absurd (hcall.stays s.disk) hs
      | @store s' e _ hc hd hst he =>
          rw [bind_value hr]
          refine ih (fun call hmem => ?_) ?_
          · rw [Tty.addFile_toGeometry, hd]
            exact hcalls call hmem
          · rw [Tty.addFile_rootDirectory, hd]
            exact ho.append hc he
      | @overrun s' e _ hc hd =>
          -- the store itself is recorded
          rw [bind_stop hr]
          intro hsafe
          have hst := (hsafe.stored _ List.mem_cons_self).1
          rw [hd] at hst
          exact absurd hst (not_lt.mpr hc)

/-- A table as it is after start-up. -/
structure Directory.Zeroed (dir : Directory) : Prop where
  fileCount : dir.fileCount = 0
  size : ∀ i < maxFiles, (dir.files i).size = 0

/-- No call stores outside the table or over a file when there are at most 128
calls or the first 128 files are not empty; and only then, when the calls stay
within their other arrays. -/
theorem writeFiles_tableSafe_iff (hn : n < maxMountedDrives) (hst : s.stored = [])
    (hz : (s.mountedDrives n).rootDirectory.Zeroed) (calls : List WriteCall) :
    ((calls.length ≤ maxFiles ∨ ∀ call ∈ calls.take maxFiles, call.content.1 ≠ []) →
      ∀ run, run <+: calls → TableSafe n (writeFiles n run s).2) ∧
    ((∀ call ∈ calls, (s.mountedDrives n).Roomy call) →
      (∀ run, run <+: calls → TableSafe n (writeFiles n run s).2) →
      calls.length ≤ maxFiles ∨ ∀ call ∈ calls.take maxFiles, call.content.1 ≠ []) := by
  have hfree : (s.mountedDrives n).rootDirectory.FreeBehind := fun i _ hi => hz.size i hi
  have hcount : (s.mountedDrives n).rootDirectory.fileCount ≤ maxFiles := by
    rw [hz.fileCount]
    exact Nat.zero_le _
  constructor
  · -- a run is a beginning of the calls, so the condition holds of it as well
    intro hcond run hrun
    have hsafe : TableSafe n s := ⟨hcount, by simp [hst]⟩
    refine writeFiles_tableSafe hn hsafe ⟨hfree, hcount, ?_⟩
    rw [hz.fileCount, Nat.zero_add, Nat.sub_zero]
    refine hcond.imp hrun.length_le.trans fun hne => ⟨fun i hi => ?_, fun call hcall => ?_⟩
    · rw [hz.fileCount] at hi
      exact absurd hi (Nat.not_lt_zero i)
    · exact hne call ((hrun.take maxFiles).subset hcall)
  · intro hroom hsafe
    by_contra hcond
    rw [not_or, not_le] at hcond
    refine writeFiles_not_tableSafe hn hroom ⟨hfree, hcount, ?_, .inr ?_⟩
      (hsafe calls List.prefix_rfl) <;> rw [hz.fileCount]
    · rw [Nat.zero_add]
      exact hcond.1
    · simpa using hcond.2

end

/-- A call with the given content on the sample drive. -/
def sampleCall (content : CString) (h : content.1.length < 2 ^ 32) : WriteCall :=
  ⟨sampleLocals, sampleText, content, h⟩

/-- An empty file, then 128 files of one byte. -/
def sampleCalls : List WriteCall :=
  sampleCall ⟨[], by decide⟩ (by decide) :: List.replicate 128 (sampleCall sampleText (by decide))

theorem sampleTty_zeroed (fill : UInt8) :
    ((sampleTty fill).mountedDrives 0).rootDirectory.Zeroed := ⟨rfl, fun _ _ => rfl⟩

theorem sampleDrive_roomy {content : CString} (h : content.1.length < 2 ^ 32) :
    sampleDrive.Roomy (sampleCall content h) where
  fits := show sampleDrive.Fits sampleLocals by decide
  sectorsPerCluster := by decide
  buffer := by
    show (if content.1.length < 512 then 513 else 512) ≤ 516
    split <;> decide
  pos := show 0 < sampleLocals.entries by decide
  clusters := show sampleDrive.clusters ≤ sampleLocals.entries by decide

theorem writeFiles_tableSafe_nonempty :
    ((sampleTty 0).mountedDrives 0).rootDirectory.Zeroed ∧
      ∀ run, run <+: List.replicate 200 (sampleCall sampleText (by decide)) →
        TableSafe 0 (writeFiles 0 run (sampleTty 0)).2 := by
  refine ⟨sampleTty_zeroed 0, (writeFiles_tableSafe_iff (by decide) rfl (sampleTty_zeroed 0) _).1
    (.inr fun call hcall => ?_)⟩
  rw [List.eq_of_mem_replicate (List.mem_of_mem_take hcall)]
  decide

/-- The 129th file is stored behind the table. -/
theorem not_tableSafe_sample : ¬TableSafe 0 (writeFiles 0 sampleCalls (sampleTty 0)).2 := by
  refine writeFiles_not_tableSafe (by decide) ?_ ⟨fun _ _ _ => rfl, by decide, ?_, .inr ?_⟩
  · intro call hcall
    rcases List.mem_cons.mp hcall with rfl | hcall
    · exact sampleDrive_roomy _
    · rw [List.eq_of_mem_replicate hcall]
      exact sampleDrive_roomy _
  · have hlen : sampleCalls.length = 129 := by
      rw [sampleCalls, List.length_cons, List.length_replicate]
    rw [hlen]
    exact (by decide : 128 < 0 + 129)
  · exact ⟨_, List.mem_cons_self, rfl⟩

end PotatoOS
