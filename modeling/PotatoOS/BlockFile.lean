/-
PotatoOS/BlockFile.lean

`write_file` and `read_file` of tty.c down to the ports.

The functions are those of Mounted.lean over the block transfers of BlockIo.lean
(`atPorts`).  A state has the tables of the mounted drives and, in place of the
disk, the drive that has it (`Attached`); it shows the state of Mounted.lean.
Each function implements the one above in the sense of Refine.lean: what it
returns is what the one above returns, on any drive that does not request data
while it is busy; and it returns whenever the one above does, if every block
comes and is committed at once.

Main results: `writeFile_ports`, which adds that on a drive that takes time to
commit a block no call of `write_file` with a free entry ever returns, and
`writeFiles_ports_roundTrips`, files are kept through the ports.
-/
import PotatoOS.BlockIo
import PotatoOS.FileStore
import PotatoOS.Refine

namespace PotatoOS.BlockIo

open Prog Ata

/-- The tables and the drive.  The disk of `tty` is not used. -/
structure Attached where
  tty : Tty
  drive : Ata.Drive

/-- The state that is shown above. -/
def Attached.above (p : Attached) : Tty := { p.tty with disk := p.drive.disk }

/-- A transfer at the ports. -/
def onDrive {α : Type} : Prog Ata.Drive α → Prog Attached α :=
  zoom Attached.drive fun p d => { p with drive := d }

/-! ### The functions -/

section

variable (c : Conduct) (fuel : Nat)

/-- The operations at the ports.  What lay under a block that is read is gone, and a block that
is written is put on the record of the level above. -/
abbrev atPorts : Blocks Attached where
  fetch blockNum := onDrive (readBlock c fuel blockNum fun _ => 0)
  store blockNum buffer := do
    onDrive (writeBlock c fuel blockNum buffer)
    modify fun p => { p with tty := { p.tty with written := blockLba blockNum :: p.tty.written } }
  onTables := zoom Attached.above fun p s => { p with tty := s }

/-- `read_block` at the ports. -/
abbrev fetch (blockNum : Nat) : Prog Attached Mem := (atPorts c fuel).fetch blockNum

/-- `write_block` at the ports. -/
abbrev store (blockNum : Nat) (buffer : Mem) : Prog Attached Unit :=
  (atPorts c fuel).store blockNum buffer

/-- `write_file` at the ports. -/
abbrev writeFile (l : Locals) (driveNumber : Nat) (filename content : CString) :
    Prog Attached Unit :=
  @PotatoOS.writeFile Attached (atPorts c fuel) l driveNumber filename content

/-- `read_file` at the ports. -/
abbrev readFile (driveNumber : Nat) (filename : CString) : Prog Attached Unit :=
  @PotatoOS.readFile Attached (atPorts c fuel) driveNumber filename

/-- Calls of `write_file` at the ports, one after the other. -/
abbrev writeFiles (n : Nat) (calls : List WriteCall) : Prog Attached Unit :=
  @PotatoOS.writeFiles Attached (atPorts c fuel) n calls

end

/-- Every block comes, and is committed at once. -/
structure Instant (c : Conduct) : Prop where
  quiet : c.Quiet
  read : ∀ t, (c.read t).comes = true
  write : ∀ t, (c.write t).comes = true
  commit : ∀ k, c.commit k = 0

/-- Such a drive, waiting for a command. -/
def Ready (c : Conduct) (p : Attached) : Prop := Instant c ∧ p.drive.phase.accepts = true

/-! ### Blocks -/

section

variable {c : Conduct} {p p' : Attached} {fuel b : Nat} {buffer : Mem}

/-- What can be seen of a block. -/
def seen (block : Mem) : Mem := memcpy (fun _ => 0) 0 block blockSize

theorem seen_apply {block : Mem} {i : Nat} (h : i < blockSize) : seen block i = block i :=
  (memcpy_apply_of_mem (Nat.zero_le i) (by omega)).trans (congrArg block (Nat.sub_zero i))

/-- Entries of the FAT are taken from there. -/
theorem fatTable_seen (block : Mem) (start : Nat) (fatTable : Nat → Nat) :
    (fun k => if start ≤ k ∧ k < start + 128 then le (seen block) (4 * (k - start)) 4
      else fatTable k)
      = fun k => if start ≤ k ∧ k < start + 128 then le block (4 * (k - start)) 4
      else fatTable k := by
  funext k
  by_cases hk : start ≤ k ∧ k < start + 128
  · rw [if_pos hk, if_pos hk]
    refine le_congr fun j hj => seen_apply ?_
    rw [blockSize]
    omega
  · rw [if_neg hk, if_neg hk]

theorem onDrive_run {α : Type} {m : Prog Ata.Drive α} {a : α} {d : Ata.Drive}
    (h : m p.drive = (.value a, d)) : onDrive m p = (.value a, { p with drive := d }) := zoom_run h

theorem onDrive_eq_value {α : Type} {m : Prog Ata.Drive α} {a : α}
    (h : onDrive m p = (.value a, p')) :
    ∃ d, m p.drive = (.value a, d) ∧ p' = { p with drive := d } := zoom_eq_value h

theorem above_drive {d : Ata.Drive} (h : d.disk = p.drive.disk) :
    ({ p with drive := d } : Attached).above = p.above := by
  show ({ p.tty with disk := d.disk } : Tty) = { p.tty with disk := p.drive.disk }
  rw [h]

theorem fetch_value (hq : c.Quiet) {block : Mem} (h : fetch c fuel b p = (.value block, p')) :
    p.drive.phase.accepts = true ∧ block = seen (p.drive.disk (blockLba b)) ∧
      p'.above = p.above := by
  obtain ⟨d', hrun, rfl⟩ := onDrive_eq_value h
  have hcall : (BlockCall.read b fun _ => 0).atPorts c fuel p.drive = (.value block, d') := hrun
  obtain ⟨-, s', hup, hleft⟩ := BlockCall.atPorts_value (s := p.above) hq rfl hcall
  cases hup
  exact ⟨BlockCall.accepts_of_value hcall, rfl, above_drive hleft.disk⟩

theorem fetch_settles (hp : Ready c p) :
    Settles (fun fuel => fetch c fuel b) p fun block p' =>
      block = seen (p.drive.disk (blockLba b)) ∧ p'.above = p.above ∧ Ready c p' := by
  obtain ⟨block, d', hev, s', hup, hleft⟩ :=
    BlockCall.atPorts_settles (s := p.above) (.read b fun _ => 0) hp.1.quiet hp.2 rfl
      (hp.1.read _)
  cases hup
  refine ⟨_, { p with drive := d' }, ?_, rfl, above_drive hleft.disk, hp.1, ?_⟩
  · filter_upwards [hev] with fuel hrun
    exact onDrive_run (m := readBlock c fuel b fun _ => 0) hrun
  · show d'.phase.accepts = true
    rw [hleft.phase]
    rfl

/-- A block that is read, in front of a program that only sees the block. -/
theorem fetch_implements (hq : c.Quiet) {α : Type} {f : Mem → Prog Tty α}
    {G : Nat → Mem → Prog Attached α}
    (hf : ∀ block, Implements Attached.above (Ready c) (f block) fun fuel => G fuel (seen block)) :
    Implements Attached.above (Ready c) (PotatoOS.readBlock b >>= f)
      fun fuel => fetch c fuel b >>= G fuel where
  refines {fuel p a p'} h := by
    obtain ⟨block, p₁, h₁, h₂⟩ := bind_eq_value h
    obtain ⟨-, rfl, habove⟩ := fetch_value hq h₁
    have hrest := (hf _).refines h₂
    rw [habove] at hrest
    exact hrest
  realizes {p a s'} hp h := by
    refine .bind (fetch_settles hp) ?_
    rintro block p₁ ⟨rfl, habove, hp₁⟩
    refine (hf _).realizes hp₁ ?_
    rw [habove]
    exact h

/-- What the drive is doing behind a block that was written. -/
theorem store_value (hq : c.Quiet) (h : store c fuel b buffer p = (.value (), p')) :
    p.drive.phase.accepts = true ∧ p'.drive.phase = .after (c.commit p.drive.taken) .idle ∧
      p'.above = p.above.write (blockLba b) buffer := by
  obtain ⟨⟨⟩, p₁, hzoom, hlog⟩ := bind_eq_value h
  obtain ⟨d', hrun, rfl⟩ := onDrive_eq_value hzoom
  cases hlog
  have hcall : (BlockCall.write b buffer).atPorts c fuel p.drive = (.value buffer, d') := by
    rw [BlockCall.atPorts, bind_value hrun]
    rfl
  obtain ⟨-, s', hup, hleft⟩ := BlockCall.atPorts_value (s := p.above) hq rfl hcall
  cases hup
  refine ⟨BlockCall.accepts_of_value hcall, hleft.phase, ?_⟩
  show ({ p.tty with written := _, disk := d'.disk } : Tty) = _
  rw [hleft.disk]
  rfl

theorem store_implements (hq : c.Quiet) (b : Nat) (buffer : Mem) :
    Implements Attached.above (Ready c) (PotatoOS.writeBlock b buffer)
      fun fuel => store c fuel b buffer where
  refines {fuel p a p'} h := by
    rw [(store_value hq h).2.2]
    rfl
  realizes {p a s'} hp h := by
    cases h
    obtain ⟨r, d', hev, hdone⟩ :=
      BlockCall.atPorts_settles (s := p.above) (.write b buffer) hp.1.quiet hp.2 rfl
        (hp.1.write _)
    -- what the ports do, under the record of the blocks that the file store keeps
    have hstore : ∀ᶠ fuel in Filter.atTop, store c fuel b buffer p = (.value (),
        { p with
          drive := d'
          tty := { p.tty with written := blockLba b :: p.tty.written } }) := by
      filter_upwards [hev] with fuel hrun
      obtain ⟨⟨⟩, d₁, hwrite, hrest⟩ := bind_eq_value hrun
      cases hrest
      exact bind_value (onDrive_run hwrite)
    refine ⟨(), _, hstore, rfl, ?_, hp.1, ?_⟩
    · obtain ⟨fuel, hrun⟩ := hstore.exists
      exact (store_value hq hrun).2.2
    · obtain ⟨fuel, hrun⟩ := hstore.exists
      rw [(store_value hq hrun).2.1, hp.1.commit]
      rfl

/-! ### The functions against those above -/

section

variable (hq : c.Quiet)

include hq

theorem writeClusterLoop_implements (address : Nat) (buffer : Mem) (n i : Nat) :
    Implements Attached.above (Ready c) (writeClusterLoop address buffer n i)
      fun fuel => @writeClusterLoop Attached (atPorts c fuel) address buffer n i := by
  induction n generalizing i with
  | zero => exact .pure ()
  | succ n ih => exact .bind (store_implements hq _ _) fun _ => ih (i + 1)

theorem readClusterLoop_implements (address room n i : Nat) (buffer : Mem) :
    Implements Attached.above (Ready c) (readClusterLoop address room n i buffer)
      fun fuel => @readClusterLoop Attached (atPorts c fuel) address room n i buffer := by
  induction n generalizing i buffer with
  | zero => exact .pure buffer
  | succ n ih =>
      refine .guard _ (fetch_implements hq fun block => ?_)
      have hblock : memcpy buffer (i * blockSize) (seen block) blockSize
          = memcpy buffer (i * blockSize) block blockSize :=
        memcpy_congr fun j hj => seen_apply hj
      rw [← hblock]
      exact ih (i + 1) _

theorem readFatTableLoop_implements (g : Geometry) (entries n i : Nat) (fatTable : Nat → Nat) :
    Implements Attached.above (Ready c) (readFatTableLoop g entries n i fatTable)
      fun fuel => @readFatTableLoop Attached (atPorts c fuel) g entries n i fatTable := by
  induction n generalizing i fatTable with
  | zero => exact .pure fatTable
  | succ n ih =>
      refine .guard _ (fetch_implements hq fun block => ?_)
      rw [← fatTable_seen block]
      exact ih (i + 1) _

theorem findFreeCluster_implements (l : Locals) (g : Geometry) :
    Implements Attached.above (Ready c) (findFreeCluster l g)
      fun fuel => @findFreeCluster Attached (atPorts c fuel) l g :=
  .bind (readFatTableLoop_implements hq ..) fun _ => .guard _ (.pure _)

theorem updateFatEntry_implements (l : Locals) (clusterNumber value : Nat) (g : Geometry) :
    Implements Attached.above (Ready c) (updateFatEntry l clusterNumber value g)
      fun fuel => @updateFatEntry Attached (atPorts c fuel) l clusterNumber value g :=
  .bind (readFatTableLoop_implements hq ..) fun _ => .guard _ (store_implements hq _ _)

omit hq in
theorem onTables_implements {α : Type} {m : Prog Tty α}
    (hm : ∀ {s a s'}, m s = (.value a, s') → s'.disk = s.disk) :
    Implements Attached.above (Ready c) m fun fuel => (atPorts c fuel).onTables m := by
  refine .zoom (fun {p a s'} h => ?_) fun hp => hp
  show ({ s' with disk := p.drive.disk } : Tty) = s'
  rw [show p.drive.disk = s'.disk from (hm h).symm]

omit hq in
theorem gets_implements {α : Type} (f : Tty → α) :
    Implements Attached.above (Ready c) (gets f) fun fuel => (atPorts c fuel).onTables (gets f) :=
  onTables_implements fun h => by
    cases h
    rfl

theorem writeFile_implements (l : Locals) (n : Nat) (filename content : CString) :
    Implements Attached.above (Ready c) (PotatoOS.writeFile l n filename content)
      fun fuel => writeFile c fuel l n filename content := by
  refine .guard _ (.bind (gets_implements _) fun drive => ?_)
  cases hfree : drive.rootDirectory.freeEntry with
  | none => exact .pure ()
  | some i =>
      refine .bind (findFreeCluster_implements hq _ _) fun startCluster => .guard _ ?_
      refine .bind (writeClusterLoop_implements hq ..) fun _ => ?_
      refine .bind (updateFatEntry_implements hq ..) fun _ => ?_
      refine onTables_implements fun {s a s'} h => ?_
      rw [onTables_tty] at h
      obtain ⟨drive', s₁, hget, h⟩ := bind_eq_value h
      obtain ⟨⟨⟩, s₂, hmod, h⟩ := bind_eq_value h
      cases hget
      cases hmod
      split at h
      · cases h
      · cases h
        rfl

theorem readFile_implements (n : Nat) (filename : CString) :
    Implements Attached.above (Ready c) (PotatoOS.readFile n filename)
      fun fuel => readFile c fuel n filename := by
  refine .guard _ (.bind (gets_implements _) fun drive => ?_)
  cases hfind : (List.range drive.rootDirectory.fileCount).find? fun i =>
      maxFiles ≤ i ∨ strcmp (drive.rootDirectory.bytesFrom i) filename.1 = 0 with
  | none =>
      simp only [hfind]
      exact .pure ()
  | some i =>
      simp only [hfind]
      refine .guard _ (.bind (readClusterLoop_implements hq ..) fun buffer => ?_)
      refine onTables_implements fun {s a s'} h => ?_
      cases hlen : strnlen buffer blockSize with
      | none =>
          simp only [writestring, hlen] at h
          cases h
      | some len =>
          simp only [writestring, hlen] at h
          cases h
          rfl

theorem writeFiles_implements (n : Nat) (calls : List WriteCall) :
    Implements Attached.above (Ready c) (PotatoOS.writeFiles n calls)
      fun fuel => writeFiles c fuel n calls := by
  induction calls with
  | nil => exact .pure ()
  | cons call calls ih => exact .bind (writeFile_implements hq ..) fun _ => ih

/-! ### Drives that take time to commit -/

/-- A cluster that was written leaves a busy drive. -/
theorem writeClusterLoop_busy (hcommit : ∀ k, c.commit k ≠ 0) {address n i : Nat}
    (h : @writeClusterLoop Attached (atPorts c fuel) address buffer (n + 1) i p
      = (.value (), p')) :
    p'.drive.phase.accepts = false := by
  induction n generalizing p i with
  | zero =>
      obtain ⟨⟨⟩, p₁, hstore, h⟩ := bind_eq_value h
      cases h
      obtain ⟨k, hk⟩ := Nat.exists_eq_succ_of_ne_zero (hcommit p.drive.taken)
      rw [(store_value hq hstore).2.1, hk]
      rfl
  | succ n ih =>
      obtain ⟨⟨⟩, p₁, -, h⟩ := bind_eq_value h
      exact ih h

/-- The FAT cannot be read from one. -/
theorem readFatTableLoop_busy (hbusy : p.drive.phase.accepts = false) {g : Geometry}
    {entries n i : Nat} {fatTable r : Nat → Nat}
    (h : @readFatTableLoop Attached (atPorts c fuel) g entries n i fatTable p
      = (.value r, p')) : p' = p := by
  cases n with
  | zero =>
      cases h
      rfl
  | succ n =>
      simp only [readFatTableLoop] at h
      split at h
      · cases h
      · obtain ⟨block, p₁, hfetch, -⟩ := bind_eq_value h
        rw [(fetch_value hq hfetch).1] at hbusy
        cases hbusy

theorem updateFatEntry_busy (hbusy : p.drive.phase.accepts = false) {l : Locals} {g : Geometry}
    {clusterNumber value : Nat} :
    @updateFatEntry Attached (atPorts c fuel) l clusterNumber value g p ≠ (.value (), p') := by
  intro h
  obtain ⟨fatTable, p₁, hread, h⟩ := bind_eq_value h
  rw [readFatTableLoop_busy hq hbusy hread] at h
  split at h
  · cases h
  · rw [(store_value hq h).1] at hbusy
    cases hbusy

omit hq in
theorem findFreeCluster_sectors {l : Locals} {g : Geometry} {r : Nat}
    (h : @findFreeCluster Attached (atPorts c fuel) l g p = (.value r, p')) :
    g.sectorsPerCluster ≠ 0 := by
  intro hz
  obtain ⟨fatTable, p₁, -, h⟩ := bind_eq_value h
  rw [if_pos hz] at h
  cases h

theorem writeFile_never (hcommit : ∀ k, c.commit k ≠ 0) {l : Locals} {n : Nat}
    {filename content : CString}
    (hfree : (p.tty.mountedDrives n).rootDirectory.freeEntry ≠ none) :
    writeFile c fuel l n filename content p ≠ (.value (), p') := by
  obtain ⟨j, hj⟩ := Option.ne_none_iff_exists'.mp hfree
  intro h
  unfold writeFile PotatoOS.writeFile at h
  split at h
  · cases h
  · obtain ⟨drive, p₀, hget, h⟩ := bind_eq_value h
    cases hget
    change (p.above.mountedDrives n).rootDirectory.freeEntry = some j at hj
    simp only [hj] at h
    obtain ⟨startCluster, p₁, hfind, h⟩ := bind_eq_value h
    split at h
    · cases h
    obtain ⟨⟨⟩, p₂, hwrite, h⟩ := bind_eq_value h
    obtain ⟨⟨⟩, p₃, hupdate, -⟩ := bind_eq_value h
    obtain ⟨m, hm⟩ := Nat.exists_eq_succ_of_ne_zero (findFreeCluster_sectors hfind)
    unfold writeCluster at hwrite
    rw [hm] at hwrite
    exact updateFatEntry_busy hq (writeClusterLoop_busy hq hcommit hwrite) hupdate

end

/-! ### Main results -/

/-- On a drive that commits at once, files that fit a blank drive are written
through the ports and read back through them. -/
theorem writeFiles_ports_roundTrips (hi : Instant c) (hd : p.drive.phase.accepts = true) {n : Nat}
    {calls : List WriteCall} {room : Nat} (hroom : blockSize < room) (hblank : Blank n p.above)
    (hadm : Admissible room n p.above calls)
    (hreach : calls.length ≤ (p.above.mountedDrives n).reach p.above.disk) :
    Settles (fun fuel => writeFiles c fuel n calls) p fun _ p' => ∀ call ∈ calls,
      Settles (fun fuel => readFile c fuel n call.filename) p' fun _ p'' =>
        p''.tty.printed = p'.tty.printed ++ call.content.1 := by
  obtain ⟨s', hrun, hread⟩ := roundTrips_of_le_reach hblank hadm hroom hreach
  refine ((writeFiles_implements hi.quiet n calls).realizes ⟨hi, hd⟩ hrun).mono ?_
  rintro - p' ⟨-, rfl, hp'⟩ call hcall
  obtain ⟨s'', hrun', hprinted⟩ := hread call hcall
  refine ((readFile_implements hi.quiet n call.filename).realizes hp' hrun').mono ?_
  rintro - p'' ⟨-, rfl, -⟩
  exact hprinted

end

/-- Blocks come after some looks, and are committed at once or after one. -/
def sampleConduct (commit : Nat) : Conduct where
  read t := .ready t
  write t := .ready (2 * t)
  commit _ := commit
  flush _ := 0
  noise _ := 0

theorem sampleConduct_quiet (commit : Nat) : (sampleConduct commit).Quiet :=
  fun _ => UInt8.zero_and

theorem sampleConduct_instant : Instant (sampleConduct 0) :=
  ⟨sampleConduct_quiet 0, fun _ => rfl, fun _ => rfl, fun _ => rfl⟩

/-- The small store on an idle drive. -/
def sampleAttached : Attached := ⟨smallStore, { Pio.idleDrive with disk := smallStore.disk }⟩

theorem writeFiles_ports_roundTrips_sample :
    Settles (fun fuel => writeFiles (sampleConduct 0) fuel 0 [sampleCall sampleText (by decide)])
      sampleAttached fun _ p' => ∀ call ∈ [sampleCall sampleText (by decide)],
        Settles (fun fuel => readFile (sampleConduct 0) fuel 0 call.filename) p' fun _ p'' =>
          p''.tty.printed = p'.tty.printed ++ call.content.1 := by
  refine writeFiles_ports_roundTrips sampleConduct_instant rfl (show blockSize < 516 by decide)
    smallStore_blank ⟨by simp [sampleCall, sampleLocals], ?_, ?_, ?_⟩ ?_
  · intro call hcall
    rw [List.mem_singleton.mp hcall]
    exact ⟨by decide, by decide, by decide⟩
  · simp
  · decide +kernel
  · decide +kernel

end PotatoOS.BlockIo
