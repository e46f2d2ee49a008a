/-
PotatoOS/Division.lean

Divisions by zero: a session on a volume whose boot sector holds anything.

`FATInitialize` divides by the number of sectors in a cluster and, unless the
volume counts as FAT32, by the number of bytes in a sector; `FATRead` and
`FATWrite` divide by the product of the two.  All three come from the disk and
none is checked.  So a session divides by zero on a boot sector that can be read
and lacks one of the fields, with one exception: a volume that counts as FAT32
is mounted without a sector size, and where the copy of the boot sector has
fallen on the variables, the two functions may reject every cluster before they
come to divide.  `neverDivides_iff` is the exact condition.
-/
import PotatoOS.Boot
import PotatoOS.Halting
import PotatoOS.Listing

namespace PotatoOS

open Prog

/-! ### Sessions -/

/-- A call of the driver on a mounted volume. -/
inductive DriverCall where
  | fatRead (clusterNum : Nat)
  | fatWrite (clusterNum clusterVal : Nat)
  | allocateFreeFAT
  | directoryList (cluster : Nat) (attributesToAdd : UInt8) (exclusive : Int)
      (arrays : Nat → Nat → Mem)
  | directorySearch (filepart : Mem) (cluster : Nat)
  | directoryAdd (cluster : Nat) (fileToAdd : DirectoryEntry)

/-- The call, with a step budget for the walks. -/
def DriverCall.run (env : Env) (g : Globals) (fuel : Nat) : DriverCall → Prog Listing Unit
  | .fatRead clusterNum => do
      let _ ← Listing.lift (PotatoOS.fatRead env g clusterNum)
  | .fatWrite clusterNum clusterVal => do
      let _ ← Listing.lift (PotatoOS.fatWrite env g clusterNum clusterVal)
  | .allocateFreeFAT => do
      let _ ← Listing.lift (PotatoOS.allocateFreeFAT env g)
  | .directoryList cluster attributesToAdd exclusive arrays => do
      let _ ← PotatoOS.directoryList env g attributesToAdd exclusive arrays fuel cluster
  | .directorySearch filepart cluster => do
      let _ ← Listing.lift (PotatoOS.directorySearch env g filepart fuel cluster)
  | .directoryAdd cluster fileToAdd => do
      let _ ← Listing.lift (PotatoOS.directoryAdd env g fileToAdd fuel cluster)

/-- One call after the other. -/
def runDriver (env : Env) (g : Globals) (fuel : Nat) : List DriverCall → Prog Listing Unit
  | [] => pure ()
  | call :: calls => do
      call.run env g fuel
      runDriver env g fuel calls

/-- Mount the volume and, if that succeeds, make the calls. -/
def session (env : Env) (A : Addresses) (fuel : Nat) (calls : List DriverCall) :
    Prog Listing Unit := do
  match ← Listing.lift (fatInitialize env A) with
  | .error _ => return
  | .ok g => runDriver env g fuel calls

/-- No session divides by zero. -/
def NeverDivides (env : Env) (A : Addresses) (s : State) : Prop :=
  ∀ fuel calls, (session env A fuel calls (listingOf s)).1 ≠ .stop .divideByZero

/-! ### Calls with a cluster size -/

section

variable {env : Env} {g : Globals}

/-- Why a walk can stop. -/
def WalkStop (g : Globals) (e : Stop) : Prop := e = .exhausted ∨ DriverStop g e

theorem searchSlots_within {next : Nat → Prog State (Except Int (DirectoryEntry × Nat))}
    (hnext : ∀ b, Within (WalkStop g) (next b)) (key : Mem) (c n k : Nat) :
    Within (WalkStop g) (searchSlots env g key c next n k) := by
  have hslot (k : Nat) {m : Prog State (Except Int (DirectoryEntry × Nat))}
      (hm : Within (WalkStop g) m) : Within (WalkStop g) (searchSlot key k m) :=
    .bind (.gets _) fun e => .ite (.pure _) (.ite hm (.pure _))
  induction n generalizing k with
  | zero =>
      refine hslot k (.bind ((fatRead_within env g c).mono fun e => .inr) fun v => ?_)
      split
      · exact .ite (.pure _) (hnext _)
      · exact .pure _
  | succ n ih => exact hslot k (ih _)

theorem directorySearch_within (filepart : Mem) (fuel c : Nat) :
    Within (WalkStop g) (directorySearch env g filepart fuel c) := by
  induction fuel generalizing c with
  | zero => exact .halt (.inl rfl)
  | succ fuel ih =>
      refine .ite (.pure _) ?_
      split
      · exact .halt (.inr (.inl rfl))
      · refine .bind (clusterRead_within env g _ _) fun r => .ite (.pure _) ?_
        exact searchSlots_within ih _ _ _ _

theorem addSlots_within {next : Nat → Prog State (Int × DirectoryEntry)}
    (hnext : ∀ b, Within (WalkStop g) (next b)) (e : DirectoryEntry) (c n k : Nat) :
    Within (WalkStop g) (addSlots env g e c next n k) := by
  have hslot (k : Nat) {m : Prog State (Int × DirectoryEntry)} (hm : Within (WalkStop g) m) :
      Within (WalkStop g) (addSlot env g e c k m) :=
    .bind (.gets _) fun _ => .ite hm ((storeEntry_within env g e c k).mono fun _ => .inr)
  induction n generalizing k with
  | zero =>
      refine hslot k (.bind ((fatRead_within env g c).mono fun _ => .inr) fun v => ?_)
      refine .ite (.bind ((allocateFreeFAT_within env g).mono fun _ => .inr) fun x => ?_) (hnext _)
      refine .ite (.pure _) (.bind ((fatWrite_within env g _ _).mono fun _ => .inr) fun w => ?_)
      exact .ite (.pure _) (hnext x)
  | succ n ih => exact hslot k (ih _)

theorem directoryAdd_within (e : DirectoryEntry) (fuel c : Nat) :
    Within (WalkStop g) (directoryAdd env g e fuel c) := by
  induction fuel generalizing c with
  | zero => exact .halt (.inl rfl)
  | succ fuel ih =>
      refine .ite (.pure _) (.bind (clusterRead_within env g _ _) fun r => .ite (.pure _) ?_)
      exact addSlots_within ih _ _ _ _

theorem listSlots_within {next : Nat → Prog Listing Int}
    (hnext : ∀ b, Within (WalkStop g) (next b)) (hide : UInt8) (arrays : Nat → Nat → Mem)
    (c fuel k : Nat) : Within (WalkStop g) (listSlots env g hide arrays c next fuel k) := by
  induction fuel generalizing k with
  | zero => exact .halt (.inl rfl)
  | succ fuel ih =>
      refine .bind (.gets _) fun e => .bind (.modify _) fun _ => .ite (.pure _) ?_
      refine .ite (.bind (.modify _) fun _ => ih _) (.ite (.ite (ih _) ?_) ?_)
      · refine .bind (.note (.zoom ((fatRead_within env g c).mono fun _ => .inr))) fun v => ?_
        exact .ite (.pure _) (hnext _)
      · exact .bind (.modify _) fun _ => ih _

theorem directoryList_within (add : UInt8) (exclusive : Int) (arrays : Nat → Nat → Mem)
    (fuel c : Nat) : Within (WalkStop g) (directoryList env g add exclusive arrays fuel c) := by
  induction fuel generalizing c with
  | zero => exact .halt (.inl rfl)
  | succ fuel ih =>
      refine .ite (.pure _) (.bind (.zoom (clusterRead_within env g _ _)) fun r => ?_)
      exact .ite (.pure _) (listSlots_within ih _ _ _ _ _)

/-- One call. -/
theorem DriverCall.run_within (fuel : Nat) (call : DriverCall) :
    Within (WalkStop g) (call.run env g fuel) := by
  cases call with
  | fatRead c => exact .bind (.zoom ((fatRead_within env g c).mono fun _ => .inr)) fun _ => .pure _
  | fatWrite c v =>
      exact .bind (.zoom ((fatWrite_within env g c v).mono fun _ => .inr)) fun _ => .pure _
  | allocateFreeFAT =>
      exact .bind (.zoom ((allocateFreeFAT_within env g).mono fun _ => .inr)) fun _ => .pure _
  | directoryList c add exclusive arrays =>
      exact .bind (directoryList_within add exclusive arrays fuel c) fun _ => .pure _
  | directorySearch filepart c =>
      exact .bind (.zoom (directorySearch_within filepart fuel c)) fun _ => .pure _
  | directoryAdd c e => exact .bind (.zoom (directoryAdd_within e fuel c)) fun _ => .pure _

/-- Any number of calls. -/
theorem runDriver_within (fuel : Nat) (calls : List DriverCall) :
    Within (WalkStop g) (runDriver env g fuel calls) := by
  induction calls with
  | nil => exact .pure _
  | cons call calls ih => exact .bind (call.run_within fuel) fun _ => ih

end

/-! ### Whole sessions -/

section

variable {env : Env} {A : Addresses} {s : State}

theorem int13hRead_first (env : Env) (s : State) :
    int13hRead env 0 1 s = if env.readFails s.tick partStartLba = true then (.value (-1), s.miss)
      else (.value 0, s.load partStartLba diskLocation) := by
  rw [int13hRead, int13hReadO, if_neg (by decide), if_neg (by decide), lbaOf_rebased (by decide)]
  simp only [readBlocks, gets_bind, Nat.add_zero]
  split
  · rfl
  · rfl

/-- The session, once the volume is mounted. -/
theorem session_mounted {fuel : Nat} {calls : List DriverCall} {g : Globals} {s' : State}
    (h : fatInitialize env A s = (.value (.ok g), s')) :
    session env A fuel calls (listingOf s) = runDriver env g fuel calls (listingOf s') := by
  have hlift : Listing.lift (fatInitialize env A) (listingOf s) = (.value (.ok g), listingOf s') :=
    zoom_run h
  rw [session, bind_value hlift]

theorem fatRead_divides {g : Globals} (hg : g.Admits) (h₀ : g.clusterSize = 0) (s : State) :
    fatRead env g 2 s = (.stop .divideByZero, s) := by
  have hstop (w : Nat) (init : Option UInt8) :
      readEntry env g w init 2 s = (.stop .divideByZero, s) := by
    simp only [readEntry, if_pos h₀]
    rfl
  rw [fatRead, if_neg (not_outOfRange ⟨le_rfl, hg.1⟩)]
  split
  · exact bind_stop (hstop _ _)
  next h32 =>
    rw [if_pos (hg.2.resolve_left h32)]
    exact bind_stop (hstop _ _)

/-- A volume that is mounted without a sector size, as long as its clusters pass the checks. -/
theorem session_divides {g : Globals} {s' : State}
    (h : fatInitialize env A s = (.value (.ok g), s')) (hg : g.Admits) (h₀ : g.clusterSize = 0) :
    (session env A 0 [.fatRead 2] (listingOf s)).1 = .stop .divideByZero := by
  have hread : Listing.lift (fatRead env g 2) (listingOf s') = (.stop .divideByZero, _) :=
    zoom_run (fatRead_divides hg h₀ s')
  rw [session_mounted h, runDriver, bind_stop]
  exact bind_stop hread

/-- A boot sector that can be read and lacks the size of a cluster, or of a sector. -/
theorem exists_session_divides (hread : env.readFails s.tick partStartLba = false)
    (hzero : BootSector.sectorsPerCluster (s.disk.sector 0) = 0 ∨
      BootSector.bytesPerSector (s.disk.sector 0) = 0 ∧
        (BootSector.fatType (s.disk.sector 0) = 32 →
          (BootSector.globals A (s.disk.sector 0)).Admits)) :
    ∃ calls, (session env A 0 calls (listingOf s)).1 = .stop .divideByZero := by
  have hfirst := int13hRead_first env s
  rw [if_neg (by rw [hread]; decide)] at hfirst
  have hmount := fatInitialize_read (A := A) hfirst
  split at hmount
  · -- the volume is not even mounted
    have hlift : Listing.lift (fatInitialize env A) (listingOf s) = (.stop .divideByZero, _) :=
      zoom_run hmount
    exact ⟨[], by rw [session, bind_stop hlift]⟩
  next hsizes =>
    obtain ⟨hspc, htype⟩ := not_or.mp hsizes
    obtain ⟨hbps, hadmits⟩ := hzero.resolve_left hspc
    have h32 : BootSector.fatType (s.disk.sector 0) = 32 := by
      by_contra h32
      exact htype ⟨h32, hbps⟩
    refine ⟨[.fatRead 2], session_divides hmount (hadmits h32) (Nat.mul_eq_zero.mpr (.inl ?_))⟩
    rw [BootSector.globals_bytesPerSector, hbps]

/-- Without a boot sector there is nothing to divide. -/
theorem neverDivides_of_readFails (hread : env.readFails s.tick partStartLba = true) :
    NeverDivides env A s := by
  intro fuel calls hstop
  have hfirst := int13hRead_first env s
  rw [if_pos hread] at hfirst
  have hlift : Listing.lift (fatInitialize env A) (listingOf s)
      = (.value (.error (-1)), listingOf s.miss) := zoom_run (bind_value hfirst)
  rw [session, bind_value hlift] at hstop
  cases hstop

/-- With both sizes no call divides by zero; nor where every cluster is rejected. -/
theorem neverDivides_of_sizes (hread : env.readFails s.tick partStartLba = false)
    (hspc : BootSector.sectorsPerCluster (s.disk.sector 0) ≠ 0)
    (hbps : BootSector.bytesPerSector (s.disk.sector 0) ≠ 0 ∨
      BootSector.fatType (s.disk.sector 0) = 32 ∧
        ¬(BootSector.globals A (s.disk.sector 0)).Admits) : NeverDivides env A s := by
  intro fuel calls hstop
  have hfirst := int13hRead_first env s
  rw [if_neg (by rw [hread]; decide)] at hfirst
  have hmount := fatInitialize_read (A := A) hfirst
  rw [if_neg (not_or.mpr ⟨hspc, fun h => hbps.elim (fun hb => hb h.2) fun hb => h.1 hb.1⟩)]
    at hmount
  rw [session_mounted hmount] at hstop
  rcases runDriver_within fuel calls _ _ hstop with h | h | ⟨-, h₀, hadmits⟩
  · cases h
  · cases h
  · rcases hbps with hbps | ⟨-, hno⟩
    · rw [Globals.clusterSize, BootSector.globals_bytesPerSector,
        BootSector.globals_sectorsPerCluster] at h₀
      exact Nat.mul_ne_zero hbps hspc h₀
    · exact hno hadmits

/-- Sessions never divide by zero if and only if the boot sector cannot be read, or gives the size
of a sector and of a cluster, or a volume without sector size is mounted as FAT32 and the
variables that the copy leaves reject every cluster. -/
theorem neverDivides_iff (env : Env) (A : Addresses) (s : State) :
    NeverDivides env A s ↔ env.readFails s.tick partStartLba = true ∨
      BootSector.sectorsPerCluster (s.disk.sector 0) ≠ 0 ∧
        (BootSector.bytesPerSector (s.disk.sector 0) ≠ 0 ∨
          BootSector.fatType (s.disk.sector 0) = 32 ∧
            ¬(BootSector.globals A (s.disk.sector 0)).Admits) := by
  constructor
  · intro hnever
    by_contra hno
    obtain ⟨hread, hsizes⟩ := not_or.mp hno
    rw [not_and_or, not_not, not_or, not_not, not_and, not_not] at hsizes
    obtain ⟨calls, hstop⟩ := exists_session_divides ((Bool.not_eq_true _).mp hread) hsizes
    exact hnever 0 calls hstop
  · rintro (hread | ⟨hspc, hbps⟩)
    · exact neverDivides_of_readFails hread
    · rcases hread : env.readFails s.tick partStartLba with - | -
      · exact neverDivides_of_sizes hread hspc hbps
      · exact neverDivides_of_readFails hread

end

/-- A boot sector of FAT32 without the size of a sector. -/
def unsizedBoot : Mem := memcpy (sampleBoot 1 32 2 547 70000) 11 (leBytes 0) 2

/-- A sector full of zeros stops the mount, wherever the variables lie.  Without the size of a
sector the mount succeeds and the next call divides by zero, unless the copy has fallen on the
variables, where no cluster is accepted any more. -/
theorem not_neverDivides_unsizedBoot :
    (∀ A, ¬NeverDivides reliable A (bootState fun _ => 0)) ∧
      ¬NeverDivides reliable variablesFirst (bootState unsizedBoot) ∧
      NeverDivides reliable variablesBehind (bootState unsizedBoot) := by
  refine ⟨fun A hnever => ?_, fun hnever => ?_, ?_⟩
  · obtain ⟨calls, hstop⟩ := @exists_session_divides reliable A (bootState fun _ => 0) rfl
      (.inl (by decide +kernel))
    exact hnever 0 calls hstop
  · obtain ⟨calls, hstop⟩ := @exists_session_divides reliable variablesFirst (bootState unsizedBoot)
      rfl (.inr ⟨by decide +kernel, fun _ => ⟨by decide +kernel, .inl (by decide +kernel)⟩⟩)
    exact hnever 0 calls hstop
  · have hno : ¬(BootSector.globals variablesBehind unsizedBoot).Admits := by
      rintro ⟨h, -⟩
      revert h
      decide +kernel
    exact neverDivides_of_sizes rfl (by decide +kernel) (.inr ⟨by decide +kernel, hno⟩)

end PotatoOS
