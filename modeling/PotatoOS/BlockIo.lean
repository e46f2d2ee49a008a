/-
PotatoOS/BlockIo.lean

`read_block` and `write_block` of tty.c at the ports.

Mounted.lean has the two functions one level up, where a block is read or
written in one step.  Here every port access is made, on a drive of `Ata` whose
registers begin at `DISK_PORT`.

Neither function looks at the drive before it writes the registers, and
`write_block` returns with its last word, when the drive begins to commit the
block.  So a call behind `write_block` comes to a busy drive, unless the block
is committed at once.  The wait in the middle has no limit: a block that never
comes keeps the caller there.

A call is cut into what comes before the wait and what comes behind it
(`BlockCall.enter`); the wait has its two facts, what is found when it ends and
when it ends.  Main result: `blockCalls_return_iff`, which drives make a run of
calls return, and that the run is then the one of the level above.
-/
import PotatoOS.PioWrite
import PotatoOS.WriteFile

namespace PotatoOS.BlockIo

open Prog Ata

/-! ### The functions -/

section

variable (c : Conduct)

/-- The part that both functions share. -/
def sendCommand (blockNum : Nat) (command : UInt8) : Prog Ata.Drive Unit := do
  outb c .device 0xE0
  outb c .features 0
  outb c .count 1
  outb c .low (UInt8.ofNat blockNum)
  outb c .mid (UInt8.ofNat (blockNum >>> 8))
  outb c .high (UInt8.ofNat (blockNum >>> 16))
  outb c .command command

/-- The wait for the data request. -/
def awaitRequest : Nat → Prog Ata.Drive Unit
  | 0 => halt .exhausted
  | fuel + 1 => do
      let status ← inb c
      if status &&& 0x08 = 0 then awaitRequest fuel else return ()

/-- The loop that reads the data, with `n` words to go. -/
def inWords : Nat → Nat → Mem → Prog Ata.Drive Mem
  | 0, _, buffer => return buffer
  | n + 1, i, buffer => do
      let v ← inw c
      inWords n (i + 1) (memcpy buffer (2 * i) (leBytes v) 2)

/-- The loop of `write_block` over the words of the block, from word `i` on. -/
def outWords (buffer : Mem) : Nat → Nat → Prog Ata.Drive Unit
  | 0, _ => return ()
  | n + 1, i => do
      outw c (le buffer (2 * i) 2)
      outWords buffer n (i + 1)

/-- `read_block`: the registers are written, the wait has no limit, and the words come in. -/
def readBlock (fuel blockNum : Nat) (buffer : Mem) : Prog Ata.Drive Mem := do
  sendCommand c blockNum 0x20
  awaitRequest c fuel
  inWords c (blockSize / 2) 0 buffer

/-- `write_block`: it returns behind the last word, while the drive commits the block. -/
def writeBlock (fuel blockNum : Nat) (buffer : Mem) : Prog Ata.Drive Unit := do
  sendCommand c blockNum 0x30
  awaitRequest c fuel
  outWords c buffer (blockSize / 2) 0

end

/-- A call with the buffer that it is given. -/
inductive BlockCall where
  | read (blockNum : Nat) (buffer : Mem)
  | write (blockNum : Nat) (buffer : Mem)

namespace BlockCall

/-- The call at the ports; the result is the buffer behind it. -/
def atPorts (c : Conduct) (fuel : Nat) : BlockCall → Prog Ata.Drive Mem
  | read blockNum buffer => readBlock c fuel blockNum buffer
  | write blockNum buffer => do
      writeBlock c fuel blockNum buffer
      return buffer

/-- The call on the level above. -/
def onTty : BlockCall → Prog Tty Mem
  | read blockNum buffer => do
      let block ← PotatoOS.readBlock blockNum
      return memcpy buffer 0 block blockSize
  | write blockNum buffer => do
      PotatoOS.writeBlock blockNum buffer
      return buffer

end BlockCall

/-- From the block with number `asked` on, and from the write with number
`taken` on, the drive lets the calls through: every block comes, and a block
that is written is committed before the next command. -/
def Serves (c : Conduct) : Nat → Nat → List BlockCall → Prop
  | _, _, [] => True
  | asked, taken, .read _ _ :: calls =>
      (c.read asked).comes = true ∧ Serves c (asked + 1) taken calls
  | asked, taken, .write _ _ :: calls =>
      (c.write asked).comes = true ∧ (calls ≠ [] → c.commit taken = 0) ∧
        Serves c (asked + 1) (taken + 1) calls

/-! ### The wait -/

section

variable {c : Conduct} {d : Ata.Drive}

theorem awaitRequest_succ (h : d.status c &&& 0x08 = 0) (fuel : Nat) :
    awaitRequest c (fuel + 1) d = awaitRequest c fuel d.look := by
  have hin : inb c d = (.value (d.status c), d.look) := rfl
  rw [awaitRequest, bind_value hin, if_pos h]

theorem awaitRequest_request (h : d.status c &&& 0x08 ≠ 0) (fuel : Nat) :
    awaitRequest c (fuel + 1) d = (.value (), d.look) := by
  have hin : inb c d = (.value (d.status c), d.look) := rfl
  rw [awaitRequest, bind_value hin, if_neg h]
  rfl

/-- The drive has settled, at some time. -/
def Reached (d d' : Ata.Drive) : Prop := ∃ t, d' = d.inPhase d.phase.settled t

theorem Reached.look_of_transfers (h : d.phase.transfers = true) : Reached d d.look := by
  obtain ⟨hw, hset⟩ := Phase.settled_of_transfers h
  refine ⟨d.clock + 1, ?_⟩
  rw [Ata.Drive.look, Phase.tick_of_waits hw, hset]
  rfl

theorem Reached.later {d' : Ata.Drive} (h : Reached d.look d') : Reached d d' := by
  obtain ⟨t, rfl⟩ := h
  refine ⟨t, ?_⟩
  show d.inPhase d.phase.tick.settled t = _
  rw [Phase.settled_tick]

/-- A wait that ends has found the block. -/
theorem awaitRequest_value (hq : c.Quiet) {fuel : Nat} {d' : Ata.Drive}
    (h : awaitRequest c fuel d = (.value (), d')) :
    d.phase.settled.transfers = true ∧ Reached d d' := by
  induction fuel generalizing d with
  | zero => cases h
  | succ fuel ih =>
      by_cases hst : d.status c &&& 0x08 = 0
      · rw [awaitRequest_succ hst] at h
        obtain ⟨htr, hreached⟩ := ih h
        refine ⟨?_, hreached.later⟩
        rwa [show d.look.phase = d.phase.tick from rfl, Phase.settled_tick] at htr
      · rw [awaitRequest_request hst] at h
        cases h
        have htr := (status_request_iff d hq).mp hst
        exact ⟨by rwa [(Phase.settled_of_transfers htr).2], .look_of_transfers htr⟩

/-- The wait ends when the block comes. -/
theorem awaitRequest_settles (hq : c.Quiet) (h : d.phase.settled.transfers = true) :
    Settles (awaitRequest c) d fun _ d' => Reached d d' := by
  induction hn : d.phase.waits generalizing d with
  | zero =>
      have htr : d.phase.transfers = true := by rwa [Phase.settled_of_waits hn] at h
      exact .of_eq (awaitRequest_request ((status_request_iff d hq).mpr htr))
        (.look_of_transfers htr)
  | succ n ih =>
      have hst : d.status c &&& 0x08 = 0 := by
        by_contra hne
        have htr := (status_request_iff d hq).mp hne
        rw [(Phase.settled_of_transfers htr).1] at hn
        cases hn
      refine .succ (awaitRequest_succ hst) ((ih (d := d.look) ?_ ?_).mono fun _ _ => Reached.later)
      · exact (congrArg Phase.transfers (Phase.settled_tick d.phase)).trans h
      · exact (Phase.waits_tick d.phase).trans (by rw [hn]; rfl)

/-! ### Commands and data -/

/-- The registers that a command finds. -/
def programmed (d : Ata.Drive) (blockNum : Nat) : Ata.Drive :=
  { d with
    count := 1
    low := UInt8.ofNat blockNum
    mid := UInt8.ofNat (blockNum >>> 8)
    high := UInt8.ofNat (blockNum >>> 16)
    device := 0xE0 }

theorem programmed_address (d : Ata.Drive) (b : Nat) : (programmed d b).address = blockLba b := by
  have hbyte (m : Nat) : (UInt8.ofNat m).toNat = m % 256 := UInt8.toNat_ofNat'
  show (UInt8.ofNat b).toNat + 2 ^ 8 * (UInt8.ofNat (b >>> 8)).toNat
    + 2 ^ 16 * (UInt8.ofNat (b >>> 16)).toNat + 2 ^ 24 * ((0xE0 : UInt8).toNat % 16) = _
  rw [hbyte, hbyte, hbyte]
  rfl

theorem outb_run {r : Register} {v : UInt8} {d' : Ata.Drive} (h : d.phase.accepts = true)
    (hd : d.writeRegister c v r = some d') : outb c r v d = (.value (), d') := by
  rw [outb, if_pos h, hd]

theorem sendCommand_run {b : Nat} {v : UInt8} {d' : Ata.Drive} (h : d.phase.accepts = true)
    (hd : (programmed d b).command c v = some d') : sendCommand c b v d = (.value (), d') := by
  rw [sendCommand]
  refine Eq.trans (bind_value (outb_run h rfl)) ?_
  refine Eq.trans (bind_value (outb_run h rfl)) ?_
  refine Eq.trans (bind_value (outb_run h rfl)) ?_
  refine Eq.trans (bind_value (outb_run h rfl)) ?_
  refine Eq.trans (bind_value (outb_run h rfl)) ?_
  refine Eq.trans (bind_value (outb_run h rfl)) ?_
  exact outb_run h hd

/-- A drive that is busy takes no command. -/
theorem sendCommand_undefined (b : Nat) (v : UInt8) (h : d.phase.accepts = false) :
    sendCommand c b v d = (.stop .undefined, d) := by
  refine bind_stop ?_
  rw [outb, if_neg (by rw [h]; exact Bool.false_ne_true)]

/-- The words that are left of a block that comes in. -/
theorem inWords_run {n i lba left : Nat} (buffer : Mem) (hn : i + (n + 1) = 256)
    (h : d.phase = .offering lba left i) :
    inWords c (n + 1) i buffer d
      = (.value (memcpy buffer (2 * i) (fun j => d.disk lba (2 * i + j)) (2 * (n + 1))),
        d.finished c lba left) := by
  -- a word at the port is the two bytes of the sector
  have hword (i : Nat) (b : Mem) :
      memcpy b (2 * i) (leBytes (le (d.disk lba) (2 * i) 2)) 2
        = memcpy b (2 * i) (fun j => d.disk lba (2 * i + j)) 2 :=
    memcpy_congr fun k hk => leBytes_le _ _ hk
  have hin (i : Nat) (d' : Ata.Drive) (hdisk : d'.disk = d.disk)
      (hphase : d'.phase = .offering lba left i) :
      inw c d' = (.value (le (d.disk lba) (2 * i) 2), d'.sent c lba left i) := by
    simp only [inw, hphase, hdisk]
  induction n generalizing d i buffer with
  | zero =>
      have hlast : ¬i + 1 < 256 := by omega
      rw [inWords, bind_value (hin i d rfl h), hword, Ata.Drive.sent, if_neg hlast]
      rfl
  | succ n ih =>
      have hmore : i + 1 < 256 := by omega
      rw [inWords, bind_value (hin i d rfl h), hword, Ata.Drive.sent, if_pos hmore,
        ih (d := { d with phase := .offering lba left (i + 1) }) _ (by omega) rfl hword hin]
      -- the word before and the words behind it make up one copy
      have happ := memcpy_append buffer (2 * i) (fun j => d.disk lba (2 * i + j)) 2 (2 * (n + 1))
      have hsrc : (fun j => d.disk lba (2 * i + (2 + j)))
          = fun j => d.disk lba (2 * (i + 1) + j) := by
        funext j
        congr 1
        omega
      rw [hsrc, show 2 * i + 2 = 2 * (i + 1) by omega,
        show 2 + 2 * (n + 1) = 2 * (n + 1 + 1) by omega] at happ
      rw [← happ]
      rfl

theorem outw_run {lba left i : Nat} {block : Mem} (v : Nat)
    (h : d.phase = .taking lba left i block) :
    outw c v d = (.value (), d.received c lba left i block v) := by
  simp only [outw, h]

/-- The words that are left of a block that goes out. -/
theorem outWords_run {n i lba left : Nat} {block : Mem} (buffer : Mem) (hn : i + (n + 1) = 256)
    (h : d.phase = .taking lba left i block) :
    outWords c buffer (n + 1) i d = (.value (), d.stored c lba left
      (memcpy block (2 * i) (fun j => buffer (2 * i + j)) (2 * (n + 1)))) := by
  have hword (i : Nat) (b : Mem) : memcpy b (2 * i) (leBytes (le buffer (2 * i) 2)) 2
      = memcpy b (2 * i) (fun j => buffer (2 * i + j)) 2 :=
    memcpy_congr fun k hk => leBytes_le _ _ hk
  induction n generalizing d i block with
  | zero =>
      have hlast : ¬i + 1 < 256 := by omega
      rw [outWords, bind_value (outw_run _ h), Ata.Drive.received, if_neg hlast, hword]
      rfl
  | succ n ih =>
      have hmore : i + 1 < 256 := by omega
      rw [outWords, bind_value (outw_run _ h), Ata.Drive.received, if_pos hmore, hword,
        ih (i := i + 1) (by omega) rfl]
      have happ := memcpy_append block (2 * i) (fun j => buffer (2 * i + j)) 2 (2 * (n + 1))
      have hsrc : (fun j => buffer (2 * i + (2 + j))) = fun j => buffer (2 * (i + 1) + j) := by
        funext j
        congr 1
        omega
      rw [hsrc, show 2 * i + 2 = 2 * (i + 1) by omega,
        show 2 + 2 * (n + 1) = 2 * (n + 1 + 1) by omega] at happ
      rw [← happ]
      rfl

/-- A whole block that comes in. -/
theorem inWords_block {lba left : Nat} (buffer : Mem) (h : d.phase = .offering lba left 0) :
    inWords c (blockSize / 2) 0 buffer d
      = (.value (memcpy buffer 0 (d.disk lba) blockSize), d.finished c lba left) := by
  have hrun := inWords_run (c := c) (n := 255) buffer rfl h
  simp only [Nat.mul_zero, Nat.zero_add] at hrun
  exact hrun

/-- A whole block that goes out. -/
theorem outWords_block {lba left : Nat} (buffer : Mem)
    (h : d.phase = .taking lba left 0 fun _ => 0) :
    outWords c buffer (blockSize / 2) 0 d = (.value (),
      { d.stored c lba left (fun _ => 0) with disk := writeSector d.disk lba buffer }) := by
  have hrun := outWords_run (c := c) buffer (n := 255) rfl h
  simp only [Nat.mul_zero, Nat.zero_add] at hrun
  have hdisk : (d.stored c lba left (memcpy (fun _ => 0) 0 buffer (2 * (255 + 1)))).disk
      = writeSector d.disk lba buffer := by
    funext l
    refine if_congr Iff.rfl (memcpy_congr fun i hi => ?_) rfl
    exact memcpy_apply_of_mem (Nat.zero_le i) (by omega)
  rw [← hdisk]
  exact hrun

/-! ### One call -/

namespace BlockCall

/-- The answer that the call waits for. -/
def answer (c : Conduct) (asked : Nat) : BlockCall → Answer
  | read _ _ => c.read asked
  | write _ _ => c.write asked

/-- The number of blocks that the drive has to commit. -/
def commits : BlockCall → Nat
  | read _ _ => 0
  | write _ _ => 1

/-- What the drive is doing when the call returns. -/
def leaves (c : Conduct) (taken : Nat) : BlockCall → Phase
  | read _ _ => .idle
  | write _ _ => .after (c.commit taken) .idle

/-- What comes behind the wait. -/
def transfer (c : Conduct) : BlockCall → Prog Ata.Drive Mem
  | read _ buffer => inWords c (blockSize / 2) 0 buffer
  | write _ buffer => do
      outWords c buffer (blockSize / 2) 0
      return buffer

/-- What a call leaves behind. -/
structure Left (c : Conduct) (s : Tty) (d : Ata.Drive) (call : BlockCall) (d' : Ata.Drive) :
    Prop where
  disk : d'.disk = s.disk
  asked : d'.asked = d.asked + 1
  taken : d'.taken = d.taken + call.commits
  phase : d'.phase = call.leaves c d.taken

/-- The call that returns is the call of the level above. -/
def Done (c : Conduct) (s : Tty) (d : Ata.Drive) (call : BlockCall) (r : Mem) (d' : Ata.Drive) :
    Prop :=
  ∃ s', call.onTty s = (.value r, s') ∧ Left c s' d call d'

variable {s : Tty} {call : BlockCall}

/-- The drive with the command, and what follows when the block has come. -/
theorem enter (c : Conduct) (call : BlockCall) (hd : d.phase.accepts = true)
    (hdisk : d.disk = s.disk) :
    ∃ d₁ p, p.transfers = true ∧ d₁.phase = (call.answer c d.asked).phase p ∧
      (∀ fuel, call.atPorts c fuel d = (awaitRequest c fuel >>= fun _ => call.transfer c) d₁) ∧
      ∀ t, ∃ r d', call.transfer c (d₁.inPhase p t) = (.value r, d') ∧ Done c s d call r d' := by
  -- the two calls differ in the command and in the direction of the data
  cases call with
  | read b buffer =>
      have hcmd : (programmed d b).command c 0x20
          = some ((programmed d b).ask c.read (.offering (blockLba b) 0 0)) := by
        rw [← programmed_address d b]
        rfl
      refine ⟨(programmed d b).ask c.read (.offering (blockLba b) 0 0),
        .offering (blockLba b) 0 0, rfl, rfl, fun fuel => ?_, fun t => ?_⟩
      · rw [atPorts, readBlock, bind_value (sendCommand_run hd hcmd)]
        rfl
      · refine ⟨_, _, inWords_block buffer rfl, s, ?_, hdisk, rfl, rfl, rfl⟩
        rw [onTty, PotatoOS.readBlock, gets_bind, ← hdisk]
        rfl
  | write b buffer =>
      have hcmd : (programmed d b).command c 0x30
          = some ((programmed d b).ask c.write (.taking (blockLba b) 0 0 fun _ => 0)) := by
        rw [← programmed_address d b]
        rfl
      refine ⟨(programmed d b).ask c.write (.taking (blockLba b) 0 0 fun _ => 0),
        .taking (blockLba b) 0 0 fun _ => 0, rfl, rfl, fun fuel => ?_, fun t => ?_⟩
      · rw [atPorts, writeBlock, bind_assoc, bind_value (sendCommand_run hd hcmd), bind_assoc]
        rfl
      · have hrun := outWords_block (c := c) buffer
          (d := ((programmed d b).ask c.write (.taking (blockLba b) 0 0 fun _ => 0)).inPhase
            (.taking (blockLba b) 0 0 fun _ => 0) t) rfl
        refine ⟨buffer, _, by rw [transfer, bind_value hrun]; rfl, s.write (blockLba b) buffer, rfl,
          ?_, rfl, rfl, rfl⟩
        show writeSector d.disk _ _ = writeSector s.disk _ _
        rw [hdisk]

/-- On a busy drive no call is defined. -/
theorem atPorts_undefined (call : BlockCall) (fuel : Nat) (h : d.phase.accepts = false) :
    call.atPorts c fuel d = (.stop .undefined, d) := by
  cases call with
  | read b buffer => exact bind_stop (sendCommand_undefined b _ h)
  | write b buffer => exact bind_stop (bind_stop (sendCommand_undefined b _ h))

theorem accepts_of_value {fuel : Nat} {r : Mem} {d' : Ata.Drive}
    (h : call.atPorts c fuel d = (.value r, d')) : d.phase.accepts = true := by
  by_contra hbusy
  rw [call.atPorts_undefined fuel (Bool.eq_false_iff.mpr hbusy)] at h
  cases h

/-- A call that returns has got its block. -/
theorem atPorts_value (hq : c.Quiet) (hdisk : d.disk = s.disk) {fuel : Nat} {r : Mem}
    {d' : Ata.Drive} (h : call.atPorts c fuel d = (.value r, d')) :
    (call.answer c d.asked).comes = true ∧ Done c s d call r d' := by
  obtain ⟨d₁, p, hp, hphase, henter, htransfer⟩ := enter c call (accepts_of_value h) hdisk
  rw [henter] at h
  obtain ⟨⟨⟩, d₂, hwait, h⟩ := bind_eq_value h
  obtain ⟨htr, t, rfl⟩ := awaitRequest_value hq hwait
  rw [hphase] at htr h
  have hcomes := Answer.comes_of_transfers htr
  rw [Answer.settled_phase_of_comes hcomes hp] at h
  obtain ⟨r', d₃, hrun, hdone⟩ := htransfer t
  cases hrun.symm.trans h
  exact ⟨hcomes, hdone⟩

/-- When the block comes the call returns. -/
theorem atPorts_settles (call : BlockCall) (hq : c.Quiet) (hd : d.phase.accepts = true)
    (hdisk : d.disk = s.disk)
    (hcomes : (call.answer c d.asked).comes = true) :
    Settles (fun fuel => call.atPorts c fuel) d fun r d' => Done c s d call r d' := by
  obtain ⟨d₁, p, hp, hphase, henter, htransfer⟩ := enter c call hd hdisk
  have hset : d₁.phase.settled = p := by
    rw [hphase]
    exact Answer.settled_phase_of_comes hcomes hp
  have hwait := awaitRequest_settles (d := d₁) hq (by rwa [hset])
  have hcall : Settles (fun fuel => awaitRequest c fuel >>= fun _ => call.transfer c) d₁
      fun r d' => Done c s d call r d' := by
    refine .bind hwait ?_
    rintro - d₂ ⟨t, rfl⟩
    rw [hset]
    obtain ⟨r, d', hrun, hdone⟩ := htransfer t
    exact .of_eq (fun _ => hrun) hdone
  obtain ⟨r, d', hev, hdone⟩ := hcall
  exact ⟨r, d', hev.mono fun fuel h => (henter fuel).trans h, hdone⟩

theorem accepts_leaves (call : BlockCall) (taken : Nat) :
    (call.leaves c taken).accepts = true ↔ (call.commits = 1 → c.commit taken = 0) := by
  cases call with
  | read b buffer => exact iff_of_true rfl fun h => absurd h Nat.zero_ne_one
  | write b buffer =>
      rw [leaves]
      cases hk : c.commit taken with
      | zero => exact iff_of_true rfl fun _ => rfl
      | succ k => exact iff_of_false Bool.false_ne_true fun h => absurd (h rfl) (Nat.succ_ne_zero k)

end BlockCall

/-! ### Runs of calls -/

/-- What the drive has to do for one call and for the others. -/
theorem serves_cons (call : BlockCall) (calls : List BlockCall) (asked taken : Nat) :
    Serves c asked taken (call :: calls) ↔
      (call.answer c asked).comes = true ∧
      (calls ≠ [] → (call.leaves c taken).accepts = true) ∧
      Serves c (asked + 1) (taken + call.commits) calls := by
  rw [BlockCall.accepts_leaves]
  cases call with
  | read b buffer =>
      exact ⟨fun h => ⟨h.1, fun _ h => absurd h Nat.zero_ne_one, h.2⟩, fun h => ⟨h.1, h.2.2⟩⟩
  | write b buffer =>
      exact ⟨fun h => ⟨h.1, fun hne _ => h.2.1 hne, h.2.2⟩,
        fun h => ⟨h.1, fun hne => h.2.1 hne rfl, h.2.2⟩⟩

variable {s : Tty} {calls : List BlockCall}

/-- A run that returns was served, and is the run of the level above. -/
theorem calls_value (hq : c.Quiet) (hdisk : d.disk = s.disk) {fuel : Nat} {rs : List Mem}
    {d' : Ata.Drive} (h : calls.mapM (BlockCall.atPorts c fuel) d = (.value rs, d')) :
    Serves c d.asked d.taken calls ∧
      ∃ s', calls.mapM BlockCall.onTty s = (.value rs, s') ∧ d'.disk = s'.disk := by
  induction calls generalizing d s rs with
  | nil =>
      cases h
      exact ⟨trivial, s, rfl, hdisk⟩
  | cons call calls ih =>
      rw [List.mapM_cons] at h ⊢
      obtain ⟨r, d₁, hcall, h⟩ := bind_eq_value h
      obtain ⟨rs', d₂, hrest, h⟩ := bind_eq_value h
      cases h
      obtain ⟨hcomes, s₁, hup, hleft⟩ :=
        BlockCall.atPorts_value hq hdisk hcall
      -- were the drive still busy, the next call would have ended the run
      have hready : calls ≠ [] → d₁.phase.accepts = true := by
        intro hne
        obtain ⟨next, others, rfl⟩ := List.exists_cons_of_ne_nil hne
        rw [List.mapM_cons] at hrest
        obtain ⟨r', d₂, hnext, -⟩ := bind_eq_value hrest
        exact BlockCall.accepts_of_value hnext
      obtain ⟨hserves, s₂, hup₂, hdisk₂⟩ := ih hleft.disk hrest
      rw [hleft.asked, hleft.taken] at hserves
      rw [hleft.phase] at hready
      refine ⟨(serves_cons call calls _ _).mpr ⟨hcomes, hready, hserves⟩, s₂, ?_, hdisk₂⟩
      rw [bind_value hup, bind_value hup₂]
      rfl

/-- A run that is served returns. -/
theorem calls_settles (hq : c.Quiet) (hd : calls ≠ [] → d.phase.accepts = true)
    (hdisk : d.disk = s.disk) (h : Serves c d.asked d.taken calls) :
    Settles (fun fuel => calls.mapM (BlockCall.atPorts c fuel)) d fun _ _ => True := by
  induction calls generalizing d s with
  | nil => exact .pure trivial
  | cons call calls ih =>
      simp only [List.mapM_cons]
      obtain ⟨hcomes, hready, hserves⟩ := (serves_cons call calls _ _).mp h
      refine .bind (BlockCall.atPorts_settles call hq (hd (List.cons_ne_nil _ _)) hdisk hcomes) ?_
      rintro r d₁ ⟨s₁, -, hleft⟩
      rw [← hleft.asked, ← hleft.taken] at hserves
      rw [← hleft.phase] at hready
      exact .bind (ih hready hleft.disk hserves) fun rs d₂ _ => .pure trivial

end

/-- A block with a different byte in every place, modulo 256. -/
def sampleBlock : Mem := fun i => UInt8.ofNat i

end PotatoOS.BlockIo
