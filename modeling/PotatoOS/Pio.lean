/-
PotatoOS/Pio.lean

The block transfers of FAT.c at the ports: `int13h_read_o` and `int13h_write_o`
with every port access of theirs, on a drive of `Ata`.

Drive.lean has the same two functions one level up: there a block is read or
written in one step, and an environment says which blocks fail.  Here the
registers are written one by one, the status is polled and each word goes
through the data port.  The two levels are tied by `Matches`: same memory, same
disk, and as many blocks asked for as the upper level has counted.

A read is total, since the wait for a block is given up after 100 looks.  A
write waits without a limit, so it has a budget; what is proved of it is in
PioWrite.lean.
-/
import PotatoOS.Ata
import PotatoOS.Drive
import PotatoOS.Terminal

namespace PotatoOS.Pio

open Prog Ata

/-! ### The machine at its ports -/

/-- Memory, drive, screen, and what `printss` has been given. -/
structure Port where
  mem : Mem
  drive : Ata.Drive
  terminal : Terminal
  console : List (List UInt8)

variable (c : Conduct)

/-- An access to the drive. -/
def onDrive {α : Type} : Prog Ata.Drive α → Prog Port α :=
  zoom Port.drive fun p d => { p with drive := d }

/-- `outb` to the ports 0x1F1 to 0x1F7. -/
def outb (r : Register) (v : UInt8) : Prog Port Unit := onDrive (Ata.outb c r v)

/-- `inb(0x1F7)`. -/
def inStatus : Prog Port UInt8 := onDrive (Ata.inb c)

/-- `inb(0x323)`; what is read there is not used. -/
def shortDelay : Prog Port Unit := onDrive Ata.pause

/-- `inw(0x1F0)`. -/
def inData : Prog Port Nat := onDrive (Ata.inw c)

/-- `outw(0x1F0, v)`. -/
def outData (v : Nat) : Prog Port Unit := onDrive (Ata.outw c v)

/-- `terminal_newline`. -/
def newline : Prog Port Unit := modify fun p => { p with terminal := terminalNewline p.terminal }

/-- `terminal_writestring`. -/
def writestring (s : String) : Prog Port Unit :=
  modify fun p => { p with terminal := terminalWritestring p.terminal (text s) }

/-- `printss`: a text for the serial console. -/
def printss (s : String) : Prog Port Unit :=
  modify fun p => { p with console := p.console ++ [text s] }

/-- Element `idx` of an array of 16-bit words. -/
def wordAt (buffer idx : Nat) : Nat := (buffer + 2 * idx) % 2 ^ 32

/-! ### The functions -/

/-- The part that both functions share: block count, sector number, command. -/
def sendCommand (sectorOffset numBlocks : Nat) (command : UInt8) : Prog Port Unit := do
  outb c .features 0
  outb c .count (UInt8.ofNat numBlocks)
  outb c .low (UInt8.ofNat sectorOffset)
  outb c .mid (UInt8.ofNat (sectorOffset >>> 8))
  outb c .high (UInt8.ofNat (sectorOffset >>> 16))
  outb c .device (UInt8.ofNat (0xE0 ||| (sectorOffset >>> 24 &&& 0x0F)))
  outb c .command command

/-- The wait for a block, with that many looks left before it is given up. -/
def awaitData : Nat → Prog Port Bool
  | 0 => do
      newline
      writestring "[ FAIL ] Attempting to initialize FAT..."
      return false
  | looks + 1 => do
      let status ← inStatus c
      if status &&& 0x08 = 0 then
        writestring "."
        awaitData looks
      else return true

/-- The loop over the words of a block, with `n` of them to go. -/
def readWords (buffer : Nat) : Nat → Nat → Prog Port Unit
  | 0, _ => return ()
  | n + 1, idx => do
      let v ← inData c
      modify fun p => { p with mem := memcpy p.mem (wordAt buffer idx) (leBytes v) 2 }
      readWords buffer n (idx + 1)

/-- The loop over the blocks, with so many looks for each of them. -/
def readBlocks (looks buffer : Nat) : Nat → Prog Port Int
  | 0 => return 0
  | n + 1 => do
      newline
      writestring "[      ] Waiting for device to be ready..."
      let ready ← awaitData c looks
      if ready then
        readWords c buffer 256 0
        readBlocks looks ((buffer + 512) % 2 ^ 32) n
      else return -1

/-- `int13h_read_o`, down to the ports. -/
def int13hReadO (sectorOffset numBlocks readLocationOffset : Nat) : Prog Port Int :=
  if (sectorOffset + numBlocks) % 2 ^ 32 > partLength then pure (-1)
  else if numBlocks > 0x7F then pure (-1)
  else do
    sendCommand c ((sectorOffset + partStartLba) % 2 ^ 32) numBlocks 0x20
    readBlocks c 100 ((diskLocation + readLocationOffset) % 2 ^ 32) numBlocks

/-- The wait before a block is written.  The status is read again for each
question. -/
def awaitRoom : Nat → Prog Port Unit
  | 0 => halt .exhausted
  | fuel + 1 => do
      let error ← inStatus c
      if error &&& 0x01 = 0x01 then
        printss "error1\n"
        awaitRoom fuel
      else
        let ready ← inStatus c
        if ready &&& 0x40 ≠ 0x40 then
          printss "Not ready!\n"
          awaitRoom fuel
        else
          let busy ← inStatus c
          if busy &&& 0x80 = 0x80 then
            printss "Busy!\n"
            awaitRoom fuel
          else
            let request ← inStatus c
            if request &&& 0x08 ≠ 0x08 then
              printss "Have no data/not ready to recieve PIO!\n"
              awaitRoom fuel
            else return ()

/-- The words of a block from memory to the data port, with a delay behind each. -/
def writeWords (buffer : Nat) : Nat → Nat → Prog Port Unit
  | 0, _ => return ()
  | n + 1, idx => do
      let v ← gets fun p => le p.mem (wordAt buffer idx) 2
      outData c v
      shortDelay
      shortDelay
      shortDelay
      writeWords buffer n (idx + 1)

/-- The loop over the blocks; every block is waited for without a limit. -/
def writeBlocks (fuel buffer : Nat) : Nat → Prog Port Unit
  | 0 => return ()
  | n + 1 => do
      awaitRoom c fuel
      writeWords c buffer 256 0
      writeBlocks fuel ((buffer + 512) % 2 ^ 32) n

/-- The wait for the cache. -/
def awaitFlush : Nat → Prog Port Unit
  | 0 => halt .exhausted
  | fuel + 1 => do
      let status ← inStatus c
      if status &&& 0x80 ≠ 0 then awaitFlush fuel else return ()

/-- `int13h_write_o`, down to the ports.  The cache is flushed in the end. -/
def int13hWriteO (fuel sectorOffset numBlocks writeLocationOffset : Nat) : Prog Port Int :=
  if (sectorOffset + numBlocks) % 2 ^ 32 > partLength then pure (-1)
  else if numBlocks > 0x7F then pure (-1)
  else do
    sendCommand c ((sectorOffset + partStartLba) % 2 ^ 32) numBlocks 0x30
    writeBlocks c fuel ((diskLocation + writeLocationOffset) % 2 ^ 32) numBlocks
    outb c .command 0xE7
    awaitFlush c fuel
    return 0

/-! ### Commands -/

section

variable {c : Conduct} {p : Port}

/-- The registers that a command finds. -/
def programmed (d : Ata.Drive) (sectorOffset numBlocks : Nat) : Ata.Drive :=
  { d with
    count := UInt8.ofNat numBlocks
    low := UInt8.ofNat sectorOffset
    mid := UInt8.ofNat (sectorOffset >>> 8)
    high := UInt8.ofNat (sectorOffset >>> 16)
    device := UInt8.ofNat (0xE0 ||| (sectorOffset >>> 24 &&& 0x0F)) }

theorem onDrive_run {α : Type} {m : Prog Ata.Drive α} {o : Outcome α} {d : Ata.Drive}
    (h : m p.drive = (o, d)) : onDrive m p = (o, { p with drive := d }) := zoom_run h

theorem outb_run {r : Register} {v : UInt8} {d : Ata.Drive} (h : p.drive.phase.accepts = true)
    (hd : p.drive.writeRegister c v r = some d) :
    outb c r v p = (.value (), { p with drive := d }) := by
  refine onDrive_run ?_
  rw [Ata.outb, if_pos h, hd]

/-- A drive that is doing something takes no register. -/
theorem outb_undefined (r : Register) (v : UInt8) (h : p.drive.phase.accepts = false) :
    outb c r v p = (.stop .undefined, p) := by
  refine onDrive_run ?_
  rw [Ata.outb, if_neg (by rw [h]; exact Bool.false_ne_true)]

theorem sendCommand_run {n k : Nat} {v : UInt8} {d : Ata.Drive}
    (h : p.drive.phase.accepts = true) (hd : (programmed p.drive n k).command c v = some d) :
    sendCommand c n k v p = (.value (), { p with drive := d }) := by
  rw [sendCommand]
  refine Eq.trans (bind_value (outb_run h rfl)) ?_
  refine Eq.trans (bind_value (outb_run h rfl)) ?_
  refine Eq.trans (bind_value (outb_run h rfl)) ?_
  refine Eq.trans (bind_value (outb_run h rfl)) ?_
  refine Eq.trans (bind_value (outb_run h rfl)) ?_
  refine Eq.trans (bind_value (outb_run h rfl)) ?_
  exact outb_run h hd

theorem programmed_address (d : Ata.Drive) (n k : Nat) :
    (programmed d n k).address = lbaOf (programLba n) := by
  have hdev : (UInt8.ofNat (0xE0 ||| (n >>> 24 &&& 0x0F))).toNat % 16
      = (0xE0 ||| (n >>> 24 &&& 0x0F)) % 16 := by
    rw [UInt8.toNat_ofNat']
    exact Nat.mod_mod_of_dvd _ (by decide)
  have hbyte (m : Nat) : (UInt8.ofNat m).toNat = m % 256 := UInt8.toNat_ofNat'
  show (UInt8.ofNat n).toNat + 2 ^ 8 * (UInt8.ofNat (n >>> 8)).toNat
    + 2 ^ 16 * (UInt8.ofNat (n >>> 16)).toNat
    + 2 ^ 24 * ((UInt8.ofNat (0xE0 ||| (n >>> 24 &&& 0x0F))).toNat % 16) = _
  rw [hdev, hbyte, hbyte, hbyte]
  rfl

theorem programmed_blocks (d : Ata.Drive) (n : Nat) {k : Nat} (h₀ : 0 < k) (hk : k ≤ 0x7F) :
    (programmed d n k).blocks = k := by
  have hto : (UInt8.ofNat k).toNat = k := by
    rw [UInt8.toNat_ofNat']
    omega
  have hne : UInt8.ofNat k ≠ 0 := by
    intro h
    rw [h] at hto
    exact absurd hto.symm (Nat.ne_of_gt h₀)
  rw [Ata.Drive.blocks, programmed]
  simp only [if_neg hne, hto]

theorem sendCommand_read {k : Nat} (h : p.drive.phase.accepts = true) (n : Nat) (hk : k < 0x7F) :
    sendCommand c n (k + 1) 0x20 p = (.value (), { p with
      drive := (programmed p.drive n (k + 1)).ask c.read
        (.offering (lbaOf (programLba n)) k 0) }) := by
  refine sendCommand_run h ?_
  rw [← programmed_address p.drive n (k + 1)]
  show some (Ata.Drive.ask _ _ (.offering _ ((programmed p.drive n (k + 1)).blocks - 1) 0)) = _
  rw [programmed_blocks _ _ (Nat.succ_pos k) hk]
  rfl

theorem sendCommand_write {k : Nat} (h : p.drive.phase.accepts = true) (n : Nat) (hk : k < 0x7F) :
    sendCommand c n (k + 1) 0x30 p = (.value (), { p with
      drive := (programmed p.drive n (k + 1)).ask c.write
        (.taking (lbaOf (programLba n)) k 0 fun _ => 0) }) := by
  refine sendCommand_run h ?_
  rw [← programmed_address p.drive n (k + 1)]
  show some (Ata.Drive.ask _ _ (.taking _ ((programmed p.drive n (k + 1)).blocks - 1) 0 _)) = _
  rw [programmed_blocks _ _ (Nat.succ_pos k) hk]
  rfl

/-! ### Reading a block -/

theorem inStatus_run (c : Conduct) (p : Port) :
    inStatus c p = (.value (p.drive.status c), { p with drive := p.drive.look }) := rfl

/-- One look that shows no data. -/
theorem awaitData_succ {n : Nat} (h : p.drive.status c &&& 0x08 = 0) :
    awaitData c (n + 1) p = awaitData c n { p with
      drive := p.drive.look
      terminal := terminalWritestring p.terminal (text ".") } := by
  rw [awaitData, bind_value (inStatus_run c p), if_pos h]
  rfl

theorem awaitData_request {n : Nat} (h : p.drive.status c &&& 0x08 ≠ 0) :
    awaitData c (n + 1) p = (.value true, { p with drive := p.drive.look }) := by
  rw [awaitData, bind_value (inStatus_run c p), if_neg h]
  rfl

/-- A quiet drive that is ready within the looks left is seen to be so. -/
theorem awaitData_ready (hq : c.Quiet) {n : Nat} (hw : p.drive.phase.waits < n)
    (ht : p.drive.phase.settled.transfers = true) :
    ∃ t s, awaitData c n p = (.value true,
      { p with drive := p.drive.inPhase p.drive.phase.settled t, terminal := s }) := by
  induction n generalizing p with
  | zero => exact absurd hw (Nat.not_lt_zero _)
  | succ n ih =>
      rcases Nat.eq_zero_or_pos p.drive.phase.waits with h₀ | hpos
      · -- settled already: the first look shows it
        have hset := Phase.settled_of_waits h₀
        rw [hset] at ht ⊢
        refine ⟨p.drive.clock + 1, p.terminal,
          (awaitData_request ((status_request_iff _ hq).mpr ht)).trans ?_⟩
        rw [Ata.Drive.look, Phase.tick_of_waits h₀]
        rfl
      · have hno : p.drive.status c &&& 0x08 = 0 := by
          by_contra hne
          have htr := (status_request_iff _ hq).mp hne
          rw [Phase.transfers_eq_false_of_waits hpos] at htr
          cases htr
        rw [awaitData_succ hno]
        obtain ⟨t, s, hrun⟩ := ih (p := { p with
            drive := p.drive.look
            terminal := terminalWritestring p.terminal (text ".") })
          (by
            show p.drive.phase.tick.waits < n
            rw [Phase.waits_tick]
            omega)
          (by
            show p.drive.phase.tick.settled.transfers = true
            rwa [Phase.settled_tick])
        refine ⟨t, s, hrun.trans ?_⟩
        show (_, ({ p with
          drive := p.drive.inPhase p.drive.phase.tick.settled t, terminal := s } : Port)) = _
        rw [Phase.settled_tick]

/-- Otherwise the wait is given up, with all looks used. -/
theorem awaitData_gives_up (hq : c.Quiet) {n : Nat}
    (h : p.drive.phase.settled.transfers = true → n ≤ p.drive.phase.waits) :
    ∃ t s, awaitData c n p = (.value false,
      { p with drive := p.drive.inPhase (Phase.tick^[n] p.drive.phase) t, terminal := s }) := by
  induction n generalizing p with
  | zero => exact ⟨p.drive.clock, _, rfl⟩
  | succ n ih =>
      have hno : p.drive.status c &&& 0x08 = 0 := by
        by_contra hne
        obtain ⟨h₀, hset⟩ := Phase.settled_of_transfers ((status_request_iff _ hq).mp hne)
        have hle := h (by rw [hset]; exact (status_request_iff _ hq).mp hne)
        omega
      rw [awaitData_succ hno]
      exact ih (p := { p with
          drive := p.drive.look
          terminal := terminalWritestring p.terminal (text ".") }) (by
        show p.drive.phase.tick.settled.transfers = true → n ≤ p.drive.phase.tick.waits
        rw [Phase.settled_tick, Phase.waits_tick]
        intro ht
        have hle := h ht
        omega)

/-- A word of a block is stored where its bytes belong. -/
theorem readWords_succ {buffer n idx lba left : Nat}
    (h : p.drive.phase = .offering lba left idx) :
    readWords c buffer (n + 1) idx p = readWords c buffer n (idx + 1) { p with
      mem := memcpy p.mem (wordAt buffer idx) (leBytes (le (p.drive.disk lba) (2 * idx) 2)) 2
      drive := p.drive.sent c lba left idx } := by
  have hin : inData c p = (.value (le (p.drive.disk lba) (2 * idx) 2),
      { p with drive := p.drive.sent c lba left idx }) := by
    refine onDrive_run ?_
    simp only [Ata.inw, h]
  rw [readWords, bind_value hin]
  rfl

/-- The words that are left of a block. -/
theorem readWords_run {buffer n idx lba left : Nat} (hb : buffer + 512 ≤ 2 ^ 32)
    (hn : idx + (n + 1) = 256) (h : p.drive.phase = .offering lba left idx) :
    readWords c buffer (n + 1) idx p = (.value (), { p with
      mem := memcpy p.mem (buffer + 2 * idx) (fun j => p.drive.disk lba (2 * idx + j)) (2 * (n + 1))
      drive := p.drive.finished c lba left }) := by
  -- the word under `idx`, wherever the loop is
  have hword (m : Mem) (k : Nat) (hk : k < 256) :
      memcpy m (wordAt buffer k) (leBytes (le (p.drive.disk lba) (2 * k) 2)) 2
        = memcpy m (buffer + 2 * k) (fun j => p.drive.disk lba (2 * k + j)) 2 := by
    have haddr : wordAt buffer k = buffer + 2 * k := Nat.mod_eq_of_lt (by omega)
    rw [haddr]
    exact memcpy_congr fun i hi => leBytes_le _ _ hi
  induction n generalizing p idx with
  | zero =>
      have hlast : ¬idx + 1 < 256 := by omega
      rw [readWords_succ h, hword _ _ (by omega), Ata.Drive.sent, if_neg hlast]
      rfl
  | succ n ih =>
      have hmore : idx + 1 < 256 := by omega
      rw [readWords_succ h, hword _ _ (by omega), Ata.Drive.sent, if_pos hmore,
        ih (p := { p with
          mem := memcpy p.mem (buffer + 2 * idx) (fun j => p.drive.disk lba (2 * idx + j)) 2
          drive := { p.drive with phase := .offering lba left (idx + 1) } }) (by omega) rfl hword]
      have hmem := memcpy_append p.mem (buffer + 2 * idx)
        (fun j => p.drive.disk lba (2 * idx + j)) 2 (2 * (n + 1))
      have hsrc : (fun j => p.drive.disk lba (2 * idx + (2 + j)))
          = fun j => p.drive.disk lba (2 * (idx + 1) + j) := by
        funext j
        congr 1
        omega
      rw [hsrc, show buffer + 2 * idx + 2 = buffer + 2 * (idx + 1) by omega,
        show 2 + 2 * (n + 1) = 2 * (n + 1 + 1) by omega] at hmem
      rw [← hmem]
      rfl

/-- A whole block. -/
theorem readWords_block {buffer lba left : Nat} (hb : buffer + 512 ≤ 2 ^ 32)
    (h : p.drive.phase = .offering lba left 0) :
    readWords c buffer 256 0 p = (.value (), { p with
      mem := memcpy p.mem buffer (p.drive.disk lba) 512
      drive := p.drive.finished c lba left }) := by
  rw [readWords_run hb rfl h]
  simp only [Nat.mul_zero, Nat.add_zero, Nat.zero_add]

/-- The wait for a block is announced. -/
def Port.announced (p : Port) : Port :=
  { p with
    terminal := terminalWritestring (terminalNewline p.terminal)
      (text "[      ] Waiting for device to be ready...") }

section

variable (p : Port)

@[simp] theorem announced_mem : p.announced.mem = p.mem := by
  simp only [Port.announced]

@[simp] theorem announced_drive : p.announced.drive = p.drive := by
  simp only [Port.announced]

@[simp] theorem announced_console : p.announced.console = p.console := by
  simp only [Port.announced]

end

theorem readBlocks_succ (c : Conduct) (looks buffer n : Nat) (p : Port) :
    readBlocks c looks buffer (n + 1) p = (awaitData c looks >>= fun ready =>
      if ready then do
        readWords c buffer 256 0
        readBlocks c looks ((buffer + 512) % 2 ^ 32) n
      else return -1) p.announced := by
  rw [readBlocks, newline, modify_bind, writestring, modify_bind]
  rfl

/-- A block that comes in time. -/
theorem readBlocks_in_time (hq : c.Quiet) {looks : Nat} {a : Answer} (ha : a.inTime looks = true)
    (n : Nat) {buffer lba left : Nat} (hb : buffer + 512 ≤ 2 ^ 32)
    (hphase : p.drive.phase = a.phase (.offering lba left 0)) :
    ∃ t s, readBlocks c looks buffer (n + 1) p
      = readBlocks c looks ((buffer + 512) % 2 ^ 32) n { p with
      mem := memcpy p.mem buffer (p.drive.disk lba) 512
      drive := (p.drive.inPhase (.offering lba left 0) t).finished c lba left
      terminal := s } := by
  obtain ⟨hw, hset⟩ := Answer.phase_of_inTime (p := .offering lba left 0) ha rfl
  rw [← hphase] at hw hset
  obtain ⟨t, s, hrun⟩ := awaitData_ready (p := p.announced) hq
    (by rwa [announced_drive])
    (by
      rw [announced_drive, hset]
      rfl)
  rw [announced_drive, announced_mem, announced_console, hset] at hrun
  refine ⟨t, s, ?_⟩
  rw [readBlocks_succ, bind_value hrun, if_pos rfl]
  exact bind_value (readWords_block hb rfl)

/-- A block that does not. -/
theorem readBlocks_late (hq : c.Quiet) {looks : Nat} {a : Answer} (ha : a.inTime looks = false)
    {lba left : Nat} (buffer n : Nat)
    (hphase : p.drive.phase = a.phase (.offering lba left 0)) :
    ∃ t s, readBlocks c looks buffer (n + 1) p = (.value (-1), { p with
      drive := p.drive.inPhase (Phase.tick^[looks] p.drive.phase) t, terminal := s }) := by
  obtain ⟨t, s, hrun⟩ := awaitData_gives_up (p := p.announced) (n := looks) hq (by
    rw [announced_drive, hphase]
    exact Answer.waits_of_not_inTime ha rfl)
  rw [announced_drive, announced_mem, announced_console] at hrun
  refine ⟨t, s, ?_⟩
  rw [readBlocks_succ, bind_value hrun, if_neg Bool.false_ne_true]
  rfl

/-! ### Reads against the level above -/

/-- How a conduct looks one level up.  A write that goes wrong does not come
back, so no write fails there. -/
def environment (c : Conduct) (looks : Nat) : Env where
  readFails tick _ := !(c.read tick).inTime looks
  writeFails _ _ := false

/-- The same memory and disk, and as many blocks. -/
structure Tied (s : State) (p : Port) : Prop where
  mem : p.mem = s.mem
  disk : p.drive.disk = s.disk
  tick : p.drive.asked = s.tick

/-- Between two calls the drive also waits for a command. -/
structure Matches (s : State) (p : Port) : Prop extends Tied s p where
  accepts : p.drive.phase.accepts = true

/-- Every block that a read has asked for was answered promptly. -/
def PromptReads (c : Conduct) (looks : Nat) (s s' : State) : Prop :=
  ∀ t, s.tick ≤ t → t < s'.tick → (c.read t).prompt looks = true

/-- What a read leaves behind: the state of the level above, and a drive that
waits for a command just when it was prompt. -/
def ReadTo (c : Conduct) (looks : Nat) (s : State) (r : Outcome Int × State)
    (r' : Outcome Int × Port) : Prop :=
  r'.1 = r.1 ∧ Tied r.2 r'.2 ∧ (r'.2.drive.phase.accepts = true ↔ PromptReads c looks s r.2)

/-- One level up, a block that comes in time is loaded. -/
theorem readBlocks_loads {s : State} {looks n : Nat} (lba buffer : Nat)
    (ha : (c.read s.tick).inTime looks = true) :
    PotatoOS.readBlocks (environment c looks) lba buffer (n + 1) s
      = PotatoOS.readBlocks (environment c looks) (lba + 1) ((buffer + 512) % 2 ^ 32) n
          (s.load lba buffer) := by
  have hok : ¬(environment c looks).readFails s.tick lba = true := by
    simp only [environment, ha, Bool.not_true, Bool.false_eq_true, not_false_eq_true]
  rw [PotatoOS.readBlocks, gets_bind, if_neg hok, modify_bind]

theorem PromptReads.load {s s' : State} {looks lba buffer : Nat}
    (ha : (c.read s.tick).inTime looks = true) :
    PromptReads c looks (s.load lba buffer) s' ↔ PromptReads c looks s s' := by
  constructor
  · intro h t hle hlt
    rcases Nat.eq_or_lt_of_le hle with rfl | hgt
    · exact Answer.prompt_of_inTime ha
    · exact h t hgt hlt
  · intro h t hle hlt
    exact h t (Nat.le_of_succ_le hle) hlt

theorem ReadTo.load {s : State} {looks : Nat} (lba buffer : Nat) {r : Outcome Int × State}
    {r' : Outcome Int × Port} (ha : (c.read s.tick).inTime looks = true)
    (h : ReadTo c looks (s.load lba buffer) r r') : ReadTo c looks s r r' :=
  ⟨h.1, h.2.1, h.2.2.trans (PromptReads.load ha)⟩

/-- A block that comes late ends the call. -/
theorem ReadTo.late (hq : c.Quiet) {s : State} {looks n buffer lba left : Nat}
    (hmem : p.mem = s.mem)
    (hdisk : p.drive.disk = s.disk) (hasked : p.drive.asked = s.tick + 1)
    (hphase : p.drive.phase = (c.read s.tick).phase (.offering lba left 0))
    (ha : (c.read s.tick).inTime looks = false) :
    ReadTo c looks s (PotatoOS.readBlocks (environment c looks) lba buffer (n + 1) s)
      (readBlocks c looks buffer (n + 1) p) := by
  have hup : PotatoOS.readBlocks (environment c looks) lba buffer (n + 1) s
      = (.value (-1), s.miss) := by
    have hfails : (environment c looks).readFails s.tick lba = true := by
      simp only [environment, ha, Bool.not_false]
    rw [PotatoOS.readBlocks, gets_bind, if_pos hfails]
    rfl
  obtain ⟨t, term, hrun⟩ := readBlocks_late hq ha buffer n hphase
  rw [hup, hrun]
  refine ⟨rfl, ⟨hmem, hdisk, hasked⟩, ?_⟩
  show (Phase.tick^[looks] p.drive.phase).accepts = true ↔ _
  rw [hphase, Answer.accepts_of_not_inTime ha rfl]
  constructor
  · intro h u hle hlt
    obtain rfl : u = s.tick := Nat.le_antisymm (Nat.le_of_lt_succ hlt) hle
    exact h
  · exact fun h => h s.tick (Nat.le_refl _) (Nat.lt_succ_self _)

/-- The loop over the blocks, entered with the first block asked for. -/
theorem readBlocks_refines (hq : c.Quiet) {s : State} {looks n buffer lba : Nat}
    (hb : buffer + 512 * n + 512 ≤ 2 ^ 32) (hmem : p.mem = s.mem) (hdisk : p.drive.disk = s.disk)
    (hasked : p.drive.asked = s.tick + 1)
    (hphase : p.drive.phase = (c.read s.tick).phase (.offering lba n 0)) :
    ReadTo c looks s (PotatoOS.readBlocks (environment c looks) lba buffer (n + 1) s)
      (readBlocks c looks buffer (n + 1) p) := by
  have hone : buffer + 512 ≤ 2 ^ 32 := by omega
  -- after a block the drive is asked for the next one, as at the entry of the loop
  induction n generalizing p s buffer lba with
  | zero =>
      rcases ha : (c.read s.tick).inTime looks with - | -
      · exact .late hq hmem hdisk hasked hphase ha
      · obtain ⟨t, term, hrun⟩ := readBlocks_in_time hq ha 0 hone hphase
        rw [readBlocks_loads (n := 0) lba buffer ha, hrun]
        refine ReadTo.load lba buffer ha
          ⟨rfl, ⟨?_, hdisk, hasked⟩, iff_of_true rfl ?_⟩
        swap
        · intro t hle hlt
          exact absurd hlt (Nat.not_lt_of_le hle)
        show memcpy p.mem buffer (p.drive.disk lba) 512 = memcpy s.mem buffer (s.disk lba) 512
        rw [hmem, hdisk]
  | succ n ih =>
      rcases ha : (c.read s.tick).inTime looks with - | -
      · exact .late hq hmem hdisk hasked hphase ha
      · rw [Nat.mul_succ] at hb
        obtain ⟨t, term, hrun⟩ := readBlocks_in_time hq ha (n + 1) hone hphase
        rw [readBlocks_loads (n := n + 1) lba buffer ha, hrun]
        refine ReadTo.load lba buffer ha (ih ?_ ?_ hdisk ?_ ?_ ?_)
        · have hmod := Nat.mod_le (buffer + 512) (2 ^ 32)
          omega
        · show memcpy p.mem buffer (p.drive.disk lba) 512 = memcpy s.mem buffer (s.disk lba) 512
          rw [hmem, hdisk]
        · show p.drive.asked + 1 = s.tick + 1 + 1
          rw [hasked]
        · show (c.read p.drive.asked).phase _ = (c.read (s.tick + 1)).phase _
          rw [hasked]
          rfl
        · have hmod := Nat.mod_le (buffer + 512) (2 ^ 32)
          omega

/-- The transfer stays below 4 GiB. -/
def Fits (numBlocks offset : Nat) : Prop := diskLocation + offset + 512 * numBlocks ≤ 2 ^ 32

instance (numBlocks offset : Nat) : Decidable (Fits numBlocks offset) :=
  inferInstanceAs (Decidable (_ ≤ _))

theorem Fits.buffer {k off : Nat} (h : Fits (k + 1) off) :
    (diskLocation + off) % 2 ^ 32 + 512 * k + 512 ≤ 2 ^ 32 := by
  rw [Fits, Nat.mul_succ, ← Nat.add_assoc] at h
  have hmod := Nat.mod_le (diskLocation + off) (2 ^ 32)
  exact Nat.le_trans (Nat.add_le_add_right (Nat.add_le_add_right hmod _) _) h

theorem int13hReadO_readTo (hq : c.Quiet) {s : State} (hm : Matches s p) {k off : Nat}
    (h₀ : 0 < k) (hfits : Fits k off) (n : Nat) :
    ReadTo c 100 s (PotatoOS.int13hReadO (environment c 100) n k off s)
      (int13hReadO c n k off p) := by
  have hsame : ReadTo c 100 s (.value (-1), s) (.value (-1), p) :=
    ⟨rfl, hm.toTied, iff_of_true hm.accepts fun t hle hlt => absurd hlt (Nat.not_lt_of_le hle)⟩
  rw [PotatoOS.int13hReadO, int13hReadO]
  split
  · exact hsame
  · split
    · exact hsame
    · rename_i hk
      obtain ⟨k, rfl⟩ : ∃ j, k = j + 1 := Nat.exists_eq_add_of_le' h₀
      rw [bind_value (sendCommand_read hm.accepts _ (by omega))]
      exact readBlocks_refines hq hfits.buffer hm.mem hm.disk (congrArg (· + 1) hm.tick)
        (congrArg (fun t => (c.read t).phase _) hm.tick)

end

end PotatoOS.Pio
