/-
PotatoOS/PioWrite.lean

Writing at the ports, and runs of transfers.

The wait before a block of `int13h_write_o` reads the status register four times
a round, and the drive may change between two of these looks.  What a round can
do is said once, in `awaitRoom_cases`: the third look shows no busy drive, so
the phase has settled and the fourth look can be trusted.  From there on two
facts are carried along: what a loop has done when it has returned (`..._value`)
and when it returns (`..._settles`).

Main results.  `int13hReadO_refines`: a read is the read of Drive.lean, whatever
the timing.  `int13hWriteO_returns_iff`: when a write returns, and that it has
then stored every sector.  `calls_refine`: any run of both on a drive that is
punctual.
-/
import PotatoOS.Pio

namespace PotatoOS.Pio

open Prog Ata

section

variable {c : Conduct} {p : Port}

/-! ### Writing a block -/

/-- The drive after some looks. -/
def Port.looked (p : Port) (k : Nat) : Port :=
  { p with drive := p.drive.inPhase (Phase.tick^[k] p.drive.phase) (p.drive.clock + k) }

theorem inStatus_looked (c : Conduct) (p : Port) (k : Nat) :
    inStatus c (p.looked k) = (.value ((p.looked k).drive.status c), p.looked (k + 1)) := by
  rw [inStatus_run, Port.looked, Port.looked, Function.iterate_succ_apply']
  rfl

/-- With one more text on the serial console. -/
def Port.printed (p : Port) (s : String) : Port := { p with console := p.console ++ [text s] }

/-- What one round of the wait can do: it starts over, some looks later, or it
has found the block requested. -/
theorem awaitRoom_cases (c : Conduct) (p : Port) :
    (∃ k s, 0 < k ∧ ∀ fuel, awaitRoom c (fuel + 1) p
      = awaitRoom c fuel ((p.looked k).printed s)) ∨
    p.drive.phase.settled.transfers = true ∧ p.drive.phase.waits ≤ 2 ∧
      ∀ fuel, awaitRoom c (fuel + 1) p = (.value (), p.looked 4) := by
  have hround (fuel : Nat) : awaitRoom c (fuel + 1) p = awaitRoom c (fuel + 1) (p.looked 0) := rfl
  by_cases h₁ : (p.looked 0).drive.status c &&& 0x01 = 0x01
  · refine .inl ⟨1, "error1\n", by decide, fun fuel => ?_⟩
    rw [hround, awaitRoom, bind_value (inStatus_looked c p 0), if_pos h₁]
    rfl
  by_cases h₂ : (p.looked 1).drive.status c &&& 0x40 ≠ 0x40
  · refine .inl ⟨2, "Not ready!\n", by decide, fun fuel => ?_⟩
    rw [hround, awaitRoom, bind_value (inStatus_looked c p 0), if_neg h₁,
      bind_value (inStatus_looked c p 1), if_pos h₂]
    rfl
  by_cases h₃ : (p.looked 2).drive.status c &&& 0x80 = 0x80
  · refine .inl ⟨3, "Busy!\n", by decide, fun fuel => ?_⟩
    rw [hround, awaitRoom, bind_value (inStatus_looked c p 0), if_neg h₁,
      bind_value (inStatus_looked c p 1), if_neg h₂, bind_value (inStatus_looked c p 2), if_pos h₃]
    rfl
  by_cases h₄ : (p.looked 3).drive.status c &&& 0x08 ≠ 0x08
  · refine .inl ⟨4, "Have no data/not ready to recieve PIO!\n", by decide, fun fuel => ?_⟩
    rw [hround, awaitRoom, bind_value (inStatus_looked c p 0), if_neg h₁,
      bind_value (inStatus_looked c p 1), if_neg h₂, bind_value (inStatus_looked c p 2), if_neg h₃,
      bind_value (inStatus_looked c p 3), if_pos h₄]
    rfl
  -- the third look shows no busy drive, so the fourth one can be trusted
  have hfree : (Phase.tick^[2] p.drive.phase).waits = 0 := by
    refine Phase.waits_of_not_busy (Bool.eq_false_iff.mpr fun hbusy => h₃ ?_)
    exact (status_busy_iff _).mpr hbusy
  rw [Phase.waits_tick_iterate] at hfree
  have hset : (p.looked 3).drive.phase = p.drive.phase.settled := Phase.tick_iterate (by omega)
  have htr : (p.looked 3).drive.phase.transfers = true := by
    refine transfers_of_request (Bool.eq_false_iff.mpr fun hbusy => h₃ ?_) (not_not.mp h₄)
    refine (status_busy_iff _).mpr ?_
    rw [hset] at hbusy
    rw [show (p.looked 2).drive.phase = p.drive.phase.settled from Phase.tick_iterate (by omega)]
    exact hbusy
  rw [hset] at htr
  refine .inr ⟨htr, by omega, fun fuel => ?_⟩
  rw [hround, awaitRoom, bind_value (inStatus_looked c p 0), if_neg h₁,
    bind_value (inStatus_looked c p 1), if_neg h₂, bind_value (inStatus_looked c p 2), if_neg h₃,
    bind_value (inStatus_looked c p 3), if_neg h₄]
  rfl

/-- The wait has come to an end: the drive has settled, at some time, and some
complaints have been printed. -/
def Waited (p p' : Port) : Prop :=
  ∃ t s, p' = { p with drive := p.drive.inPhase p.drive.phase.settled t, console := s }

section

variable {p' : Port} (h : Waited p p')

include h

theorem Waited.mem : p'.mem = p.mem := by
  obtain ⟨t, s, rfl⟩ := h
  rfl

theorem Waited.phase : p'.drive.phase = p.drive.phase.settled := by
  obtain ⟨t, s, rfl⟩ := h
  rfl

/-- Only phase and clock of the drive have changed. -/
theorem Waited.drive : ∃ t, p'.drive = p.drive.inPhase p.drive.phase.settled t := by
  obtain ⟨t, s, rfl⟩ := h
  exact ⟨t, rfl⟩

end

theorem Waited.looked {k : Nat} (h : p.drive.phase.waits ≤ k) : Waited p (p.looked k) := by
  refine ⟨p.drive.clock + k, p.console, ?_⟩
  rw [Port.looked, Phase.tick_iterate h]

theorem Waited.later {k : Nat} {p' : Port} (h : Waited (p.looked k) p') : Waited p p' := by
  obtain ⟨t, s, rfl⟩ := h
  refine ⟨t, s, ?_⟩
  show ({ p with
    drive := p.drive.inPhase (Phase.tick^[k] p.drive.phase).settled t, console := s } : Port) = _
  rw [Phase.settled_tick_iterate]

theorem Waited.of_printed {s : String} {p' : Port} (h : Waited (p.printed s) p') :
    Waited p p' := h

/-- A wait that ends has found the block requested, on any drive. -/
theorem awaitRoom_value {fuel : Nat} {p' : Port} (h : awaitRoom c fuel p = (.value (), p')) :
    p.drive.phase.settled.transfers = true ∧ Waited p p' := by
  induction fuel generalizing p with
  | zero => cases h
  | succ fuel ih =>
      rcases awaitRoom_cases c p with ⟨k, s, -, hround⟩ | ⟨htr, hw, hround⟩
      · rw [hround] at h
        obtain ⟨htr, hwaited⟩ := ih h
        refine ⟨?_, hwaited.of_printed.later⟩
        rwa [show ((p.looked k).printed s).drive.phase = Phase.tick^[k] p.drive.phase from rfl,
          Phase.settled_tick_iterate] at htr
      · rw [hround] at h
        cases h
        exact ⟨htr, .looked (by omega)⟩

/-- A drive that requests data is believed at once. -/
theorem awaitRoom_ready (h : p.drive.phase.transfers = true) (fuel : Nat) :
    awaitRoom c (fuel + 1) p = (.value (), p.looked 4) := by
  have hst (k : Nat) : (p.looked k).drive.status c = 0x58 := by
    obtain ⟨hw, hset⟩ := Phase.settled_of_transfers h
    refine status_of_transfers ?_
    rw [show (p.looked k).drive.phase = p.drive.phase.settled from Phase.tick_iterate (by omega),
      hset]
    exact h
  show awaitRoom c (fuel + 1) (p.looked 0) = _
  rw [awaitRoom, bind_value (inStatus_looked c p 0), hst, if_neg (by decide),
    bind_value (inStatus_looked c p 1), hst, if_neg (by decide),
    bind_value (inStatus_looked c p 2), hst, if_neg (by decide),
    bind_value (inStatus_looked c p 3), hst, if_neg (by decide)]
  rfl

/-- The wait ends when the block is requested at some time. -/
theorem awaitRoom_settles (h : p.drive.phase.settled.transfers = true) :
    Settles (awaitRoom c) p fun _ p' => Waited p p' := by
  induction hn : p.drive.phase.waits using Nat.strong_induction_on generalizing p with
  | _ n ih =>
      rcases Nat.eq_zero_or_pos n with rfl | hpos
      · rw [Phase.settled_of_waits hn] at h
        exact .of_eq (awaitRoom_ready h) (.looked (by omega))
      rcases awaitRoom_cases c p with ⟨k, s, hk, hround⟩ | ⟨-, hw, hround⟩
      · refine .succ hround ((ih (n - k) (by omega) ?_ ?_).mono fun _ p' h => h.of_printed.later)
        · rwa [show ((p.looked k).printed s).drive.phase = Phase.tick^[k] p.drive.phase from rfl,
            Phase.settled_tick_iterate]
        · rw [← hn]
          exact Phase.waits_tick_iterate k p.drive.phase
      · exact .of_eq hround (.looked (by omega))

/-- A word of a block goes out, and three looks pass. -/
theorem writeWords_succ {buffer n idx lba left : Nat} {block : Mem}
    (h : p.drive.phase = .taking lba left idx block) :
    writeWords c buffer (n + 1) idx p = writeWords c buffer n (idx + 1) { p with
      drive := (p.drive.received c lba left idx block
        (le p.mem (wordAt buffer idx) 2)).look.look.look } := by
  have hout : outData c (le p.mem (wordAt buffer idx) 2) p = (.value (), { p with
      drive := p.drive.received c lba left idx block (le p.mem (wordAt buffer idx) 2) }) := by
    refine onDrive_run ?_
    simp only [Ata.outw, h]
  rw [writeWords, gets_bind, bind_value hout]
  rfl

/-- The words that are left of a block. -/
theorem writeWords_run {buffer n idx lba left : Nat} {block : Mem} (hb : buffer + 512 ≤ 2 ^ 32)
    (hn : idx + (n + 1) = 256) (h : p.drive.phase = .taking lba left idx block) :
    ∃ t, writeWords c buffer (n + 1) idx p = (.value (), { p with
      drive := ((p.drive.stored c lba left (memcpy block (2 * idx)
        (fun j => p.mem (buffer + 2 * idx + j)) (2 * (n + 1)))).inPhase
          (Phase.tick^[3] (p.drive.stored c lba left block).phase) t) }) := by
  -- a word of memory is the two bytes that stand there
  have hword (b : Mem) (k : Nat) (hk : k < 256) :
      memcpy b (2 * k) (leBytes (le p.mem (wordAt buffer k) 2)) 2
        = memcpy b (2 * k) (fun j => p.mem (buffer + 2 * k + j)) 2 := by
    have haddr : wordAt buffer k = buffer + 2 * k := Nat.mod_eq_of_lt (by omega)
    rw [haddr]
    exact memcpy_congr fun i hi => leBytes_le _ _ hi
  induction n generalizing p idx block with
  | zero =>
      have hlast : ¬idx + 1 < 256 := by omega
      refine ⟨p.drive.clock + 3, ?_⟩
      rw [writeWords_succ h, Ata.Drive.received, if_neg hlast, hword _ _ (by omega)]
      rfl
  | succ n ih =>
      have hmore : idx + 1 < 256 := by omega
      obtain ⟨t, hrun⟩ := ih (p := { p with
          drive := p.drive.inPhase (.taking lba left (idx + 1) (memcpy block (2 * idx)
            (fun j => p.mem (buffer + 2 * idx + j)) 2)) (p.drive.clock + 3) })
        (by omega) rfl hword
      refine ⟨t, ?_⟩
      rw [writeWords_succ h, Ata.Drive.received, if_pos hmore, hword _ _ (by omega)]
      -- the word before and the words behind it make up one copy
      have hblock := memcpy_append block (2 * idx)
        (fun j => p.mem (buffer + 2 * idx + j)) 2 (2 * (n + 1))
      have hsrc : (fun j => p.mem (buffer + 2 * idx + (2 + j)))
          = fun j => p.mem (buffer + 2 * (idx + 1) + j) := by
        funext j
        congr 1
        omega
      rw [hsrc, show 2 * idx + 2 = 2 * (idx + 1) by omega,
        show 2 + 2 * (n + 1) = 2 * (n + 1 + 1) by omega] at hblock
      rw [← hblock]
      exact hrun

/-- A whole block. -/
theorem writeWords_block {buffer lba left : Nat} (hb : buffer + 512 ≤ 2 ^ 32)
    (h : p.drive.phase = .taking lba left 0 fun _ => 0) :
    ∃ t, writeWords c buffer 256 0 p = (.value (), { p with
      drive := { (p.drive.stored c lba left fun _ => 0).inPhase
          (Phase.tick^[3] (p.drive.stored c lba left fun _ => 0).phase) t with
        disk := writeSector p.drive.disk lba fun i => p.mem (buffer + i) } }) := by
  obtain ⟨t, hrun⟩ := writeWords_run (c := c) hb (n := 255) rfl h
  refine ⟨t, hrun.trans ?_⟩
  have hdisk : (p.drive.stored c lba left (memcpy (fun _ => 0) (2 * 0)
        (fun j => p.mem (buffer + 2 * 0 + j)) (2 * (255 + 1)))).disk
      = writeSector p.drive.disk lba fun i => p.mem (buffer + i) := by
    funext l
    refine if_congr Iff.rfl (memcpy_congr fun i hi => ?_) rfl
    exact memcpy_apply_of_mem (Nat.zero_le _) (by omega)
  rw [← hdisk]
  rfl

/-! ### Writes against the level above -/

/-- A block has been asked for, with `n` more behind it; `k` have been taken. -/
structure Entered (c : Conduct) (s : State) (lba n k : Nat) (p : Port) : Prop where
  mem : p.mem = s.mem
  disk : p.drive.disk = s.disk
  asked : p.drive.asked = s.tick + 1
  taken : p.drive.taken = k
  settled : p.drive.phase.settled
    = ((c.write s.tick).phase (.taking lba n 0 fun _ => 0)).settled

/-- Block `k` was the last one, and is being committed. -/
structure Sent (c : Conduct) (s : State) (k : Nat) (p : Port) : Prop extends Tied s p where
  phase : p.drive.phase = Phase.tick^[3] (.after (c.commit k) .idle)

section

variable {s : State} {lba buffer n k : Nat} {p₁ : Port}

theorem Entered.comes (he : Entered c s lba n k p)
    (ht : p.drive.phase.settled.transfers = true) : (c.write s.tick).comes = true := by
  rw [he.settled] at ht
  exact Answer.comes_of_transfers ht

theorem Entered.taking (he : Entered c s lba n k p) (hc : (c.write s.tick).comes = true) :
    p.drive.phase.settled = .taking lba n 0 fun _ => 0 :=
  he.settled.trans (Answer.settled_phase_of_comes hc rfl)

/-- What a block leaves behind that has gone out. -/
theorem Entered.block (he : Entered c s lba n k p) (hc : (c.write s.tick).comes = true)
    (hw : Waited p p₁) (hb : buffer + 512 ≤ 2 ^ 32) :
    ∃ p', writeWords c buffer 256 0 p₁ = (.value (), p') ∧ p'.mem = s.mem ∧
      p'.drive.disk = (s.store lba buffer).disk ∧
      p'.drive.asked = (if n = 0 then s.tick + 1 else s.tick + 1 + 1) ∧
      p'.drive.taken = k + 1 ∧
      p'.drive.phase = Phase.tick^[3] (.after (c.commit k) (if n = 0 then .idle
        else (c.write (s.tick + 1)).phase (.taking (lba + 1) (n - 1) 0 fun _ => 0))) := by
  obtain ⟨t, hrun⟩ := writeWords_block (c := c) hb (hw.phase.trans (he.taking hc))
  obtain ⟨u, hd⟩ := hw.drive
  -- the wait has moved the clock of the drive and nothing else
  have hdisk : p₁.drive.disk = s.disk := by
    rw [hd]
    exact he.disk
  have hasked : p₁.drive.asked = s.tick + 1 := by
    rw [hd]
    exact he.asked
  have htaken : p₁.drive.taken = k := by
    rw [hd]
    exact he.taken
  have hmem : p₁.mem = s.mem := hw.mem.trans he.mem
  refine ⟨_, hrun, hmem, ?_, ?_, congrArg (· + 1) htaken, ?_⟩
  · show writeSector p₁.drive.disk lba _ = writeSector s.disk lba _
    rw [hdisk, hmem]
  · show (if n = 0 then p₁.drive.asked else p₁.drive.asked + 1) = _
    rw [hasked]
  · show Phase.tick^[3] (.after (c.commit p₁.drive.taken) (if n = 0 then .idle
      else (c.write p₁.drive.asked).phase _)) = _
    rw [hasked, htaken]

theorem Entered.last (he : Entered c s lba 0 k p) (hc : (c.write s.tick).comes = true)
    (hw : Waited p p₁) (hb : buffer + 512 ≤ 2 ^ 32) :
    ∃ p', writeWords c buffer 256 0 p₁ = (.value (), p') ∧ Sent c (s.store lba buffer) k p' := by
  obtain ⟨p', hrun, hmem, hdisk, hasked, -, hphase⟩ := he.block hc hw hb
  exact ⟨p', hrun, ⟨hmem, hdisk, hasked⟩, hphase⟩

theorem Entered.next (he : Entered c s lba (n + 1) k p) (hc : (c.write s.tick).comes = true)
    (hw : Waited p p₁) (hb : buffer + 512 ≤ 2 ^ 32) :
    ∃ p', writeWords c buffer 256 0 p₁ = (.value (), p') ∧
      Entered c (s.store lba buffer) (lba + 1) n (k + 1) p' := by
  obtain ⟨p', hrun, hmem, hdisk, hasked, htaken, hphase⟩ := he.block hc hw hb
  refine ⟨p', hrun, hmem, hdisk, hasked, htaken, ?_⟩
  rw [hphase, Phase.settled_tick_iterate, Phase.settled_after]
  rfl

/-- A round that ends has found its block requested. -/
theorem Entered.round {fuel m : Nat} {p' : Port} (he : Entered c s lba n k p)
    (h : writeBlocks c fuel buffer (m + 1) p = (.value (), p')) :
    (c.write s.tick).comes = true ∧ ∃ p₁, Waited p p₁ ∧
      (writeWords c buffer 256 0 >>= fun _ => writeBlocks c fuel ((buffer + 512) % 2 ^ 32) m) p₁
        = (.value (), p') := by
  obtain ⟨⟨⟩, p₁, hwait, h⟩ := bind_eq_value h
  obtain ⟨htr, hw⟩ := awaitRoom_value hwait
  exact ⟨he.comes htr, p₁, hw, h⟩

/-- A loop over the blocks that returns has stored them all. -/
theorem writeBlocks_value {fuel : Nat} {p' : Port} (he : Entered c s lba n k p)
    (hb : buffer + 512 * n + 512 ≤ 2 ^ 32)
    (h : writeBlocks c fuel buffer (n + 1) p = (.value (), p')) :
    (∀ i ≤ n, (c.write (s.tick + i)).comes = true) ∧
      Sent c (s.stores lba buffer (n + 1)) (k + n) p' := by
  have hone : buffer + 512 ≤ 2 ^ 32 := by omega
  -- a round that returns has had its answer in time
  obtain ⟨hc, p₁, hw, h⟩ := he.round h
  induction n generalizing p p₁ s lba buffer k with
  | zero =>
      obtain ⟨p₂, hrun, hsent⟩ := he.last hc hw hone
      rw [bind_value hrun] at h
      cases h
      refine ⟨fun i hi => ?_, hsent⟩
      obtain rfl : i = 0 := Nat.le_zero.mp hi
      exact hc
  | succ n ih =>
      rw [Nat.mul_succ] at hb
      have hmod := Nat.mod_le (buffer + 512) (2 ^ 32)
      obtain ⟨p₂, hrun, hnext⟩ := he.next hc hw hone
      rw [bind_value hrun] at h
      obtain ⟨hc₂, p₃, hw₂, hrest⟩ := hnext.round h
      obtain ⟨hall, hsent⟩ := ih hnext (by omega) h (by omega) hc₂ p₃ hw₂ hrest
      rw [Nat.add_right_comm, Nat.add_assoc] at hsent
      refine ⟨fun i hi => ?_, hsent⟩
      cases i with
      | zero => exact hc
      | succ i =>
          have hi := hall i (Nat.le_of_succ_le_succ hi)
          rwa [show (s.store lba buffer).tick + i = s.tick + (i + 1) from
            Nat.add_right_comm s.tick 1 i] at hi

/-- When every block comes, the loop returns. -/
theorem writeBlocks_settles (he : Entered c s lba n k p) (hb : buffer + 512 * n + 512 ≤ 2 ^ 32)
    (hc : ∀ i ≤ n, (c.write (s.tick + i)).comes = true) :
    Settles (fun fuel => writeBlocks c fuel buffer (n + 1)) p fun _ p' =>
      Sent c (s.stores lba buffer (n + 1)) (k + n) p' := by
  have hone : buffer + 512 ≤ 2 ^ 32 := by omega
  have hc₀ : (c.write s.tick).comes = true := hc 0 (Nat.zero_le n)
  have hwait : Settles (awaitRoom c) p fun _ p' => Waited p p' :=
    awaitRoom_settles (by rw [he.taking hc₀]; rfl)
  -- by induction on the blocks; each waits for a drive that comes
  induction n generalizing p s lba buffer k with
  | zero =>
      refine .bind hwait fun _ p₁ hw => ?_
      obtain ⟨p₂, hrun, hsent⟩ := he.last hc₀ hw hone
      exact .value_bind (fun _ => hrun) (.pure hsent)
  | succ n ih =>
      rw [Nat.mul_succ] at hb
      have hmod := Nat.mod_le (buffer + 512) (2 ^ 32)
      refine .bind hwait fun _ p₁ hw => ?_
      obtain ⟨p₂, hrun, hnext⟩ := he.next hc₀ hw hone
      have hc₁ (i : Nat) (hi : i ≤ n) : (c.write ((s.store lba buffer).tick + i)).comes = true := by
        rw [show (s.store lba buffer).tick + i = s.tick + (i + 1) from
          Nat.add_right_comm s.tick 1 i]
        exact hc (i + 1) (Nat.succ_le_succ hi)
      have hbuf : (buffer + 512) % 2 ^ 32 + 512 * n + 512 ≤ 2 ^ 32 := by omega
      have hrest := ih hnext hbuf hc₁ (by omega) (hc₁ 0 (Nat.zero_le n))
        (awaitRoom_settles (by rw [hnext.taking (hc₁ 0 (Nat.zero_le n))]; rfl))
      rw [Nat.add_right_comm, Nat.add_assoc] at hrest
      exact .value_bind (fun _ => hrun) hrest

end

/-! ### The cache -/

/-- The command is taken when the last block is committed by then. -/
theorem flush_run {s : State} {k : Nat} (h : Sent c s k p) (hk : c.commit k ≤ 3) :
    outb c .command 0xE7 p = (.value (), { p with drive := { p.drive with
      phase := .after (c.flush p.drive.flushed) .idle, flushed := p.drive.flushed + 1 } }) := by
  refine outb_run ?_ rfl
  rw [h.phase, Phase.tick_iterate (by rw [Phase.waits_after]; exact hk), Phase.settled_after]
  rfl

theorem flush_undefined {s : State} {k : Nat} (h : Sent c s k p) (hk : 3 < c.commit k) :
    outb c .command 0xE7 p = (.stop .undefined, p) := by
  refine outb_undefined _ _ (Phase.accepts_eq_false_of_waits ?_)
  rw [h.phase, Phase.waits_tick_iterate, Phase.waits_after]
  omega

theorem awaitFlush_busy (h : 0 < p.drive.phase.waits) (fuel : Nat) :
    awaitFlush c (fuel + 1) p = awaitFlush c fuel (p.looked 1) := by
  have hbusy : p.drive.status c &&& 0x80 ≠ 0 :=
    (status_busy_ne_zero_iff _).mpr (Phase.isBusy_of_waits h)
  rw [awaitFlush, bind_value (inStatus_run c p), if_pos hbusy]
  rfl

theorem awaitFlush_idle (h : p.drive.phase = .idle) (fuel : Nat) :
    awaitFlush c (fuel + 1) p = (.value (), p.looked 1) := by
  have hfree : ¬p.drive.status c &&& 0x80 ≠ 0 := by
    rw [status_busy_ne_zero_iff, h]
    exact Bool.false_ne_true
  rw [awaitFlush, bind_value (inStatus_run c p), if_neg hfree]
  rfl

theorem awaitFlush_settles (h : p.drive.phase.settled = .idle) :
    Settles (awaitFlush c) p fun _ p' => Waited p p' := by
  induction hn : p.drive.phase.waits generalizing p with
  | zero =>
      have hidle := (Phase.settled_of_waits hn).symm.trans h
      exact .of_eq (awaitFlush_idle hidle) (.looked (by omega))
  | succ n ih =>
      refine .succ (awaitFlush_busy (by omega)) ((ih (p := p.looked 1) ?_ ?_).mono
        fun _ _ => Waited.later)
      · exact (Phase.settled_tick p.drive.phase).trans h
      · exact (Phase.waits_tick p.drive.phase).trans (by rw [hn]; rfl)

theorem awaitFlush_value {fuel : Nat} {p' : Port} (h : p.drive.phase.settled = .idle)
    (hrun : awaitFlush c fuel p = (.value (), p')) : Waited p p' := by
  induction fuel generalizing p with
  | zero => cases hrun
  | succ fuel ih =>
      rcases Nat.eq_zero_or_pos p.drive.phase.waits with h₀ | hpos
      · rw [awaitFlush_idle ((Phase.settled_of_waits h₀).symm.trans h)] at hrun
        cases hrun
        exact .looked (by omega)
      · rw [awaitFlush_busy hpos] at hrun
        exact (ih (p := p.looked 1) ((Phase.settled_tick p.drive.phase).trans h) hrun).later

/-- Behind the flush the drive waits for a command again. -/
theorem Sent.matches {s : State} {k : Nat} {p' : Port} (h : Sent c s k p)
    (hw : Waited { p with drive := { p.drive with
      phase := .after (c.flush p.drive.flushed) .idle, flushed := p.drive.flushed + 1 } } p') :
    Matches s p' := by
  obtain ⟨t, con, rfl⟩ := hw
  refine ⟨⟨h.mem, h.disk, h.tick⟩, ?_⟩
  show (Phase.settled (.after _ .idle)).accepts = true
  rw [Phase.settled_after]
  rfl

/-! ### Whole writes -/

/-- One level up no write fails. -/
theorem writeBlocks_environment (c : Conduct) (looks lba buffer n : Nat) (s : State) :
    PotatoOS.writeBlocks (environment c looks) lba buffer n s
      = (.value 0, s.stores lba buffer n) := by
  induction n generalizing lba buffer s with
  | zero => rfl
  | succ n ih =>
      have hok : ¬(environment c looks).writeFails s.tick lba = true := Bool.false_ne_true
      rw [PotatoOS.writeBlocks, gets_bind, if_neg hok, modify_bind]
      exact ih ..

theorem int13hWriteO_environment_eq (c : Conduct) (n k off : Nat) (s : State) :
    PotatoOS.int13hWriteO (environment c 100) n k off s
      = PotatoOS.int13hWriteO reliable n k off s := by
  rw [PotatoOS.int13hWriteO, PotatoOS.int13hWriteO]
  split
  · rfl
  · split
    · rfl
    · rw [writeBlocks_environment, writeBlocks_reliable]

/-- The checks that come before the first port access. -/
def Accepted (n k : Nat) : Prop := ¬(n + k) % 2 ^ 32 > partLength ∧ ¬k > 0x7F

instance (n k : Nat) : Decidable (Accepted n k) := inferInstanceAs (Decidable (_ ∧ _))

/-- The drive takes every block of a write, and has committed the last one when
the cache is to be flushed. -/
def Takes (c : Conduct) (s : State) (p : Port) (k : Nat) : Prop :=
  (∀ i < k, (c.write (s.tick + i)).comes = true) ∧ c.commit (p.drive.taken + (k - 1)) ≤ 3

section

variable {s : State} {n k off : Nat}

theorem int13hWriteO_rejected (fuel off : Nat) (h : ¬Accepted n k) :
    int13hWriteO c fuel n k off p = (.value (-1), p) ∧
      PotatoOS.int13hWriteO (environment c 100) n k off s = (.value (-1), s) := by
  rw [int13hWriteO, PotatoOS.int13hWriteO]
  by_cases h₁ : (n + k) % 2 ^ 32 > partLength
  · rw [if_pos h₁, if_pos h₁]
    exact ⟨rfl, rfl⟩
  · have h₂ : k > 0x7F := not_not.mp fun h₂ => h ⟨h₁, h₂⟩
    rw [if_neg h₁, if_pos h₂, if_neg h₁, if_pos h₂]
    exact ⟨rfl, rfl⟩

theorem int13hWriteO_environment (off : Nat) (h : Accepted n k) :
    PotatoOS.int13hWriteO (environment c 100) n k off s = (.value 0,
      s.stores (lbaOf (programLba ((n + partStartLba) % 2 ^ 32)))
        ((diskLocation + off) % 2 ^ 32) k) := by
  rw [PotatoOS.int13hWriteO, if_neg h.1, if_neg h.2, writeBlocks_environment]

/-- The command has been sent. -/
theorem int13hWriteO_entered (c : Conduct) (off : Nat) (hm : Matches s p)
    (h : Accepted n (k + 1)) :
    ∃ p₁, Entered c s (lbaOf (programLba ((n + partStartLba) % 2 ^ 32))) k p.drive.taken p₁ ∧
      ∀ fuel, int13hWriteO c fuel n (k + 1) off p = (do
        writeBlocks c fuel ((diskLocation + off) % 2 ^ 32) (k + 1)
        outb c .command 0xE7
        awaitFlush c fuel
        return 0) p₁ := by
  have hk := h.2
  have hsend := sendCommand_write (c := c) (k := k) hm.accepts ((n + partStartLba) % 2 ^ 32)
    (by omega)
  refine ⟨{ p with
      drive := (programmed p.drive ((n + partStartLba) % 2 ^ 32) (k + 1)).ask c.write
        (.taking (lbaOf (programLba ((n + partStartLba) % 2 ^ 32))) k 0 fun _ => 0) },
    ⟨hm.mem, hm.disk, congrArg (· + 1) hm.tick, rfl, ?_⟩, fun fuel => ?_⟩
  · show ((c.write p.drive.asked).phase _).settled = _
    rw [hm.tick]
  · rw [int13hWriteO, if_neg h.1, if_neg h.2, bind_value hsend]

/-- A write that returns was rejected, or the drive has taken every block. -/
theorem int13hWriteO_value {fuel : Nat} {r : Int} {p' : Port} (hm : Matches s p) (h₀ : 0 < k)
    (hfits : Fits k off) (h : int13hWriteO c fuel n k off p = (.value r, p')) :
    (∃ s', PotatoOS.int13hWriteO (environment c 100) n k off s = (.value r, s') ∧
      Matches s' p') ∧ (Accepted n k → Takes c s p k) := by
  by_cases hacc : Accepted n k
  swap
  · obtain ⟨hport, hup⟩ := int13hWriteO_rejected (c := c) (p := p) (s := s) fuel off hacc
    cases hport.symm.trans h
    exact ⟨⟨s, hup, hm⟩, fun h => absurd h hacc⟩
  obtain ⟨k, rfl⟩ : ∃ j, k = j + 1 := Nat.exists_eq_add_of_le' h₀
  obtain ⟨p₁, he, hrun⟩ := int13hWriteO_entered c off hm hacc
  rw [hrun] at h
  obtain ⟨⟨⟩, p₂, hblocks, h⟩ := bind_eq_value h
  obtain ⟨hall, hsent⟩ := writeBlocks_value he hfits.buffer hblocks
  -- were the drive still busy, the command would have ended the run
  have hcommit : c.commit (p.drive.taken + k) ≤ 3 := by
    by_contra hlate
    rw [bind_stop (flush_undefined hsent (Nat.lt_of_not_le hlate))] at h
    cases h
  rw [bind_value (flush_run hsent hcommit)] at h
  obtain ⟨⟨⟩, p₃, hflush, h⟩ := bind_eq_value h
  cases h
  have hw := awaitFlush_value (Phase.settled_after _ _) hflush
  exact ⟨⟨_, int13hWriteO_environment off hacc, hsent.matches hw⟩,
    fun _ => ⟨fun i hi => hall i (Nat.le_of_lt_succ hi), hcommit⟩⟩

/-- A drive that takes the blocks makes the write return. -/
theorem int13hWriteO_settles (hm : Matches s p) (h₀ : 0 < k) (hfits : Fits k off)
    (ht : Accepted n k → Takes c s p k) :
    Settles (fun fuel => int13hWriteO c fuel n k off) p fun r p' =>
      ∃ s', PotatoOS.int13hWriteO (environment c 100) n k off s = (.value r, s') ∧
        Matches s' p' := by
  by_cases hacc : Accepted n k
  swap
  · exact .of_eq (fun fuel => (int13hWriteO_rejected (s := s) (fuel + 1) off hacc).1)
      ⟨s, (int13hWriteO_rejected (p := p) 0 off hacc).2, hm⟩
  obtain ⟨k, rfl⟩ : ∃ j, k = j + 1 := Nat.exists_eq_add_of_le' h₀
  obtain ⟨hall, hcommit⟩ := ht hacc
  obtain ⟨p₁, he, hrun⟩ := int13hWriteO_entered c off hm hacc
  -- the blocks, the flush and the wait for it, each of which settles
  have hsettles : Settles (fun fuel => (do
      writeBlocks c fuel ((diskLocation + off) % 2 ^ 32) (k + 1)
      outb c .command 0xE7
      awaitFlush c fuel
      return 0 : Prog Port Int)) p₁ fun r p' => r = 0 ∧
        Matches (s.stores (lbaOf (programLba ((n + partStartLba) % 2 ^ 32)))
          ((diskLocation + off) % 2 ^ 32) (k + 1)) p' := by
    refine .bind (writeBlocks_settles he hfits.buffer fun i hi => hall i (Nat.lt_succ_of_le hi))
      fun _ p₂ hsent => ?_
    refine .value_bind (fun _ => flush_run hsent hcommit) ?_
    exact .bind (awaitFlush_settles (Phase.settled_after _ _)) fun _ p₃ hw =>
      .pure ⟨rfl, hsent.matches hw⟩
  obtain ⟨r, p', hev, rfl, hmatches⟩ := hsettles
  exact ⟨0, p', hev.mono fun fuel h => (hrun fuel).trans h, _,
    int13hWriteO_environment off hacc, hmatches⟩

end

/-! ### Runs of transfers -/

/-- A call of one of the two functions. -/
inductive Transfer where
  | read (sectorOffset numBlocks offset : Nat)
  | write (sectorOffset numBlocks offset : Nat)
  deriving DecidableEq, Repr

namespace Transfer

/-- At least one block, and room for all of them. -/
def Sound : Transfer → Prop
  | read _ k off => 0 < k ∧ Fits k off
  | write _ k off => 0 < k ∧ Fits k off

instance : DecidablePred Sound
  | read _ k off => inferInstanceAs (Decidable (0 < k ∧ Fits k off))
  | write _ k off => inferInstanceAs (Decidable (0 < k ∧ Fits k off))

/-- The call gets as far as the ports. -/
def Accepted : Transfer → Prop
  | read n k _ => Pio.Accepted n k
  | write n k _ => Pio.Accepted n k

/-- A call at the ports. -/
def atPorts (c : Conduct) (fuel : Nat) : Transfer → Prog Port Int
  | read n k off => int13hReadO c n k off
  | write n k off => int13hWriteO c fuel n k off

/-- The same call at the level of blocks. -/
def inBlocks (env : Env) : Transfer → Prog State Int
  | read n k off => PotatoOS.int13hReadO env n k off
  | write n k off => PotatoOS.int13hWriteO env n k off

end Transfer

/-- One call after the other, whatever they return. -/
def calls {σ : Type} (m : Transfer → Prog σ Int) : List Transfer → Prog σ (List Int)
  | [] => return []
  | t :: ts => do
      let r ← m t
      let rs ← calls m ts
      return r :: rs

/-- A drive on which nothing goes on when the driver believes it is over.  A read
may still be answered with an error. -/
structure Punctual (c : Conduct) : Prop where
  quiet : c.Quiet
  read : ∀ t, (c.read t).prompt 100 = true
  write : ∀ t, (c.write t).comes = true
  commit : ∀ k, c.commit k ≤ 3

/-- One level up every read returns. -/
theorem readBlocks_returns (env : Env) (lba buffer n : Nat) (s : State) :
    ∃ r s', PotatoOS.readBlocks env lba buffer n s = (.value r, s') := by
  induction n generalizing lba buffer s with
  | zero => exact ⟨0, s, rfl⟩
  | succ n ih =>
      rw [PotatoOS.readBlocks, gets_bind]
      split
      · exact ⟨-1, s.miss, rfl⟩
      · exact ih ..

theorem int13hReadO_returns (env : Env) (n k off : Nat) (s : State) :
    ∃ r s', PotatoOS.int13hReadO env n k off s = (.value r, s') := by
  rw [PotatoOS.int13hReadO]
  split
  · exact ⟨-1, s, rfl⟩
  · split
    · exact ⟨-1, s, rfl⟩
    · exact readBlocks_returns ..

/-- A drive that does not wait for a command ends every run that comes to the
ports. -/
theorem Transfer.atPorts_undefined (c : Conduct) (fuel : Nat) {t : Transfer} (ht : t.Accepted)
    (h : p.drive.phase.accepts = false) : t.atPorts c fuel p = (.stop .undefined, p) := by
  have hsend (n k : Nat) (v : UInt8) : sendCommand c n k v p = (.stop .undefined, p) :=
    bind_stop (outb_undefined _ _ h)
  cases t with
  | read n k off =>
      rw [atPorts, int13hReadO, if_neg ht.1, if_neg ht.2]
      exact bind_stop (hsend ..)
  | write n k off =>
      rw [atPorts, int13hWriteO, if_neg ht.1, if_neg ht.2]
      exact bind_stop (hsend ..)

/-- One call on a punctual drive. -/
theorem Transfer.atPorts_settles (hc : Punctual c) {s : State} (hm : Matches s p) {t : Transfer}
    (ht : t.Sound) :
    Settles (fun fuel => t.atPorts c fuel) p fun r p' =>
      ∃ s', t.inBlocks (environment c 100) s = (.value r, s') ∧ Matches s' p' := by
  cases t with
  | read n k off =>
      obtain ⟨ho, htied, hiff⟩ := int13hReadO_readTo hc.quiet hm ht.1 ht.2 n
      obtain ⟨r, s', hup⟩ := int13hReadO_returns (environment c 100) n k off s
      rw [hup] at ho htied hiff
      refine .of_eq (fun _ => Prod.ext ho rfl) ⟨s', hup, htied, hiff.mpr fun t _ _ => hc.read t⟩
  | write n k off =>
      exact int13hWriteO_settles hm ht.1 ht.2 fun _ => ⟨fun i _ => hc.write _, hc.commit _⟩

/-- A drive that is slow, answers every other read with an error and shows busy
bits at random. -/
def slowConduct : Conduct where
  read t := if t % 2 = 0 then .ready 99 else .error 100
  write t := .ready (1000 * t)
  commit k := k % 4
  flush _ := 50
  noise t := UInt8.ofNat t &&& 0x51

/-- A drive that nothing has been asked of, with a blank disk. -/
def idleDrive : Ata.Drive where
  disk _ _ := 0
  count := 0
  low := 0
  mid := 0
  high := 0
  device := 0
  phase := .idle
  asked := 0
  taken := 0
  flushed := 0
  clock := 0

/-- A machine in front of that drive. -/
def idlePort : Port := ⟨fun _ => 0, idleDrive, ⟨0, 0, 0, fun _ => 0, 0⟩, []⟩

/-- The same machine as Drive.lean sees it. -/
def idleState : State := ⟨fun _ _ => 0, fun _ => 0, 0, []⟩

theorem matches_idle : Matches idleState idlePort := ⟨⟨rfl, rfl, rfl⟩, rfl⟩

theorem slowConduct_quiet : slowConduct.Quiet := by
  intro t
  show UInt8.ofNat t &&& 0x51 &&& 0x08 = 0
  rw [UInt8.and_assoc]
  exact UInt8.and_zero

theorem slowConduct_punctual : Punctual slowConduct where
  quiet := slowConduct_quiet
  read t := by
    show Answer.prompt 100 (if t % 2 = 0 then _ else _) = true
    split
    · rfl
    · rfl
  write _ := rfl
  commit k := Nat.le_of_lt_succ (Nat.mod_lt k (by decide))

/-! ### Main results -/

/-- A read at the ports is a read of the level above, whatever the timing of the
drive, as long as it does not request data while it is busy.  If one of the
blocks was not answered promptly, the next call breaks the protocol. -/
theorem int13hReadO_refines (hq : c.Quiet) {s : State} (hm : Matches s p) {k off : Nat}
    (h₀ : 0 < k) (hfits : Fits k off) (n : Nat) :
    ∃ r s' p', PotatoOS.int13hReadO (environment c 100) n k off s = (.value r, s') ∧
      int13hReadO c n k off p = (.value r, p') ∧ Tied s' p' ∧
      (PromptReads c 100 s s' → Matches s' p') ∧
      (¬PromptReads c 100 s s' → ∀ t : Transfer, t.Accepted → ∀ fuel,
        t.atPorts c fuel p' = (.stop .undefined, p')) := by
  obtain ⟨ho, htied, hiff⟩ := int13hReadO_readTo hq hm h₀ hfits n
  obtain ⟨r, s', hup⟩ := int13hReadO_returns (environment c 100) n k off s
  rw [hup] at ho htied hiff
  refine ⟨r, s', _, hup, Prod.ext ho rfl, htied, fun h => ⟨htied, hiff.mpr h⟩, ?_⟩
  intro hlate t ht fuel
  exact Transfer.atPorts_undefined c fuel ht (Bool.eq_false_iff.mpr fun h => hlate (hiff.mp h))

theorem int13hReadO_refines_idle :
    ∃ r s' p', PotatoOS.int13hReadO (environment slowConduct 100) 7 3 0 idleState
        = (.value r, s') ∧
      int13hReadO slowConduct 7 3 0 idlePort = (.value r, p') ∧ Tied s' p' ∧
      (PromptReads slowConduct 100 idleState s' → Matches s' p') ∧
      (¬PromptReads slowConduct 100 idleState s' → ∀ t : Transfer, t.Accepted → ∀ fuel,
        t.atPorts slowConduct fuel p' = (.stop .undefined, p')) :=
  int13hReadO_refines slowConduct_quiet matches_idle (by decide) (by decide) 7

/-- Any run of reads and writes on a punctual drive is a run of the level above,
and leaves the drive waiting for a command. -/
theorem calls_refine (hc : Punctual c) {ts : List Transfer} (hts : ∀ t ∈ ts, t.Sound) {s : State}
    (hm : Matches s p) :
    Settles (fun fuel => calls (Transfer.atPorts c fuel) ts) p fun rs p' =>
      ∃ s', calls (Transfer.inBlocks (environment c 100)) ts s = (.value rs, s') ∧
        Matches s' p' := by
  induction ts generalizing s p with
  | nil => exact .pure ⟨s, rfl, hm⟩
  | cons t ts ih =>
      refine .bind (Transfer.atPorts_settles hc hm (hts t (List.mem_cons_self ..))) ?_
      rintro r p₁ ⟨s₁, hup, hm₁⟩
      refine .bind (ih (fun u hu => hts u (List.mem_cons_of_mem t hu)) hm₁) ?_
      rintro rs p₂ ⟨s₂, hups, hm₂⟩
      refine .pure ⟨s₂, ?_, hm₂⟩
      rw [calls, bind_value hup, bind_value hups]
      rfl

theorem calls_refine_slow : Settles (fun fuel => calls (Transfer.atPorts slowConduct fuel)
      [.write 0 2 0, .read 0 2 0, .read 5 1 512]) idlePort fun rs p' =>
    ∃ s', calls (Transfer.inBlocks (environment slowConduct 100))
      [.write 0 2 0, .read 0 2 0, .read 5 1 512] idleState = (.value rs, s') ∧ Matches s' p' :=
  calls_refine slowConduct_punctual (by decide) matches_idle

end

end PotatoOS.Pio
