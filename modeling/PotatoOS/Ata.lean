/-
PotatoOS/Ata.lean

A drive behind a block of registers, as a host sees it that polls.

The host writes a block count and an address to the registers and then a
command.  The drive prepares the first block; when it is ready it shows so in
the status register, and the 256 words of the block go through the data port.
Behind the last word the drive prepares the next block, or it is idle again.
Blocks that the host has sent are committed, which takes time, and a cache can
be flushed.

What the protocol leaves to the drive is its `Conduct`: how it answers when it
is asked for a block, how long it is busy, and what the status register shows
beside the busy bit in the meantime.  Time is counted in looks of the host at
the drive.  A host that breaks the protocol (a register written or a word
transferred while the drive is not waiting for that) has no defined run from
there on.

A phase that lasts is `Phase.busy`; `Phase.after` builds one, and a look of the
host takes one unit off (`Phase.tick`).  How phases follow each other is told by
two numbers only: how long it takes (`Phase.waits`) and what comes then
(`Phase.settled`).
-/
import PotatoOS.Bytes
import PotatoOS.Prog

namespace PotatoOS.Ata

open Prog

/-! ### Phases -/

/-- What the drive makes of a block that it is asked for. -/
inductive Answer where
  | ready (wait : Nat)
  | error (wait : Nat)
  | never
  deriving DecidableEq, Repr

/-- What the protocol leaves to the drive: the answers to the blocks that it is
asked to send and to take, by number, how long it takes to commit a block and to
flush the cache, and the bits that the status register shows while it is busy. -/
structure Conduct where
  read : Nat → Answer
  write : Nat → Answer
  commit : Nat → Nat
  flush : Nat → Nat
  noise : Nat → UInt8

/-- What the drive is doing.  A block in transfer is given by its address, the
number of blocks behind it and the number of words that are through. -/
inductive Phase where
  | idle
  | failed
  | stuck
  | busy (wait : Nat) (next : Phase)
  | offering (lba left words : Nat)
  | taking (lba left words : Nat) (block : Mem)

namespace Phase

/-- The phase, when that many looks have passed. -/
def after : Nat → Phase → Phase
  | 0, p => p
  | n + 1, p => busy n p

/-- A look of the host passes. -/
def tick : Phase → Phase
  | busy n p => after n p
  | p => p

/-- Registers may be written. -/
def accepts : Phase → Bool
  | idle => true
  | failed => true
  | _ => false

/-- How many looks the phase lasts. -/
def waits : Phase → Nat
  | busy n p => n + 1 + p.waits
  | _ => 0

/-- The phase that it ends in. -/
def settled : Phase → Phase
  | busy _ p => p.settled
  | p => p

/-- Data can go through the port. -/
def transfers : Phase → Bool
  | offering _ _ _ => true
  | taking _ _ _ _ => true
  | _ => false

/-- What the busy bit of the status register shows. -/
def isBusy : Phase → Bool
  | stuck => true
  | busy _ _ => true
  | _ => false

@[simp] theorem waits_after (n : Nat) (p : Phase) : (after n p).waits = n + p.waits := by
  cases n with
  | zero => exact (Nat.zero_add _).symm
  | succ n => rfl

@[simp] theorem settled_after (n : Nat) (p : Phase) : (after n p).settled = p.settled := by
  cases n with
  | zero => rfl
  | succ n => rfl

@[simp] theorem waits_tick (p : Phase) : p.tick.waits = p.waits - 1 := by
  cases p with
  | busy n p =>
      rw [tick, waits_after, waits]
      omega
  | _ => rfl

@[simp] theorem settled_tick (p : Phase) : p.tick.settled = p.settled := by
  cases p with
  | busy n p => exact settled_after n p
  | _ => rfl

theorem settled_of_waits {p : Phase} (h : p.waits = 0) : p.settled = p := by
  cases p with
  | busy n p =>
      rw [waits] at h
      omega
  | _ => rfl

theorem tick_of_waits {p : Phase} (h : p.waits = 0) : p.tick = p := by
  cases p with
  | busy n p =>
      rw [waits] at h
      omega
  | _ => rfl

/-- A phase that lasts is busy. -/
theorem isBusy_of_waits {p : Phase} (h : 0 < p.waits) : p.isBusy = true := by
  cases p with
  | busy n p => rfl
  | _ => exact absurd h (Nat.lt_irrefl 0)

theorem transfers_eq_false_of_waits {p : Phase} (h : 0 < p.waits) : p.transfers = false := by
  cases p with
  | busy n p => rfl
  | _ => exact absurd h (Nat.lt_irrefl 0)

/-- A transfer does not end by itself. -/
theorem settled_of_transfers {p : Phase} (h : p.transfers = true) :
    p.waits = 0 ∧ p.settled = p := by
  cases p with
  | busy n p => cases h
  | _ => exact ⟨rfl, rfl⟩

theorem waits_of_not_busy {p : Phase} (h : p.isBusy = false) : p.waits = 0 := by
  cases p with
  | busy n p => cases h
  | _ => rfl

theorem accepts_eq_false_of_waits {p : Phase} (h : 0 < p.waits) : p.accepts = false := by
  cases p with
  | busy n p => rfl
  | _ => exact absurd h (Nat.lt_irrefl 0)

/-- After as many looks as it lasts a phase has settled. -/
theorem tick_iterate {k : Nat} {p : Phase} (h : p.waits ≤ k) : tick^[k] p = p.settled := by
  induction k generalizing p with
  | zero => exact (settled_of_waits (Nat.le_zero.mp h)).symm
  | succ k ih =>
      rw [Function.iterate_succ_apply, ih (by rw [waits_tick]; omega), settled_tick]

theorem waits_tick_iterate (k : Nat) (p : Phase) : (tick^[k] p).waits = p.waits - k := by
  induction k generalizing p with
  | zero => rfl
  | succ k ih =>
      rw [Function.iterate_succ_apply, ih, waits_tick]
      omega

theorem settled_tick_iterate (k : Nat) (p : Phase) : (tick^[k] p).settled = p.settled := by
  induction k generalizing p with
  | zero => rfl
  | succ k ih => rw [Function.iterate_succ_apply, ih, settled_tick]

end Phase

/-- The phase that an answer leads to. -/
def Answer.phase (p : Phase) : Answer → Phase
  | ready wait => .after wait p
  | error wait => .after wait .failed
  | never => .stuck

namespace Answer

/-- The block comes within that many looks. -/
def inTime (looks : Nat) : Answer → Bool
  | ready wait => wait < looks
  | _ => false

/-- Within that many looks the drive has come to an end with the block: it can be
transferred, or an error is reported. -/
def prompt (looks : Nat) : Answer → Bool
  | ready wait => wait < looks
  | error wait => wait ≤ looks
  | never => false

/-- The block comes at some time. -/
def comes : Answer → Bool
  | ready _ => true
  | _ => false

theorem prompt_of_inTime {looks : Nat} {a : Answer} (h : a.inTime looks = true) :
    a.prompt looks = true := by
  cases a with
  | ready wait => exact h
  | _ => cases h

variable {looks : Nat} {a : Answer} {p : Phase}

theorem settled_phase_of_comes (h : a.comes = true) (hp : p.transfers = true) :
    (a.phase p).settled = p := by
  cases a with
  | ready wait =>
      rw [phase, Phase.settled_after]
      exact (Phase.settled_of_transfers hp).2
  | _ => cases h

theorem comes_of_transfers (h : (a.phase p).settled.transfers = true) : a.comes = true := by
  cases a with
  | ready wait => rfl
  | error wait =>
      rw [phase, Phase.settled_after] at h
      cases h
  | never => cases h

/-- A block that comes in time is there when the looks are over. -/
theorem phase_of_inTime (h : a.inTime looks = true) (hp : p.transfers = true) :
    (a.phase p).waits < looks ∧ (a.phase p).settled = p := by
  obtain ⟨h₀, hset⟩ := Phase.settled_of_transfers hp
  cases a with
  | ready wait =>
      rw [phase, Phase.waits_after, Phase.settled_after, h₀]
      exact ⟨of_decide_eq_true h, hset⟩
  | _ => cases h

/-- Data is requested after the looks at the earliest, if at all. -/
theorem waits_of_not_inTime (h : a.inTime looks = false) (hp : p.transfers = true)
    (ht : (a.phase p).settled.transfers = true) : looks ≤ (a.phase p).waits := by
  obtain ⟨h₀, -⟩ := Phase.settled_of_transfers hp
  cases a with
  | ready wait =>
      rw [phase, Phase.waits_after, h₀]
      exact Nat.le_of_not_lt (of_decide_eq_false h)
  | error wait =>
      rw [phase, Phase.settled_after] at ht
      cases ht
  | never => cases ht

/-- Registers can be written again after the looks when the drive was prompt. -/
theorem accepts_of_not_inTime (h : a.inTime looks = false) (hp : p.transfers = true) :
    (Phase.tick^[looks] (a.phase p)).accepts = a.prompt looks := by
  obtain ⟨h₀, hset⟩ := Phase.settled_of_transfers hp
  cases a with
  | ready wait =>
      rw [show prompt looks (ready wait) = false from h, phase]
      -- the drive is busy still, or has data to move before the next command
      rcases Nat.lt_or_ge looks wait with hlt | hge
      · refine Phase.accepts_eq_false_of_waits ?_
        rw [Phase.waits_tick_iterate, Phase.waits_after]
        omega
      · rw [Phase.tick_iterate (by rw [Phase.waits_after, h₀]; exact hge), Phase.settled_after,
          hset]
        cases p with
        | offering | taking => rfl
        | _ => cases hp
  | error wait =>
      rw [phase, prompt]
      -- a drive that has reported its error takes the next command
      by_cases hle : wait ≤ looks
      · rw [Phase.tick_iterate (by rw [Phase.waits_after]; exact hle), Phase.settled_after,
          decide_eq_true hle]
        rfl
      · rw [decide_eq_false hle]
        refine Phase.accepts_eq_false_of_waits ?_
        rw [Phase.waits_tick_iterate, Phase.waits_after]
        omega
  | never =>
      have hstuck : Phase.tick^[looks] .stuck = .stuck := Function.iterate_fixed rfl looks
      rw [phase, hstuck]
      rfl

end Answer

/-! ### The drive -/

/-- The registers that a host writes, in the order of their ports. -/
inductive Register where
  | features
  | count
  | low
  | mid
  | high
  | device
  | command
  deriving DecidableEq, Repr

/-- The sectors and registers of the drive, the phase it is in, how many blocks it has been asked
for, has taken and how often it has been flushed, and the looks of the host so far. -/
structure Drive where
  disk : Nat → Mem
  count : UInt8
  low : UInt8
  mid : UInt8
  high : UInt8
  device : UInt8
  phase : Phase
  asked : Nat
  taken : Nat
  flushed : Nat
  clock : Nat

namespace Drive

variable (c : Conduct) (d : Drive)

/-- The address in the registers. -/
def address : Nat :=
  d.low.toNat + 2 ^ 8 * d.mid.toNat + 2 ^ 16 * d.high.toNat + 2 ^ 24 * (d.device.toNat % 16)

/-- The block count in the registers; 0 stands for 256. -/
def blocks : Nat := if d.count = 0 then 256 else d.count.toNat

/-- The drive is asked for one more block, to be transferred in phase `p`. -/
def ask (answer : Nat → Answer) (p : Phase) : Drive :=
  { d with phase := (answer d.asked).phase p, asked := d.asked + 1 }

/-- Bits of the status register: busy 0x80, ready 0x40, seek complete 0x10, data
request 0x08, error 0x01.  The others mean nothing while the drive is busy. -/
def status : UInt8 :=
  match d.phase with
  | .idle => 0x50
  | .failed => 0x51
  | .stuck => 0x80 ||| c.noise d.clock
  | .busy _ _ => 0x80 ||| c.noise d.clock
  | .offering _ _ _ => 0x58
  | .taking _ _ _ _ => 0x58

/-- A look of the host. -/
def look : Drive := { d with phase := d.phase.tick, clock := d.clock + 1 }

/-- The drive in another phase, at another time. -/
def inPhase (p : Phase) (t : Nat) : Drive := { d with phase := p, clock := t }

/-- The command register: read, write, flush. -/
def command : UInt8 → Option Drive
  | 0x20 => some (d.ask c.read (.offering d.address (d.blocks - 1) 0))
  | 0x30 => some (d.ask c.write (.taking d.address (d.blocks - 1) 0 fun _ => 0))
  | 0xE7 => some { d with phase := .after (c.flush d.flushed) .idle, flushed := d.flushed + 1 }
  | _ => none

/-- A byte written to a register; only a write to the command register can be refused. -/
def writeRegister (v : UInt8) : Register → Option Drive
  | .features => some d
  | .count => some { d with count := v }
  | .low => some { d with low := v }
  | .mid => some { d with mid := v }
  | .high => some { d with high := v }
  | .device => some { d with device := v }
  | .command => d.command c v

/-- A block has been sent. -/
def finished (lba left : Nat) : Drive :=
  if left = 0 then { d with phase := .idle } else d.ask c.read (.offering (lba + 1) (left - 1) 0)

/-- The word that is next is through. -/
def sent (lba left words : Nat) : Drive :=
  if words + 1 < 256 then { d with phase := .offering lba left (words + 1) }
  else d.finished c lba left

/-- A block has come in and is being committed; the next one is asked for. -/
def stored (lba left : Nat) (block : Mem) : Drive :=
  { d with
    disk := fun l => if l = lba then memcpy (d.disk l) 0 block 512 else d.disk l
    phase := .after (c.commit d.taken) (if left = 0 then .idle
      else (c.write d.asked).phase (.taking (lba + 1) (left - 1) 0 fun _ => 0))
    asked := if left = 0 then d.asked else d.asked + 1
    taken := d.taken + 1 }

/-- A word has come in. -/
def received (lba left words : Nat) (block : Mem) (v : Nat) : Drive :=
  let block := memcpy block (2 * words) (leBytes v) 2
  if words + 1 < 256 then { d with phase := .taking lba left (words + 1) block }
  else d.stored c lba left block

end Drive

/-! ### The ports -/

variable (c : Conduct)

/-- A byte for a register.  The drive must be able to accept one. -/
def outb (r : Register) (v : UInt8) : Prog Drive Unit := fun d =>
  if d.phase.accepts then
    match d.writeRegister c v r with
    | some d' => (.value (), d')
    | none => (.stop .undefined, d)
  else (.stop .undefined, d)

/-- The status register. -/
def inb : Prog Drive UInt8 := fun d => (.value (d.status c), d.look)

/-- A look at something else: only time passes. -/
def pause : Prog Drive Unit := modify Drive.look

/-- A word from the data port.  There must be one to fetch. -/
def inw : Prog Drive Nat := fun d =>
  match d.phase with
  | .offering lba left words => (.value (le (d.disk lba) (2 * words) 2), d.sent c lba left words)
  | _ => (.stop .undefined, d)

/-- A word for the data port.  The drive must be waiting for one. -/
def outw (v : Nat) : Prog Drive Unit := fun d =>
  match d.phase with
  | .taking lba left words block => (.value (), d.received c lba left words block v)
  | _ => (.stop .undefined, d)

/-! ### What the host can tell from the status -/

/-- While it is busy the drive does not request data. -/
def Conduct.Quiet (c : Conduct) : Prop := ∀ t, c.noise t &&& 0x08 = 0

section

variable {c : Conduct} (d : Drive)

/-- Bits beside the busy bit are seen as they are. -/
theorem and_noise (noise : UInt8) : (0x80 ||| noise) &&& 0x08 = noise &&& 0x08 := by
  have hbyte : ∀ n < 256, (0x80 ||| UInt8.ofNat n) &&& 0x08 = UInt8.ofNat n &&& 0x08 := by
    decide +kernel
  have h := hbyte noise.toNat noise.toNat_lt
  rwa [UInt8.ofNat_toNat] at h

theorem and_busy (noise : UInt8) : (0x80 ||| noise) &&& 0x80 = 0x80 := by
  have hbyte : ∀ n < 256, (0x80 ||| UInt8.ofNat n) &&& 0x80 = 0x80 := by decide +kernel
  have h := hbyte noise.toNat noise.toNat_lt
  rwa [UInt8.ofNat_toNat] at h

/-- Data is requested when it is, if the drive is quiet. -/
theorem status_request_iff (hq : c.Quiet) :
    d.status c &&& 0x08 ≠ 0 ↔ d.phase.transfers = true := by
  have hbusy : ¬(0x80 ||| c.noise d.clock) &&& 0x08 ≠ 0 := by
    rw [and_noise, hq]
    exact fun h => h rfl
  rcases hp : d.phase with - | - | - | ⟨n, p⟩ | ⟨l, k, i⟩ | ⟨l, k, i, b⟩ <;>
    simp only [Drive.status, hp, Phase.transfers]
  · decide
  · decide
  · exact iff_of_false hbusy Bool.false_ne_true
  · exact iff_of_false hbusy Bool.false_ne_true
  · decide
  · decide

/-- The busy bit is always right. -/
theorem status_busy_iff : d.status c &&& 0x80 = 0x80 ↔ d.phase.isBusy = true := by
  rcases hp : d.phase with - | - | - | ⟨n, p⟩ | ⟨l, k, i⟩ | ⟨l, k, i, b⟩ <;>
    simp only [Drive.status, hp, Phase.isBusy]
  · decide
  · decide
  · exact iff_of_true (and_busy _) trivial
  · exact iff_of_true (and_busy _) trivial
  · decide
  · decide

theorem status_busy_ne_zero_iff : d.status c &&& 0x80 ≠ 0 ↔ d.phase.isBusy = true := by
  have hbyte : ∀ n < 256, UInt8.ofNat n &&& 0x80 ≠ 0 ↔ UInt8.ofNat n &&& 0x80 = 0x80 := by
    decide +kernel
  have h := hbyte (d.status c).toNat (d.status c).toNat_lt
  rw [UInt8.ofNat_toNat] at h
  exact h.trans (status_busy_iff d)

theorem status_of_transfers {d : Drive} (h : d.phase.transfers = true) : d.status c = 0x58 := by
  rcases hp : d.phase with - | - | - | ⟨n, p⟩ | ⟨l, k, i⟩ | ⟨l, k, i, b⟩ <;>
    simp only [hp, Phase.transfers, Bool.false_eq_true] at h <;>
    simp only [Drive.status, hp]

/-- A drive that is not busy requests data when it transfers, quiet or not. -/
theorem transfers_of_request {d : Drive} (hb : d.phase.isBusy = false)
    (h : d.status c &&& 0x08 = 0x08) : d.phase.transfers = true := by
  rcases hp : d.phase with - | - | - | ⟨n, p⟩ | ⟨l, k, i⟩ | ⟨l, k, i, b⟩ <;>
    simp only [hp, Phase.isBusy, Bool.true_eq_false] at hb <;>
    simp only [Drive.status, hp] at h
  · exact absurd h (by decide)
  · exact absurd h (by decide)
  · rfl
  · rfl

end

end PotatoOS.Ata
