/-
PotatoOS/Partition.lean

Which sectors a transfer of the sector driver touches.

`int13h_read_o` and `int13h_write_o` make the same two checks and then send
the same registers to the drive; `command` is what they send.  The bounds
check adds two unsigned numbers, so the sum of a sector number just below
2^32 and a block count wraps around and passes.  The number that is rebased
then lies in front of the partition.  Main result: `transferConfined_iff`, a
transfer stays in the partition exactly when the sum of the check does not
wrap.
-/
import PotatoOS.Drive

namespace PotatoOS

open Prog

/-! ### Commands -/

/-- What the driver sends to the drive: the address registers and the number
of blocks. -/
structure Command where
  regs : LbaRegs
  numBlocks : Nat
  deriving DecidableEq, Repr

/-- The sectors that the drive transfers, by absolute LBA. -/
def Command.sectors (c : Command) : List Nat := List.range' (lbaOf c.regs) c.numBlocks

/-- What is sent for a sector number and a block count; nothing when one of
the two checks fails. -/
def command (sectorOffset numBlocks : Nat) : Option Command :=
  if (sectorOffset + numBlocks) % 2 ^ 32 > partLength then none
  else if numBlocks > 0x7F then none
  else some ⟨programLba ((sectorOffset + partStartLba) % 2 ^ 32), numBlocks⟩

section

variable (env : Env) (sectorOffset numBlocks off : Nat)

/-- A read transfers the blocks of its command and nothing else. -/
theorem int13hReadO_eq_command :
    int13hReadO env sectorOffset numBlocks off =
      match command sectorOffset numBlocks with
      | none => pure (-1)
      | some c => readBlocks env (lbaOf c.regs) ((diskLocation + off) % 2 ^ 32) c.numBlocks := by
  rw [int13hReadO, command]
  split
  · rfl
  · split
    · rfl
    · rfl

/-- So does a write. -/
theorem int13hWriteO_eq_command :
    int13hWriteO env sectorOffset numBlocks off =
      match command sectorOffset numBlocks with
      | none => pure (-1)
      | some c => writeBlocks env (lbaOf c.regs) ((diskLocation + off) % 2 ^ 32) c.numBlocks := by
  rw [int13hWriteO, command]
  split
  · rfl
  · split
    · rfl
    · rfl

end

/-- The address of a command is the rebased sector number, in 28 bits. -/
theorem lbaOf_command {sectorOffset numBlocks : Nat} {c : Command}
    (h : command sectorOffset numBlocks = some c) :
    lbaOf c.regs = (sectorOffset + partStartLba) % 2 ^ 32 % 2 ^ 28 := by
  rw [command] at h
  split at h
  · cases h
  split at h
  · cases h
  · obtain rfl := Option.some.inj h
    exact lbaOf_programLba _

/-! ### Confinement -/

/-- The command addresses the given sector of the partition, and all its
blocks lie in the partition. -/
structure Command.InPartition (c : Command) (sectorOffset : Nat) : Prop where
  address : lbaOf c.regs = partStartLba + sectorOffset
  inside : ∀ l ∈ c.sectors, partStartLba ≤ l ∧ l < partStartLba + partLength

/-- Past the two checks a transfer stays in the partition. -/
def TransferConfined (sectorOffset numBlocks : Nat) : Prop :=
  ∀ c, command sectorOffset numBlocks = some c → c.InPartition sectorOffset

section

variable {sectorOffset numBlocks : Nat}

theorem transferConfined_of_lt (h : sectorOffset + numBlocks < 2 ^ 32) :
    TransferConfined sectorOffset numBlocks := by
  intro c hc
  rw [command, Nat.mod_eq_of_lt h] at hc
  split at hc
  · cases hc
  split at hc
  · cases hc
  next hle _ =>
    obtain rfl := Option.some.inj hc
    have haddr := lbaOf_rebased (n := sectorOffset) (by omega)
    refine ⟨haddr, fun l hl => ?_⟩
    obtain ⟨h₁, h₂⟩ := List.mem_range'_1.mp hl
    rw [haddr] at h₁ h₂
    exact ⟨by omega, by simp only at h₂; omega⟩

/-- A sum that wraps passes the bounds check, and the address is too low. -/
theorem not_transferConfined_of_wraps (hs : sectorOffset < 2 ^ 32)
    (h : 2 ^ 32 ≤ sectorOffset + numBlocks) (hn : numBlocks ≤ 0x7F) :
    ¬ TransferConfined sectorOffset numBlocks := by
  intro hc
  -- the sum is less than the block count
  have hwrap : ¬ (sectorOffset + numBlocks) % 2 ^ 32 > partLength := by
    rw [partLength]
    omega
  have hsent : command sectorOffset numBlocks
      = some ⟨programLba ((sectorOffset + partStartLba) % 2 ^ 32), numBlocks⟩ := by
    rw [command, if_neg hwrap, if_neg (by omega)]
  have haddr := (hc _ hsent).address
  rw [lbaOf_programLba, partStartLba] at haddr
  omega

/-- A transfer stays in the partition exactly when the sum of the bounds check
does not wrap, or the second check rejects the block count. -/
theorem transferConfined_iff (hs : sectorOffset < 2 ^ 32) :
    TransferConfined sectorOffset numBlocks ↔
      sectorOffset + numBlocks < 2 ^ 32 ∨ 0x7F < numBlocks := by
  constructor
  · intro h
    by_contra hcon
    exact not_transferConfined_of_wraps hs (by omega) (by omega) h
  · rintro (h | h)
    · exact transferConfined_of_lt h
    · intro c hc
      rw [command, if_pos h, ite_self] at hc
      cases hc

end

/-- The last sectors of the partition. -/
theorem transferConfined_lastSectors : TransferConfined (partLength - 2) 2 :=
  (transferConfined_iff (by decide)).mpr (.inl (by decide))

/-- The sector in front of the partition is addressed by the number -1. -/
theorem not_transferConfined_beforePartition :
    command (2 ^ 32 - 1) 1 = some ⟨programLba (partStartLba - 1), 1⟩ ∧
      ¬ TransferConfined (2 ^ 32 - 1) 1 :=
  ⟨by decide, not_transferConfined_of_wraps (by decide) (by decide) (by decide)⟩

end PotatoOS
