/-
PotatoOS/Pieces.lean

The pieces in which `putFile` writes a file.

A round of the write loop hands one piece of the file to `clusterWrite`, then
links a new cluster to the chain if anything is left (`writeLoop_succ`).
`writeCalls` lists the pieces of a run.  A file is cut into pieces of at most
a cluster each exactly when it is shorter than a cluster and so is its own
only piece: a round that finds a cluster's worth of data or more takes one
byte too many, and if it finds exactly that much the unsigned count of what is
left passes zero (`lt_writePiece_iff`).
-/
import PotatoOS.Frame
import PotatoOS.Halting

namespace PotatoOS

open Prog

/-! ### One round -/

/-- The offset in the file and the number of bytes that a round writes. -/
def writePiece (g : Globals) (fileSize dataLeftToWrite : Nat) : Nat × Nat :=
  ((fileSize + (2 ^ 32 - dataLeftToWrite)) % 2 ^ 32,
    if dataLeftToWrite ≥ g.clusterSize then g.clusterSize + 1 else dataLeftToWrite)

/-- A round of the loop: what is left and the cluster to go on with, or the
code to return. -/
def writeRound (env : Env) (g : Globals) (fileContents : Mem) (fileSize dataLeftToWrite
    activeCluster : Nat) : Prog State (Except Int (Nat × Nat)) := do
  let piece := writePiece g fileSize dataLeftToWrite
  if (← clusterWrite env g (fun i => fileContents (piece.1 + i)) piece.2 1 activeCluster) ≠ 0 then
    return .error (-1)
  let dataLeftToWrite := (dataLeftToWrite + (2 ^ 32 - piece.2)) % 2 ^ 32
  if dataLeftToWrite = 0 then return .error 0
  let newCluster ← allocateFreeFAT env g
  if g.isBadMark newCluster then return .error (-1)
  if (← fatWrite env g activeCluster newCluster) ≠ 0 then return .error (-1)
  return .ok (dataLeftToWrite, newCluster)

/-- The pieces that a run of the loop hands to `clusterWrite`, in order. -/
def writeCalls (env : Env) (g : Globals) (fileContents : Mem) (fileSize : Nat) :
    Nat → Nat → Nat → State → List (Nat × Nat)
  | 0, _, _, _ => []
  | fuel + 1, dataLeftToWrite, activeCluster, s =>
      if dataLeftToWrite = 0 then []
      else
        writePiece g fileSize dataLeftToWrite ::
          match writeRound env g fileContents fileSize dataLeftToWrite activeCluster s with
          | (.value (.ok (dataLeftToWrite, newCluster)), s') =>
              writeCalls env g fileContents fileSize fuel dataLeftToWrite newCluster s'
          | _ => []

/-- A round takes more than there is, and the count wraps, exactly when one
cluster is left. -/
theorem lt_writePiece_iff (g : Globals) (fileSize left : Nat) :
    left < (writePiece g fileSize left).2 ↔ left = g.clusterSize := by
  rw [writePiece]
  split <;> omega

section

variable {env : Env} {g : Globals} {contents : Mem} {size fuel left c : Nat} {s : State}

/-- The loop of `putFile` is made of these rounds. -/
theorem writeLoop_succ :
    writeLoop env g contents size (fuel + 1) left c =
      if left = 0 then pure 0
      else writeRound env g contents size left c >>= fun r =>
        match r with
        | .error code => pure code
        | .ok (left, newCluster) => writeLoop env g contents size fuel left newCluster := by
  have hlen : (if left ≥ g.clusterSize then g.clusterSize + 1 else left)
      = (writePiece g size left).2 := rfl
  have hoff : (size + (2 ^ 32 - left)) % 2 ^ 32 = (writePiece g size left).1 := rfl
  rw [writeLoop, writeRound]
  refine if_congr Iff.rfl rfl ?_
  simp only [bind_assoc, hlen, hoff]
  refine bind_congr fun code => ?_
  split
  · rfl
  · split
    · rfl
    · simp only [bind_assoc]
      refine bind_congr fun newCluster => ?_
      split
      · rfl
      · simp only [bind_assoc]
        refine bind_congr fun code => ?_
        split <;> rfl

/-- A round uses no budget. -/
theorem writeRound_total (env : Env) (g : Globals) (contents : Mem) (size left c : Nat) :
    Total (writeRound env g contents size left c) := by
  rw [writeRound]
  refine Within.total ?_ (not_driverStop_exhausted g)
  refine .bind (clusterWrite_within _ _ _ _ _ _) fun _ => .ite (.pure _) (.ite (.pure _) ?_)
  refine .bind (allocateFreeFAT_within _ _) fun _ => .ite (.pure _) ?_
  exact .bind (fatWrite_within _ _ _ _) fun _ => .ite (.pure _) (.pure _)

/-- Less than a cluster is written in one round. -/
theorem writeRound_yields_error (env : Env) (contents : Mem) (size c : Nat)
    (hleft : left < g.clusterSize) (hlt : left < 2 ^ 32) :
    Yields (fun r => ∃ code, r = .error code) (writeRound env g contents size left c) := by
  have hlen : (writePiece g size left).2 = left := if_neg (Nat.not_le_of_lt hleft)
  rw [writeRound]
  refine .bind fun _ => .ite (.pure ⟨_, rfl⟩) ?_
  rw [if_pos (by rw [hlen]; omega)]
  exact .pure ⟨_, rfl⟩

theorem writeCalls_of_ne_zero (env : Env) (g : Globals) (contents : Mem) (size fuel c : Nat)
    (s : State) (hleft : left ≠ 0) :
    ∃ l, writeCalls env g contents size (fuel + 1) left c s = writePiece g size left :: l := by
  rw [writeCalls, if_neg hleft]
  exact ⟨_, rfl⟩

theorem writeCalls_of_lt (hne : left ≠ 0) (hleft : left < g.clusterSize) (hlt : left < 2 ^ 32) :
    writeCalls env g contents size (fuel + 1) left c s = [writePiece g size left] := by
  rw [writeCalls, if_neg hne]
  split
  · rename_i hr
    obtain ⟨code, hcode⟩ :=
      writeRound_yields_error env contents size c hleft hlt s _ (congrArg Prod.fst hr)
    cases hcode
  · rfl

theorem writeLoop_ends_of_lt (hleft : left < g.clusterSize) (hlt : left < 2 ^ 32) :
    (writeLoop env g contents size (fuel + 1) left c s).1 ≠ .stop .exhausted := by
  rw [writeLoop_succ]
  split
  · exact Total.pure _ s
  · rcases hr : writeRound env g contents size left c s with ⟨r | e, s'⟩
    · obtain ⟨code, rfl⟩ :=
        writeRound_yields_error env contents size c hleft hlt s r (congrArg Prod.fst hr)
      rw [bind_value hr]
      exact Total.pure _ s'
    · have ht := writeRound_total env g contents size left c s
      rw [hr] at ht
      rw [bind_stop hr]
      exact fun he => ht (congrArg _ (Outcome.stop.inj he))

end

/-! ### Cutting a file -/

/-- The pieces follow each other from `o` to `n` without a gap or an overlap. -/
def Tiles : Nat → Nat → List (Nat × Nat) → Prop
  | o, n, [] => o = n
  | o, n, p :: l => p.1 = o ∧ Tiles (o + p.2) n l

/-- The pieces cut `n` bytes into parts of at most `size`, as few as possible. -/
structure Partitions (size n : Nat) (calls : List (Nat × Nat)) : Prop where
  tiles : Tiles 0 n calls
  length_le : ∀ p ∈ calls, p.2 ≤ size
  count : calls.length = (n + size - 1) / size

theorem partitions_single {size n : Nat} (h₀ : n ≠ 0) (h : n < size) :
    Partitions size n [(0, n)] where
  tiles := ⟨rfl, Nat.zero_add n⟩
  length_le := List.forall_mem_singleton.mpr h.le
  count := by
    rw [List.length_singleton, eq_comm, Nat.div_eq_iff (by omega)]
    omega

/-- The loop ends and cuts a file into parts of at most a cluster exactly when
the file is shorter than a cluster. -/
theorem writeCalls_partitions_iff (env : Env) (g : Globals) (contents : Mem) (fuel c : Nat)
    (s : State) {n : Nat} (h₀ : 1 ≤ n) (hlt : n < 2 ^ 32) :
    Partitions g.clusterSize n (writeCalls env g contents n (fuel + 1) n c s) ∧
        (writeLoop env g contents n (fuel + 1) n c s).1 ≠ .stop .exhausted ↔
      n < g.clusterSize := by
  have hne : n ≠ 0 := Nat.one_le_iff_ne_zero.mp h₀
  constructor
  · rintro ⟨hp, -⟩
    obtain ⟨l, hl⟩ := writeCalls_of_ne_zero env g contents n fuel c s hne
    by_contra hge
    -- the first round already takes a byte too many
    have hlen := hp.length_le (writePiece g n n) (by rw [hl]; exact List.mem_cons_self)
    rw [writePiece, if_pos (Nat.le_of_not_lt hge)] at hlen
    omega
  · intro h
    have hpiece : writePiece g n n = (0, n) := by
      rw [writePiece, if_neg (Nat.not_le_of_lt h), Nat.add_sub_cancel' hlt.le, Nat.mod_self]
    refine ⟨?_, writeLoop_ends_of_lt h hlt⟩
    rw [writeCalls_of_lt hne h hlt, hpiece]
    exact partitions_single hne h

theorem writeCalls_partitions_short :
    Partitions 512 511 (writeCalls reliable smallVolume (fun _ => 0x41) 511 1 511 3 emptyState) :=
  ((writeCalls_partitions_iff reliable smallVolume (fun _ => 0x41) 0 3 emptyState (by decide)
    (by decide)).mpr (by decide)).1

/-- A file of exactly one cluster is written with 513 bytes first. -/
theorem not_partitions_cluster :
    ¬ Partitions 512 512
      (writeCalls reliable smallVolume (fun _ => 0x41) 512 1 512 3 emptyState) := by
  intro h
  obtain ⟨l, hl⟩ := writeCalls_of_ne_zero reliable smallVolume (fun _ => 0x41) 512 0 3 emptyState
    (show 512 ≠ 0 by decide)
  have hlen := h.length_le (0, 513) (by rw [hl]; exact List.mem_cons_self)
  exact absurd hlen (by decide)

end PotatoOS
