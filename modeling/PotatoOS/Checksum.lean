/-
PotatoOS/Checksum.lean

`checksum` of tty.c, the checksum of the headers that `send_ping` fills.

The words of a buffer are added in 32 bits, with the last byte of an odd buffer
as the low byte of a word; then the carries are folded into the lower 16 bits,
with a dot printed for each round, and the result is the complement.  The sum of
a buffer of at most 128 KiB does not leave 32 bits (`toNat_sumBytes`), and a
round is the end-around carry of EndAround.lean, so the loop ends and its result
is the word of the sum (`foldLoop_folded`).

Main result: `checksum_verifies`, a buffer whose checksum was stored in a field
of zeros has the checksum 0.
-/
import PotatoOS.EndAround
import PotatoOS.Terminal

namespace PotatoOS

/-! ### The function -/

/-- The first `n` words added up. -/
def sumWords (data : Mem) : Nat → UInt32
  | 0 => 0
  | n + 1 => sumWords data n + UInt32.ofNat (le data (2 * n) 2)

/-- The sum over `len` bytes. -/
def sumBytes (data : Mem) (len : Nat) : UInt32 :=
  let sum := sumWords data (len / 2)
  if len % 2 ≠ 0 then sum + (data (2 * (len / 2))).toUInt32 else sum

/-- The carries go to the lower 16 bits. -/
def foldRound (sum : UInt32) : UInt32 :=
  let low : UInt32 := sum &&& 0xFFFF
  low + sum >>> 16

theorem toNat_shiftRight_sixteen (sum : UInt32) : (sum >>> 16).toNat = sum.toNat / 2 ^ 16 := by
  rw [UInt32.toNat_shiftRight]
  exact Nat.shiftRight_eq_div_pow _ _

/-- A round of the loop is an end-around carry. -/
theorem toNat_foldRound (sum : UInt32) :
    (foldRound sum).toNat = endAround (2 ^ 16) sum.toNat := by
  have hlt := sum.toNat_lt
  have hand : (sum &&& 0xFFFF : UInt32).toNat = sum.toNat % 2 ^ 16 := by
    rw [UInt32.toNat_and]
    exact Nat.and_two_pow_sub_one_eq_mod _ 16
  rw [foldRound, UInt32.toNat_add, hand, toNat_shiftRight_sixteen, endAround,
    Nat.mod_eq_of_lt (by omega)]

theorem shiftRight_ne_zero_iff (sum : UInt32) : sum >>> 16 ≠ 0 ↔ 2 ^ 16 ≤ sum.toNat := by
  rw [ne_eq, ← UInt32.toNat_inj, toNat_shiftRight_sixteen]
  show ¬sum.toNat / 2 ^ 16 = 0 ↔ _
  omega

/-- The loop that folds the carries; every round prints a dot. -/
def foldLoop (args : Nat → Vararg) (sum : UInt32) (t : Terminal) : UInt32 × Terminal :=
  if sum >>> 16 ≠ 0 then
    foldLoop args (foldRound sum) (printf args (text ".") t)
  else (sum, t)
termination_by sum.toNat
decreasing_by
  rw [toNat_foldRound]
  exact endAround_lt (by decide) ((shiftRight_ne_zero_iff sum).mp (by assumption))

/-- `checksum`: the complement of the folded sum. -/
def checksum (args : Nat → Vararg) (data : Mem) (len : Nat) (t : Terminal) : UInt16 × Terminal :=
  let r := foldLoop args (sumBytes data len) t
  ((~~~r.1).toUInt16, r.2)

/-! ### The sum -/

/-- The sum of the words, as a number. -/
def byteSum (data : Mem) (len : Nat) : Nat :=
  ∑ i ∈ Finset.range (len / 2), le data (2 * i) 2
    + if len % 2 ≠ 0 then (data (2 * (len / 2))).toNat else 0

section

variable {data : Mem} {len n k : Nat}

theorem sum_le_lt (data : Mem) (n : Nat) :
    ∑ i ∈ Finset.range n, le data (2 * i) 2 ≤ n * (2 ^ 16 - 1) := by
  have hsum := Finset.sum_le_card_nsmul (Finset.range n) (fun i => le data (2 * i) 2) (2 ^ 16 - 1)
    fun i _ => Nat.le_pred_of_lt (le_lt data (2 * i) 2)
  rwa [Finset.card_range, smul_eq_mul] at hsum

/-- Up to 2^16 words can be added in 32 bits. -/
theorem toNat_sumWords (data : Mem) (hn : n ≤ 2 ^ 16) :
    (sumWords data n).toNat = ∑ i ∈ Finset.range n, le data (2 * i) 2 := by
  induction n with
  | zero => rfl
  | succ n ih =>
      have hword := le_lt data (2 * n) 2
      have hbound := sum_le_lt data (n + 1)
      rw [Finset.sum_range_succ] at hbound ⊢
      rw [sumWords, UInt32.toNat_add, ih (by omega), UInt32.toNat_ofNat_of_lt' (by
        show _ < 2 ^ 32
        omega)]
      exact Nat.mod_eq_of_lt (by omega)

theorem toNat_sumBytes (data : Mem) (hlen : len ≤ 131072) :
    (sumBytes data len).toNat = byteSum data len := by
  have hwords := toNat_sumWords data (n := len / 2) (by omega)
  have hbound := sum_le_lt data (len / 2)
  rw [sumBytes, byteSum]
  split
  · have hbyte := (data (2 * (len / 2))).toNat_lt
    rw [UInt32.toNat_add, hwords, UInt8.toNat_toUInt32]
    exact Nat.mod_eq_of_lt (by omega)
  · rw [hwords, Nat.add_zero]

/-- The loop comes to the word of the sum. -/
theorem foldLoop_folded (args : Nat → Vararg) (sum : UInt32) (t : Terminal) :
    Folded (2 ^ 16) sum.toNat (foldLoop args sum t).1.toNat := by
  fun_induction foldLoop args sum t with
  | case1 sum t h ih =>
      rw [toNat_foldRound] at ih
      exact ih.of_endAround (by decide)
  | case2 sum t h =>
      exact .of_lt (Nat.lt_of_not_le fun hle => h ((shiftRight_ne_zero_iff sum).mpr hle))

/-- The complement of a word. -/
theorem toNat_complement {sum : UInt32} (h : sum.toNat < 2 ^ 16) :
    (~~~sum).toUInt16.toNat = 2 ^ 16 - 1 - sum.toNat := by
  rw [UInt32.toNat_toUInt16, UInt32.toNat_not]
  show (2 ^ 32 - 1 - sum.toNat) % 2 ^ 16 = _
  omega

theorem toNat_checksum (args : Nat → Vararg) (data : Mem) (hlen : len ≤ 131072) (t : Terminal) :
    ∃ w, Folded (2 ^ 16) (byteSum data len) w ∧
      (checksum args data len t).1.toNat = 2 ^ 16 - 1 - w := by
  have hfold := foldLoop_folded args (sumBytes data len) t
  refine ⟨_, toNat_sumBytes data hlen ▸ hfold, toNat_complement hfold.lt⟩

/-- A number stored in a field of zeros is added to the sum. -/
theorem byteSum_store (hk : 2 * k + 2 ≤ len) (hzero : le data (2 * k) 2 = 0) {c : Nat}
    (hc : c < 2 ^ 16) :
    byteSum (memcpy data (2 * k) (leBytes c) 2) len = byteSum data len + c := by
  have hword (i : Nat) : le (memcpy data (2 * k) (leBytes c) 2) (2 * i) 2
      = le data (2 * i) 2 + if i = k then c else 0 := by
    split
    next h =>
      rw [h, le_memcpy_leBytes, hzero, Nat.zero_add]
      exact Nat.mod_eq_of_lt hc
    next h => rw [le_memcpy_of_disjoint (by omega), Nat.add_zero]
  have hlast : len % 2 ≠ 0 →
      memcpy data (2 * k) (leBytes c) 2 (2 * (len / 2)) = data (2 * (len / 2)) := fun hodd =>
    memcpy_apply_of_notMem (by omega)
  have hmem : k ∈ Finset.range (len / 2) := Finset.mem_range.mpr (by omega)
  rw [byteSum, byteSum, Finset.sum_congr rfl fun i _ => hword i, Finset.sum_add_distrib,
    Finset.sum_ite_eq', if_pos hmem]
  split
  next hodd =>
    rw [hlast hodd]
    omega
  next => omega

/-- The sum stays in 32 bits, and with its checksum stored a buffer has the checksum 0. -/
theorem checksum_verifies (args : Nat → Vararg) (data : Mem) (len k : Nat) (hlen : len ≤ 131072)
    (hk : 2 * k + 2 ≤ len) (hzero : le data (2 * k) 2 = 0) (t t' : Terminal) :
    (∀ n ≤ len / 2, (sumWords data n).toNat = ∑ i ∈ Finset.range n, le data (2 * i) 2) ∧
    (sumBytes data len).toNat = byteSum data len ∧
    (checksum args (memcpy data (2 * k) (leBytes (checksum args data len t).1.toNat) 2) len t').1
      = 0 := by
  refine ⟨fun n hn => toNat_sumWords data (by omega), toNat_sumBytes data hlen, ?_⟩
  obtain ⟨w, hw, hc⟩ := toNat_checksum args data hlen t
  obtain ⟨w', hw', hc'⟩ := toNat_checksum args
    (memcpy data (2 * k) (leBytes (checksum args data len t).1.toNat) 2) hlen t'
  rw [byteSum_store hk hzero (UInt16.toNat_lt _), hc] at hw'
  rw [← UInt16.toNat_inj, hc', hw.complement (by decide) hw', Nat.sub_self]
  rfl

end

/-- The ICMP header of `send_ping`, with its checksum still 0. -/
def pingHeader : Mem := fun i => [8, 0, 0, 0, 0, 1, 0, 1].getD i 0

/-- A terminal with nothing on it, and no arguments. -/
def emptyTerminal : Terminal := ⟨0, 0, 0, fun _ => 0, 0⟩

/-- A stack that holds nothing of interest. -/
def noArguments : Nat → Vararg := fun _ => ⟨0, []⟩

theorem checksum_pingHeader :
    (checksum noArguments (memcpy pingHeader (2 * 1)
      (leBytes (checksum noArguments pingHeader 8 emptyTerminal).1.toNat) 2) 8 emptyTerminal).1
      = 0 :=
  (checksum_verifies noArguments pingHeader 8 1 (by decide) (by decide) (by decide) emptyTerminal
    emptyTerminal).2.2

end PotatoOS
