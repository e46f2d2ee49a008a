/-
PotatoOS/Bytes.lean

Byte-addressed memories and the little-endian words in them.

A memory is a total function from addresses to bytes.  The one way it
changes is `memcpy`: a window of `n` bytes is replaced by the bytes of a
source.  A disk sector, a local array and the transfer buffer are all such
functions, so the same lemmas serve a sector read, a sector write and the
store of a table entry.

Words of any width are read by `le`, and `leBytes v` is the memory that
holds the bytes of `v` from address 0 on.  The two meet in
`le_memcpy_leBytes`: storing `v` and reading it back gives `v` cut to the
width.
-/
import Mathlib.Tactic

namespace PotatoOS

/-- A byte-addressed memory. -/
abbrev Mem := Nat → UInt8

/-- Place `n` bytes of `src` at address `dst`. -/
def memcpy (m : Mem) (dst : Nat) (src : Mem) (n : Nat) : Mem := fun a =>
  if dst ≤ a ∧ a < dst + n then src (a - dst) else m a

variable {m m' src src' : Mem} {dst n a w : Nat}

/-! ### Reading through a copy -/

theorem memcpy_apply_of_mem (h₁ : dst ≤ a) (h₂ : a < dst + n) :
    memcpy m dst src n a = src (a - dst) :=
  if_pos ⟨h₁, h₂⟩

theorem memcpy_apply_of_notMem (h : a < dst ∨ dst + n ≤ a) :
    memcpy m dst src n a = m a := by
  refine if_neg ?_
  rintro ⟨h₁, h₂⟩
  omega

theorem memcpy_apply_add {i : Nat} (h : i < n) : memcpy m dst src n (dst + i) = src i := by
  rw [memcpy_apply_of_mem (by omega) (by omega), Nat.add_sub_cancel_left]

theorem memcpy_apply_congr (h : m a = m' a) :
    memcpy m dst src n a = memcpy m' dst src n a := by
  simp only [memcpy, h]

/-- Addresses relative to a base. -/
theorem memcpy_apply_base (m : Mem) (b o : Nat) (src : Mem) (n i : Nat) :
    memcpy m (b + o) src n (b + i) = memcpy (fun j => m (b + j)) o src n i := by
  by_cases h : o ≤ i ∧ i < o + n
  · rw [memcpy_apply_of_mem (by omega) (by omega), memcpy_apply_of_mem h.1 h.2]
    congr 1
    omega
  · rw [memcpy_apply_of_notMem (by omega), memcpy_apply_of_notMem (by omega)]

/-- Two copies behind each other are one. -/
theorem memcpy_append (m : Mem) (dst : Nat) (src : Mem) (k n : Nat) :
    memcpy (memcpy m dst src k) (dst + k) (fun i => src (k + i)) n = memcpy m dst src (k + n) := by
  funext a
  by_cases hn : dst + k ≤ a ∧ a < dst + k + n
  · rw [memcpy_apply_of_mem hn.1 hn.2, memcpy_apply_of_mem (by omega) (by omega)]
    congr 1
    omega
  · rw [memcpy_apply_of_notMem (by omega)]
    by_cases hk : dst ≤ a ∧ a < dst + k
    · rw [memcpy_apply_of_mem hk.1 hk.2, memcpy_apply_of_mem hk.1 (by omega)]
    · rw [memcpy_apply_of_notMem (by omega), memcpy_apply_of_notMem (by omega)]

/-- A copy onto the same window hides the earlier one. -/
theorem memcpy_memcpy (m : Mem) (dst : Nat) (src src' : Mem) (n : Nat) :
    memcpy (memcpy m dst src n) dst src' n = memcpy m dst src' n := by
  funext a
  by_cases h : dst ≤ a ∧ a < dst + n
  · rw [memcpy_apply_of_mem h.1 h.2, memcpy_apply_of_mem h.1 h.2]
  · rw [memcpy_apply_of_notMem (by omega), memcpy_apply_of_notMem (by omega),
      memcpy_apply_of_notMem (by omega)]

/-- Only the first `n` bytes of the source matter. -/
theorem memcpy_congr (h : ∀ i < n, src i = src' i) :
    memcpy m dst src n = memcpy m dst src' n := by
  funext a
  by_cases ha : dst ≤ a ∧ a < dst + n
  · rw [memcpy_apply_of_mem ha.1 ha.2, memcpy_apply_of_mem ha.1 ha.2]
    exact h _ (by omega)
  · rw [memcpy_apply_of_notMem (by omega), memcpy_apply_of_notMem (by omega)]

/-- Copying a window onto itself changes nothing. -/
theorem memcpy_self (m : Mem) (dst n : Nat) :
    memcpy m dst (fun i => m (dst + i)) n = m := by
  funext a
  by_cases h : dst ≤ a ∧ a < dst + n
  · rw [memcpy_apply_of_mem h.1 h.2]
    congr 1
    omega
  · exact memcpy_apply_of_notMem (by omega)

/-! ### Around the end of the address space -/

/-- Place `n` bytes of `src` at address `dst` of a memory of 2^32 bytes; a copy
that runs over the end goes on at address 0. -/
def memcpy32 (m : Mem) (dst : Nat) (src : Mem) (n : Nat) : Mem := fun a =>
  if a < 2 ^ 32 ∧ (a + (2 ^ 32 - dst % 2 ^ 32)) % 2 ^ 32 < n then
    src ((a + (2 ^ 32 - dst % 2 ^ 32)) % 2 ^ 32)
  else m a

/-- In front of the end it is a plain copy. -/
theorem memcpy32_eq (h : dst + n ≤ 2 ^ 32) : memcpy32 m dst src n = memcpy m dst src n := by
  funext a
  rw [memcpy32, memcpy]
  by_cases ha : dst ≤ a ∧ a < dst + n
  · have hi : (a + (2 ^ 32 - dst % 2 ^ 32)) % 2 ^ 32 = a - dst := by omega
    rw [hi, if_pos (by omega), if_pos ha]
  · rw [if_neg (by omega), if_neg ha]

theorem memcpy32_apply_add {i : Nat} (hi : i < n) (hn : n ≤ 2 ^ 32) :
    memcpy32 m dst src n ((dst + i) % 2 ^ 32) = src i := by
  have h : ((dst + i) % 2 ^ 32 + (2 ^ 32 - dst % 2 ^ 32)) % 2 ^ 32 = i := by omega
  rw [memcpy32, h, if_pos ⟨Nat.mod_lt _ (by decide), hi⟩]

theorem memcpy32_apply_of_notMem (h : 2 ^ 32 ≤ a ∨ n ≤ (a + (2 ^ 32 - dst % 2 ^ 32)) % 2 ^ 32) :
    memcpy32 m dst src n a = m a := by
  refine if_neg ?_
  rintro ⟨h₁, h₂⟩
  omega

theorem memcpy32_mod (m : Mem) (dst : Nat) (src : Mem) (n : Nat) :
    memcpy32 m (dst % 2 ^ 32) src n = memcpy32 m dst src n := by
  funext a
  rw [memcpy32, memcpy32, Nat.mod_mod]

/-- Two copies behind one another are one. -/
theorem memcpy32_append (m : Mem) (dst : Nat) (src : Mem) {k n : Nat} (h : k + n ≤ 2 ^ 32) :
    memcpy32 (memcpy32 m dst src k) (dst + k) (fun i => src (k + i)) n
      = memcpy32 m dst src (k + n) := by
  funext a
  by_cases ha : a < 2 ^ 32
  · obtain ⟨r, hr⟩ : ∃ r, (a + (2 ^ 32 - dst % 2 ^ 32)) % 2 ^ 32 = r := ⟨_, rfl⟩
    -- the distance from the second copy, around the end
    have hr' : (a + (2 ^ 32 - (dst + k) % 2 ^ 32)) % 2 ^ 32 = (r + (2 ^ 32 - k)) % 2 ^ 32 := by
      omega
    by_cases h₁ : k ≤ r ∧ r < k + n
    · have hk : (r + (2 ^ 32 - k)) % 2 ^ 32 = r - k := by omega
      rw [memcpy32, hr', hk, if_pos ⟨ha, by omega⟩, memcpy32, hr, if_pos ⟨ha, h₁.2⟩,
        Nat.add_sub_cancel' h₁.1]
    · have hk : ¬ (r + (2 ^ 32 - k)) % 2 ^ 32 < n := by omega
      rw [memcpy32, hr', if_neg fun hlt => hk hlt.2, memcpy32, memcpy32, hr]
      by_cases h₂ : r < k
      · rw [if_pos ⟨ha, h₂⟩, if_pos ⟨ha, by omega⟩]
      · rw [if_neg fun hlt => h₂ hlt.2, if_neg fun hlt => h₁ ⟨by omega, hlt.2⟩]
  · rw [memcpy32_apply_of_notMem (.inl (by omega)), memcpy32_apply_of_notMem (.inl (by omega)),
      memcpy32_apply_of_notMem (.inl (by omega))]

/-! ### Little-endian words -/

/-- The `w`-byte little-endian word at address `a`. -/
def le (m : Mem) (a : Nat) : Nat → Nat
  | 0 => 0
  | w + 1 => (m a).toNat + 256 * le m (a + 1) w

/-- The bytes of `v`, least significant first. -/
def leBytes (v : Nat) : Mem := fun i => UInt8.ofNat (v / 256 ^ i)

theorem le_lt (m : Mem) (a w : Nat) : le m a w < 256 ^ w := by
  induction w generalizing a with
  | zero => simp [le]
  | succ w ih =>
      have hb := (m a).toNat_lt
      have hr := ih (a + 1)
      rw [le, pow_succ]
      omega

/-- A word depends only on the bytes under it. -/
theorem le_congr {b : Nat} (h : ∀ i < w, m (a + i) = m' (b + i)) :
    le m a w = le m' b w := by
  induction w generalizing a b with
  | zero => rfl
  | succ w ih =>
      have h₀ : m a = m' b := h 0 (by omega)
      have hs : le m (a + 1) w = le m' (b + 1) w := ih fun i hi => by
        have := h (i + 1) (by omega)
        rwa [show a + (i + 1) = a + 1 + i by omega,
          show b + (i + 1) = b + 1 + i by omega] at this
      rw [le, le, h₀, hs]

/-- A word is its low bytes and, above them, its high bytes. -/
theorem le_add (m : Mem) (a k j : Nat) : le m a (k + j) = le m a k + 256 ^ k * le m (a + k) j := by
  induction k generalizing a with
  | zero => simp [le]
  | succ k ih =>
      rw [Nat.succ_add, le, ih, le, pow_succ, show a + 1 + k = a + (k + 1) by omega]
      ring

theorem le_memcpy_of_disjoint (h : a + w ≤ dst ∨ dst + n ≤ a) :
    le (memcpy m dst src n) a w = le m a w :=
  le_congr fun i hi => memcpy_apply_of_notMem (by omega)

theorem le_memcpy_of_subset (h₁ : dst ≤ a) (h₂ : a + w ≤ dst + n) :
    le (memcpy m dst src n) a w = le src (a - dst) w :=
  le_congr fun i hi => by
    rw [memcpy_apply_of_mem (by omega) (by omega)]
    congr 1
    omega

theorem le_leBytes (v k w : Nat) :
    le (leBytes v) k w = v / 256 ^ k % 256 ^ w := by
  induction w generalizing k with
  | zero => simp [le, Nat.mod_one]
  | succ w ih =>
      have hb : (leBytes v k).toNat = v / 256 ^ k % 256 := by
        simp [leBytes]
      have hs : v / 256 ^ (k + 1) = v / 256 ^ k / 256 := by
        rw [pow_succ, Nat.div_div_eq_div_mul]
      rw [le, ih, hb, hs, pow_succ, Nat.mul_comm (256 ^ w) 256, Nat.mod_mul]

/-- The bytes of a word that has been read. -/
theorem leBytes_le (m : Mem) (a : Nat) {w i : Nat} (h : i < w) :
    leBytes (le m a w) i = m (a + i) := by
  induction w generalizing a i with
  | zero => exact absurd h (Nat.not_lt_zero _)
  | succ w ih =>
      have hb := (m a).toNat_lt
      cases i with
      | zero =>
          apply UInt8.toNat_inj.mp
          rw [leBytes, le, UInt8.toNat_ofNat', pow_zero, Nat.div_one, Nat.add_mul_mod_self_left]
          exact Nat.mod_eq_of_lt hb
      | succ i =>
          have hdiv : ((m a).toNat + 256 * le m (a + 1) w) / 256 ^ (i + 1)
              = le m (a + 1) w / 256 ^ i := by
            rw [pow_succ', ← Nat.div_div_eq_div_mul]
            congr 1
            omega
          have hrest := ih (a + 1) (Nat.lt_of_succ_lt_succ h)
          rw [leBytes] at hrest ⊢
          rw [le, hdiv, hrest, Nat.add_assoc, Nat.add_comm 1 i]

/-- Storing a word and reading it back cuts it to the width. -/
theorem le_memcpy_leBytes (m : Mem) (a v w : Nat) :
    le (memcpy m a (leBytes v) w) a w = v % 256 ^ w := by
  rw [le_memcpy_of_subset (Nat.le_refl _) (Nat.le_refl _), Nat.sub_self, le_leBytes]
  simp

/-! ### Byte strings -/

/-- The `n` bytes from address `a` on. -/
def bytesAt (m : Mem) (a n : Nat) : List UInt8 := (List.range n).map fun i => m (a + i)

theorem bytesAt_congr {b : Nat} (h : ∀ i < n, m (a + i) = m' (b + i)) :
    bytesAt m a n = bytesAt m' b n :=
  List.map_congr_left fun i hi => h i (List.mem_range.mp hi)

theorem bytesAt_eq_iff {b : Nat} :
    bytesAt m a n = bytesAt m' b n ↔ ∀ i < n, m (a + i) = m' (b + i) :=
  List.map_inj_left.trans ⟨fun h i hi => h i (List.mem_range.mpr hi),
    fun h i hi => h i (List.mem_range.mp hi)⟩

theorem bytesAt_add (m : Mem) (a n k : Nat) :
    bytesAt m a (n + k) = bytesAt m a n ++ bytesAt m (a + n) k := by
  rw [bytesAt, List.range_add, List.map_append, List.map_map]
  refine congrArg (bytesAt m a n ++ ·) (List.map_congr_left fun i _ => ?_)
  show m (a + (n + i)) = m (a + n + i)
  rw [Nat.add_assoc]

end PotatoOS
