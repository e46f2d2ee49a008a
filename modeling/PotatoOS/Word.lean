/-
PotatoOS/Word.lean

Words in the memory of a 32-bit machine.

Memory is a function from 32-bit addresses to bytes; a word is four bytes,
the low one first.  `Separate` says that two spans of addresses have no byte
in common, where a span may run over the top of the address space.  What was
stored is loaded again (`load_store_self`), and a store changes no word that
is separate from it (`load_store_of_separate`).  Separation of words at fixed
offsets from one address is decided by evaluation (`Separate.add_add`), and
that of offsets into two spans follows from that of the spans.

An array of words is given by its address; `element` is the address of one of
its words, and a store to one changes no other (`load_store_element`).
-/
import Mathlib.Tactic
import Mathlib.Data.BitVec

namespace PotatoOS

/-- A register or a word of memory. -/
abbrev Word := BitVec 32

/-- The contents of memory. -/
abbrev Ram := Word → BitVec 8

/-- The word at address `a`. -/
def load (m : Ram) (a : Word) : Word := m (a + 3) ++ m (a + 2) ++ m (a + 1) ++ m a

/-- Place a word at address `a`. -/
def store (m : Ram) (a v : Word) : Ram := fun x =>
  if x - a < 4 then (v >>> (8 * (x - a).toNat)).setWidth 8 else m x

/-- The spans of `n` bytes at `a` and of `k` bytes at `b` do not meet. -/
def Separate (a : Word) (n : Nat) (b : Word) (k : Nat) : Prop :=
  ∀ i < n, ∀ j < k, a + BitVec.ofNat 32 i ≠ b + BitVec.ofNat 32 j

section

variable {m m' : Ram} {a b c d v x : Word} {n k : Nat}

theorem store_apply_add (m : Ram) (a v : Word) {i : Nat} (hi : i < 4) :
    store m a v (a + BitVec.ofNat 32 i) = (v >>> (8 * i)).setWidth 8 := by
  have hsub : a + BitVec.ofNat 32 i - a = BitVec.ofNat 32 i := add_sub_cancel_left _ _
  have hlt : BitVec.ofNat 32 i < 4 := by
    rw [BitVec.lt_def, BitVec.toNat_ofNat, Nat.mod_eq_of_lt (by omega)]
    exact hi
  rw [store, hsub, if_pos hlt, BitVec.toNat_ofNat, Nat.mod_eq_of_lt (by omega)]

/-- A store changes no byte of a span that is separate from it. -/
theorem store_apply_of_separate {i : Nat} (h : Separate a 4 b k) (hi : i < k) :
    store m a v (b + BitVec.ofNat 32 i) = m (b + BitVec.ofNat 32 i) := by
  refine if_neg fun hlt => ?_
  refine h (b + BitVec.ofNat 32 i - a).toNat (BitVec.lt_def.mp hlt) i hi ?_
  rw [BitVec.ofNat_toNat, BitVec.setWidth_eq, add_sub_cancel]

/-- The four bytes of a word make up the word. -/
theorem append_bytes (v : Word) :
    (v >>> 24).setWidth 8 ++ (v >>> 16).setWidth 8 ++ (v >>> 8).setWidth 8 ++ v.setWidth 8 = v := by
  apply BitVec.eq_of_getLsbD_eq
  intro i hi
  simp only [BitVec.getLsbD_append, BitVec.getLsbD_setWidth, BitVec.getLsbD_ushiftRight]
  -- the byte that bit `i` lies in
  split
  · simp [*]
  · split
    · rw [show 8 + (i - 8) = i by omega]
      simp [*]
    · split
      · rw [show 16 + (i - 8 - 8) = i by omega]
        simp [*]
      · rw [show 24 + (i - 8 - 8 - 8) = i by omega, decide_eq_true (by omega), Bool.true_and]

@[simp] theorem load_store_self (m : Ram) (a v : Word) : load (store m a v) a = v := by
  have h := fun (i : Nat) (hi : i < 4) => store_apply_add m a v hi
  rw [load, show a + 3 = a + BitVec.ofNat 32 3 from rfl,
    show a + 2 = a + BitVec.ofNat 32 2 from rfl, show a + 1 = a + BitVec.ofNat 32 1 from rfl,
    h 3 (by decide), h 2 (by decide), h 1 (by decide)]
  have h₀ := h 0 (by decide)
  rw [BitVec.add_zero] at h₀
  rw [h₀]
  exact append_bytes v

/-- Words are the same where the bytes are. -/
theorem load_congr (h : ∀ i < 4, m (a + BitVec.ofNat 32 i) = m' (b + BitVec.ofNat 32 i)) :
    load m a = load m' b := by
  have h₀ := h 0 (by decide)
  rw [BitVec.add_zero, BitVec.add_zero] at h₀
  rw [load, load, h₀]
  exact congrArg₂ (fun x y => x ++ y ++ _) (congrArg₂ _ (h 3 (by decide)) (h 2 (by decide)))
    (h 1 (by decide))

theorem Separate.symm (h : Separate a n b k) : Separate b k a n :=
  fun i hi j hj he => h j hj i hi he.symm

/-- Spans that lie one behind the other. -/
theorem Separate.of_le (h : a.toNat + n ≤ b.toNat) (hb : b.toNat + k ≤ 2 ^ 32) :
    Separate a n b k := by
  intro i hi j hj heq
  have hnat := congrArg BitVec.toNat heq
  rw [BitVec.toNat_add, BitVec.toNat_add, BitVec.toNat_ofNat, BitVec.toNat_ofNat] at hnat
  omega

/-- A part of a span is separate from what the span is separate from. -/
theorem Separate.left {n' : Nat} (h : Separate a n b k) (hc : c.toNat + n' ≤ n) :
    Separate (a + c) n' b k := by
  intro i hi
  have he : a + c + BitVec.ofNat 32 i = a + BitVec.ofNat 32 (c.toNat + i) := by
    rw [BitVec.ofNat_add, BitVec.ofNat_toNat, BitVec.setWidth_eq, add_assoc]
  rw [he]
  exact h _ (by omega)

theorem Separate.right {k' : Nat} (h : Separate a n b k) (hd : d.toNat + k' ≤ k) :
    Separate a n (b + d) k' :=
  (h.symm.left hd).symm

/-- A store changes no word that is separate from it. -/
theorem load_store_of_separate (h : Separate a 4 b 4) : load (store m a v) b = load m b :=
  load_congr fun _ hi => store_apply_of_separate h hi

instance : Decidable (Separate a n b k) :=
  inferInstanceAs (Decidable (∀ i < n, ∀ j < k, a + BitVec.ofNat 32 i ≠ b + BitVec.ofNat 32 j))

/-- Offsets from one address. -/
theorem Separate.add_add (h : Separate c n d k) (a : Word) : Separate (a + c) n (a + d) k := by
  intro i hi j hj he
  rw [add_assoc, add_assoc] at he
  exact h i hi j hj (add_left_cancel he)

/-- A part of a span that starts at an offset itself. -/
theorem Separate.right_sub {s : Word} {k' : Nat} (h : Separate a n (b + s) k)
    (hd : (d - s).toNat + k' ≤ k) : Separate a n (b + d) k' := by
  have hright := h.right hd
  rwa [add_assoc, add_sub_cancel] at hright

/-- Words at offsets into two such spans. -/
theorem Separate.words {s : Word} (h : Separate a n (b + s) k) (hc : c.toNat + 4 ≤ n)
    (hd : (d - s).toNat + 4 ≤ k) : Separate (a + c) 4 (b + d) 4 :=
  (h.right_sub hd).left hc

end

/-! ### Arrays of words -/

/-- The address of word `i` of the array at `a`. -/
def element (a : Word) (i : Nat) : Word := a + BitVec.ofNat 32 (4 * i)

section

variable {m : Ram} {a b v : Word} {i j n k : Nat}

/-- Two words of one array. -/
theorem Separate.elements (a : Word) (hij : i < j) (hj : 4 * j + 4 ≤ 2 ^ 32) :
    Separate (element a i) 4 (element a j) 4 := by
  apply Separate.add_add
  have hi' : (BitVec.ofNat 32 (4 * i)).toNat = 4 * i := Nat.mod_eq_of_lt (by omega)
  have hj' : (BitVec.ofNat 32 (4 * j)).toNat = 4 * j := Nat.mod_eq_of_lt (by omega)
  exact .of_le (by omega) (by omega)

/-- Words of two arrays that do not meet. -/
theorem Separate.element (h : Separate a n b k) (hi : 4 * i + 4 ≤ n) (hj : 4 * j + 4 ≤ k) :
    Separate (element a i) 4 (element b j) 4 := by
  have hle : ∀ x, (BitVec.ofNat 32 x).toNat ≤ x := fun x => Nat.mod_le x (2 ^ 32)
  have hi' := hle (4 * i)
  have hj' := hle (4 * j)
  exact (h.left (by omega)).right (by omega)

/-- A word of an array, after a store to the array. -/
theorem load_store_element (hi : 4 * i + 4 ≤ 2 ^ 32) (hj : 4 * j + 4 ≤ 2 ^ 32) :
    load (store m (element a i) v) (element a j)
      = if i = j then v else load m (element a j) := by
  split
  next h => rw [h, load_store_self]
  next h =>
    apply load_store_of_separate
    rcases Nat.lt_or_gt_of_ne h with hlt | hlt
    · exact .elements a hlt hj
    · exact (Separate.elements a hlt hi).symm

end

end PotatoOS
