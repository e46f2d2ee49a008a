/-
PotatoOS/Compare.lean

The two `strncmp`s of the system: the kernel's own in tty.c and the one of
libc/string/strncmp.c.

The kernel's asks for the end of either string first and returns the
difference of the two bytes; the one of the library asks for a difference
first and returns -1 or 1.  What both do with the bytes in front of them is
`Comparison`, and any function that does so compares the strings cut after
`n` bytes in lexicographic order (`Comparison.comparesLex`): one induction
for both, and their signs agree because the order has one.
-/
import PotatoOS.Codec
import PotatoOS.Path

namespace PotatoOS

/-! ### The sign of a lexicographic comparison -/

section

variable {α : Type*} [LT α] {x y : Int} {a : α} {l r : List α}

/-- The sign of `x` is that of the lexicographic comparison of `l` and `r`. -/
structure ComparesLex (x : Int) (l r : List α) : Prop where
  neg : x < 0 ↔ l < r
  zero : x = 0 ↔ l = r
  pos : 0 < x ↔ r < l

theorem ComparesLex.sign_eq (h : ComparesLex x l r) (h' : ComparesLex y l r) :
    x.sign = y.sign := by
  rcases Int.lt_trichotomy x 0 with hx | hx | hx
  · rw [Int.sign_eq_neg_one_of_neg hx, Int.sign_eq_neg_one_of_neg (h'.neg.mpr (h.neg.mp hx))]
  · rw [hx, h'.zero.mpr (h.zero.mp hx)]
  · rw [Int.sign_eq_one_of_pos hx, Int.sign_eq_one_of_pos (h'.pos.mpr (h.pos.mp hx))]

variable [Std.Asymm fun a b : α => a < b]

theorem ComparesLex.of_eq (hx : x = 0) : ComparesLex x l l where
  neg := iff_of_false (by omega) (List.lt_irrefl l)
  zero := iff_of_true hx rfl
  pos := iff_of_false (by omega) (List.lt_irrefl l)

theorem ComparesLex.of_lt (hx : x < 0) (h : l < r) : ComparesLex x l r where
  neg := iff_of_true hx h
  zero := iff_of_false (by omega) fun he => List.lt_irrefl r (he ▸ h)
  pos := iff_of_false (by omega) (List.lt_asymm h)

theorem ComparesLex.of_gt (hx : 0 < x) (h : r < l) : ComparesLex x l r where
  neg := iff_of_false (by omega) (List.lt_asymm h)
  zero := iff_of_false (by omega) fun he => List.lt_irrefl l (he ▸ h)
  pos := iff_of_true hx h

/-- Equal heads leave it to the tails. -/
theorem ComparesLex.cons (h : ComparesLex x l r) : ComparesLex x (a :: l) (a :: r) where
  neg := by rw [List.cons_lt_cons_self, h.neg]
  zero := by rw [List.cons_inj_right, h.zero]
  pos := by rw [List.cons_lt_cons_self, h.pos]

end

/-! ### The two functions -/

/-- `strncmp` of libc/string/strncmp.c. -/
def Libc.strncmp (s₁ s₂ : Mem) : Nat → Int
  | 0 => 0
  | n + 1 =>
      if s₁ 0 ≠ s₂ 0 then if s₁ 0 < s₂ 0 then -1 else 1
      else if s₁ 0 = 0 then 0
      else Libc.strncmp (fun i => s₁ (i + 1)) (fun i => s₂ (i + 1)) n

/-- What one round of a comparison does: the first difference decides, a
common end is equality, and a common byte goes on behind it. -/
structure Comparison (f : Mem → Mem → Nat → Int) : Prop where
  none : ∀ s₁ s₂, f s₁ s₂ 0 = 0
  less : ∀ s₁ s₂ n, s₁ 0 < s₂ 0 → f s₁ s₂ (n + 1) < 0
  greater : ∀ s₁ s₂ n, s₂ 0 < s₁ 0 → 0 < f s₁ s₂ (n + 1)
  ends : ∀ s₁ s₂ n, s₁ 0 = 0 → s₂ 0 = 0 → f s₁ s₂ (n + 1) = 0
  next : ∀ s₁ s₂ n, s₁ 0 = s₂ 0 → s₁ 0 ≠ 0 →
    f s₁ s₂ (n + 1) = f (fun i => s₁ (i + 1)) (fun i => s₂ (i + 1)) n

/-- The order of the tests does not matter: an end in front of a difference
is a difference from zero. -/
theorem strncmp_of_ne {s₁ s₂ : Mem} (n : Nat) (h : s₁ 0 ≠ s₂ 0) :
    strncmp s₁ s₂ (n + 1) = (s₁ 0).toNat - (s₂ 0).toNat := by
  rw [strncmp]
  exact ite_eq_left_iff.mpr fun _ => if_pos h

theorem comparison_strncmp : Comparison strncmp where
  none _ _ := rfl
  less s₁ s₂ n h := by
    rw [strncmp_of_ne n (UInt8.ne_of_lt h)]
    have := UInt8.lt_iff_toNat_lt.mp h
    omega
  greater s₁ s₂ n h := by
    rw [strncmp_of_ne n (UInt8.ne_of_lt h).symm]
    have := UInt8.lt_iff_toNat_lt.mp h
    omega
  ends s₁ s₂ n h₁ h₂ := by
    rw [strncmp, if_pos (.inl h₁), h₁, h₂, Int.sub_self]
  next s₁ s₂ n h h₁ := by
    rw [strncmp, if_neg (not_or.mpr ⟨h₁, h ▸ h₁⟩), if_neg (not_not.mpr h)]

theorem comparison_libc : Comparison Libc.strncmp where
  none _ _ := rfl
  less s₁ s₂ n h := by
    rw [Libc.strncmp, if_pos (UInt8.ne_of_lt h), if_pos h]
    decide
  greater s₁ s₂ n h := by
    rw [Libc.strncmp, if_pos (UInt8.ne_of_lt h).symm, if_neg (UInt8.lt_asymm h)]
    decide
  ends s₁ s₂ n h₁ h₂ := by
    rw [Libc.strncmp, if_neg (not_not.mpr (h₁.trans h₂.symm)), if_pos h₁]
  next s₁ s₂ n h h₁ := by
    rw [Libc.strncmp, if_neg (not_not.mpr h), if_neg h₁]

/-! ### Both compare in lexicographic order -/

/-- A comparison of two memories that hold strings is the lexicographic one
of the strings, cut after `n` bytes. -/
theorem Comparison.comparesLex {f : Mem → Mem → Nat → Int} (hf : Comparison f)
    {s₁ s₂ : List UInt8} (h₁ : 0 ∉ s₁) (h₂ : 0 ∉ s₂) {m₁ m₂ : Mem} (hm₁ : HoldsString m₁ s₁)
    (hm₂ : HoldsString m₂ s₂) (n : Nat) :
    ComparesLex (f m₁ m₂ n) (s₁.take n) (s₂.take n) := by
  -- each round takes one byte off both strings, so the memories move along
  induction n generalizing s₁ s₂ m₁ m₂ with
  | zero => exact .of_eq (hf.none m₁ m₂)
  | succ n ih =>
      rcases s₁ with _ | ⟨a, s₁⟩ <;> rcases s₂ with _ | ⟨b, s₂⟩
      · exact .of_eq (hf.ends m₁ m₂ n (holdsString_nil.mp hm₁) (holdsString_nil.mp hm₂))
      · -- the first string is a proper prefix: its end is below any byte
        have hlt : m₁ 0 < m₂ 0 := by
          rw [holdsString_nil.mp hm₁]
          exact UInt8.pos_iff_ne_zero.mpr (hm₂.ne_zero h₂)
        exact .of_lt (hf.less m₁ m₂ n hlt) (List.nil_lt_cons _ _)
      · have hlt : m₂ 0 < m₁ 0 := by
          rw [holdsString_nil.mp hm₂]
          exact UInt8.pos_iff_ne_zero.mpr (hm₁.ne_zero h₁)
        exact .of_gt (hf.greater m₁ m₂ n hlt) (List.nil_lt_cons _ _)
      · have h₀ := hm₁.ne_zero h₁
        obtain ⟨rfl, ht₁⟩ := holdsString_cons.mp hm₁
        obtain ⟨rfl, ht₂⟩ := holdsString_cons.mp hm₂
        rw [List.take_succ_cons, List.take_succ_cons]
        by_cases hab : m₁ 0 = m₂ 0
        · rw [hf.next m₁ m₂ n hab h₀, hab]
          exact (ih (fun h => h₁ (.tail _ h)) (fun h => h₂ (.tail _ h)) ht₁ ht₂).cons
        · rcases UInt8.lt_or_lt_of_ne hab with hlt | hlt
          · exact .of_lt (hf.less m₁ m₂ n hlt) (List.cons_lt_cons_iff.mpr (.inl hlt))
          · exact .of_gt (hf.greater m₁ m₂ n hlt) (List.cons_lt_cons_iff.mpr (.inl hlt))

/-- The two functions agree in sign, and the sign is that of the
lexicographic comparison of the first `n` bytes of the two strings. -/
theorem strncmp_agree (s₁ s₂ : CString) {m₁ m₂ : Mem} (h₁ : HoldsString m₁ s₁.1)
    (h₂ : HoldsString m₂ s₂.1) (n : Nat) :
    (strncmp m₁ m₂ n).sign = (Libc.strncmp m₁ m₂ n).sign ∧
      ComparesLex (strncmp m₁ m₂ n) (s₁.1.take n) (s₂.1.take n) ∧
      ComparesLex (Libc.strncmp m₁ m₂ n) (s₁.1.take n) (s₂.1.take n) := by
  have hk := comparison_strncmp.comparesLex s₁.2 s₂.2 h₁ h₂ n
  have hl := comparison_libc.comparesLex s₁.2 s₂.2 h₁ h₂ n
  exact ⟨hk.sign_eq hl, hk, hl⟩

/-- "A" against "A" and a high byte: equal in one byte, less in two. -/
theorem strncmp_agree_highByte :
    HoldsString (buffer [0x41]) [0x41] ∧ HoldsString (buffer [0x41, 0xFF]) [0x41, 0xFF] ∧
      strncmp (buffer [0x41]) (buffer [0x41, 0xFF]) 1 = 0 ∧
      strncmp (buffer [0x41]) (buffer [0x41, 0xFF]) 2 = -255 ∧
      Libc.strncmp (buffer [0x41]) (buffer [0x41, 0xFF]) 2 = -1 ∧
      (strncmp (buffer [0x41]) (buffer [0x41, 0xFF]) 2).sign =
        (Libc.strncmp (buffer [0x41]) (buffer [0x41, 0xFF]) 2).sign :=
  ⟨holdsString_buffer _, holdsString_buffer _, by decide, by decide, by decide,
    (strncmp_agree ⟨[0x41], by decide⟩ ⟨[0x41, 0xFF], by decide⟩ (holdsString_buffer _)
      (holdsString_buffer _) 2).1⟩

end PotatoOS
