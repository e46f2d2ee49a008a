/-
PotatoOS/Alphabet.lean

Which names `testIfFATFormat` accepts, and what its comment says they are.

The comment of the function lists the bytes that a name must not hold: those
below 0x20, "except for the special case of 0x05 in DIR_Name[0]", and sixteen
others.  The code differs in two points.  Its characters are signed, so every
byte from 0x80 on is below 0x20; and it lets 0x05 pass everywhere.  Main
result: `acceptsDocumented_iff`, which says for which names the two points
make a difference.

The dots are counted correctly.  The flag for one dot is toggled, and the
flag for several is set when a dot finds the first one set; `DotFlags` is the
invariant of the loop.
-/
import PotatoOS.Name

namespace PotatoOS

/-- An ASCII letter in lower case. -/
def IsLowercase (b : UInt8) : Prop := 97 ≤ b.toNat ∧ b.toNat ≤ 122

/-- The bytes that the comment of `testIfFATFormat` lists. -/
def listedBytes : List UInt8 :=
  [0x22, 0x2A, 0x2B, 0x2C, 0x2E, 0x2F, 0x3A, 0x3B, 0x3C, 0x3D, 0x3E, 0x3F, 0x5B, 0x5C, 0x5D, 0x7C]

/-- The byte may stand at position `i` of a name. -/
def Documented (i : Nat) (b : UInt8) : Prop :=
  ¬ IsLowercase b ∧ b ∉ listedBytes ∧ (b.toNat < 0x20 → i = 0 ∧ b = 0x05)

/-- The byte may stand nowhere in a name. -/
def Refused (b : UInt8) : Prop :=
  IsLowercase b ∨ b ∈ listedBytes ∨ (b.toNat < 0x20 ∧ b ≠ 0x05)

/-- Number of dots in a name. -/
def dotCount (input : Mem) : Nat := ((List.range 11).map input).count 0x2E

/-- The test accepts exactly the names of documented bytes, and tells several
dots from one. -/
structure AcceptsDocumented (input : Mem) : Prop where
  accepts : testIfFATFormat input = 0 ↔ ∀ i < 11, Documented i (input i)
  dots : testIfFATFormat input &&& tooManyDots = tooManyDots ↔ 2 ≤ dotCount input

/-! ### Dots -/

/-- The flags of the code after `n` dots. -/
structure DotFlags (r n : Nat) : Prop where
  notConvertedYet : r.testBit 3 = decide (n % 2 = 1)
  tooManyDots : r.testBit 4 = decide (2 ≤ n)

section

variable {r n : Nat} {b : UInt8}

theorem and_two_pow_eq_iff (r k : Nat) : r &&& 2 ^ k = 2 ^ k ↔ r.testBit k = true := by
  constructor
  · intro h
    have hk : (r &&& 2 ^ k).testBit k = true := by rw [h, Nat.testBit_two_pow_self]
    rw [Nat.testBit_and] at hk
    exact (Bool.and_eq_true_iff.mp hk).1
  · intro h
    refine Nat.eq_of_testBit_eq fun i => ?_
    rw [Nat.testBit_and, Nat.testBit_two_pow]
    by_cases hi : k = i
    · rw [← hi, h, Bool.true_and]
    · rw [decide_eq_false hi, Bool.and_false]

theorem and_notConvertedYet_iff : r &&& notConvertedYet = notConvertedYet ↔ r.testBit 3 = true :=
  and_two_pow_eq_iff r 3

theorem and_tooManyDots_iff : r &&& tooManyDots = tooManyDots ↔ r.testBit 4 = true :=
  and_two_pow_eq_iff r 4

/-- The flags of bad characters and lower case are other bits. -/
theorem DotFlags.or {k : Nat} (h : DotFlags r n) (h₃ : k.testBit 3 = false)
    (h₄ : k.testBit 4 = false) : DotFlags (r ||| k) n where
  notConvertedYet := by rw [Nat.testBit_or, h₃, Bool.or_false, h.notConvertedYet]
  tooManyDots := by rw [Nat.testBit_or, h₄, Bool.or_false, h.tooManyDots]

theorem DotFlags.or_ite {k : Nat} {p : Prop} [Decidable p] (h : DotFlags r n)
    (h₃ : k.testBit 3 = false) (h₄ : k.testBit 4 = false) :
    DotFlags (if p then r ||| k else r) n := by
  split
  · exact h.or h₃ h₄
  · exact h

/-- A dot toggles the first flag and sets the second if it was set. -/
theorem DotFlags.dot (h : DotFlags r n) :
    DotFlags ((if r &&& PotatoOS.notConvertedYet = PotatoOS.notConvertedYet then
      r ||| PotatoOS.tooManyDots else r) ^^^ PotatoOS.notConvertedYet) (n + 1) := by
  have h₃ := h.notConvertedYet
  have h₄ := h.tooManyDots
  have e₃ : PotatoOS.notConvertedYet.testBit 3 = true := rfl
  have e₄ : PotatoOS.notConvertedYet.testBit 4 = false := rfl
  -- the first flag is the parity of the dots so far
  split
  next hset =>
    rw [and_notConvertedYet_iff] at hset
    have hodd : n % 2 = 1 := of_decide_eq_true (h₃.symm.trans hset)
    constructor
    · rw [Nat.testBit_xor, Nat.testBit_or, hset, e₃]
      simp
      omega
    · rw [Nat.testBit_xor, Nat.testBit_or, e₄, show PotatoOS.tooManyDots.testBit 4 = true from rfl]
      simp
      omega
  next hclear =>
    rw [and_notConvertedYet_iff, Bool.not_eq_true] at hclear
    have heven : ¬ n % 2 = 1 := of_decide_eq_false (h₃.symm.trans hclear)
    constructor
    · rw [Nat.testBit_xor, hclear, e₃]
      simp
      omega
    · rw [Nat.testBit_xor, e₄, h₄]
      simp
      omega

/-- One round of the test. -/
theorem DotFlags.testByte (h : DotFlags r n) (b : UInt8) :
    DotFlags (testByte r b) (n + if b = 0x2E then 1 else 0) := by
  rw [PotatoOS.testByte]
  refine DotFlags.or_ite ?_ rfl rfl
  have hctl : DotFlags (if signedChar b < 0x20 ∧ b ≠ 0x05 then r ||| badCharacter else r) n :=
    h.or_ite rfl rfl
  by_cases hb : b = 0x2E
  · simp only [if_pos hb]
    exact hctl.dot
  · simp only [if_neg hb]
    exact hctl.or_ite rfl rfl

/-- The flags tell how many dots the loop has seen. -/
theorem DotFlags.foldl (l : List UInt8) (h : DotFlags r n) :
    DotFlags (l.foldl PotatoOS.testByte r) (n + l.count 0x2E) := by
  induction l generalizing r n with
  | nil => exact h
  | cons b l ih =>
      have hl := ih (h.testByte b)
      have hn : n + (if b = 0x2E then 1 else 0) + l.count 0x2E = n + (b :: l).count 0x2E := by
        rw [List.count_cons]
        simp only [beq_iff_eq]
        omega
      rwa [hn] at hl

end

theorem dotFlags_testIfFATFormat (input : Mem) :
    DotFlags (testIfFATFormat input) (dotCount input) := by
  have h := DotFlags.foldl ((List.range 11).map input) ⟨rfl, rfl⟩ (r := 0) (n := 0)
  rwa [List.foldl_map, Nat.zero_add] at h

/-! ### Bytes -/

theorem mem_listedBytes {b : UInt8} : b ∈ listedBytes ↔ b = 0x2E ∨ b ∈ badCharacters := by
  have hperm : listedBytes.Perm (0x2E :: badCharacters) := by decide
  rw [hperm.mem_iff, List.mem_cons]

theorem documented_iff {i : Nat} {b : UInt8} :
    Documented i b ↔ ¬ Refused b ∧ ¬ (0 < i ∧ b = 0x05) := by
  have hlt : b = 0x05 → b.toNat < 0x20 := by
    rintro rfl
    decide
  rw [Documented, Refused, not_or, not_or, and_assoc, and_assoc]
  refine and_congr_right' (and_congr_right' ⟨fun h => ⟨?_, ?_⟩, fun h hctl => ?_⟩)
  · rintro ⟨hctl, hne⟩
    exact hne (h hctl).2
  · rintro ⟨hi, h₅⟩
    exact Nat.ne_of_gt hi (h (hlt h₅)).1
  · -- a control byte that is not refused is 0x05, and then it stands first
    have h₅ : b = 0x05 := by_contra fun hne => h.1 ⟨hctl, hne⟩
    exact ⟨Nat.eq_zero_of_not_pos fun hi => h.2 ⟨hi, h₅⟩, h₅⟩

theorem signedChar_of_lt {b : UInt8} (h : b.toNat < 0x80) : signedChar b = b.toNat :=
  if_pos (UInt8.lt_iff_toNat_lt.mpr h)

theorem signedChar_lt_zero {b : UInt8} (h : ¬ b.toNat < 0x80) : signedChar b < 0 := by
  have hb : ¬ b < 0x80 := fun hlt => h (UInt8.lt_iff_toNat_lt.mp hlt)
  have := b.toNat_lt
  rw [signedChar, if_neg hb]
  omega

/-- What the code accepts is not refused, and positive as a `char`. -/
theorem legalByte_iff {b : UInt8} : LegalByte b ↔ ¬ Refused b ∧ b.toNat < 0x80 := by
  rw [LegalByte, Refused, mem_listedBytes, IsLowercase]
  -- `char` is signed: from 0x80 on the comparisons see a negative number
  by_cases h : b.toNat < 0x80
  · rw [signedChar_of_lt h]
    have hlow : (97 ≤ (b.toNat : Int) ∧ (b.toNat : Int) ≤ 122) ↔ 97 ≤ b.toNat ∧ b.toNat ≤ 122 := by
      omega
    have hctl : 0x20 ≤ (b.toNat : Int) ↔ ¬ b.toNat < 0x20 := by omega
    have hctl' : ¬ b.toNat < 0x20 ∨ b = 0x05 ↔ ¬ (b.toNat < 0x20 ∧ b ≠ 0x05) := by
      rw [not_and_or, not_ne_iff]
    rw [hlow, hctl, hctl', and_iff_left h, not_or, not_or, not_or]
    constructor
    · rintro ⟨h₁, h₂, h₃, h₄⟩
      exact ⟨h₄, ⟨h₂, h₃⟩, h₁⟩
    · rintro ⟨h₄, ⟨h₂, h₃⟩, h₁⟩
      exact ⟨h₁, h₂, h₃, h₄⟩
  · have hneg := signedChar_lt_zero h
    have hne : b ≠ 0x05 := by
      rintro rfl
      exact h (by decide)
    refine iff_of_false (fun hl => ?_) fun hr => h hr.2
    rcases hl.1 with h₂₀ | h₅
    · omega
    · exact hne h₅

/-! ### Names -/

/-- Exactly when the test does what its comment says: a byte that may stand
nowhere decides the case, or there is neither a 0x05 behind the first position
nor a byte from 0x80 on, or there is both. -/
theorem acceptsDocumented_iff (input : Mem) :
    AcceptsDocumented input ↔
      (∃ i < 11, Refused (input i)) ∨
        ((∃ i < 11, 0 < i ∧ input i = 0x05) ↔ ∃ i < 11, 0x80 ≤ (input i).toNat) := by
  have hdots : testIfFATFormat input &&& tooManyDots = tooManyDots ↔ 2 ≤ dotCount input := by
    rw [and_tooManyDots_iff, (dotFlags_testIfFATFormat input).tooManyDots, decide_eq_true_iff]
  have haccepts : AcceptsDocumented input ↔
      (testIfFATFormat input = 0 ↔ ∀ i < 11, Documented i (input i)) :=
    ⟨fun h => h.accepts, fun h => ⟨h, hdots⟩⟩
  rw [haccepts, testIfFATFormat_eq_zero_iff]
  simp only [legalByte_iff, documented_iff, ← Nat.not_lt]
  by_cases href : ∃ i < 11, Refused (input i)
  · obtain ⟨i, hi, hr⟩ := href
    exact iff_of_true (iff_of_false (fun h => (h i hi).1 hr) fun h => (h i hi).1 hr)
      (.inl ⟨i, hi, hr⟩)
  · -- no byte is refused: what is left are the two points
    have hok : ∀ i < 11, ¬ Refused (input i) := fun i hi hr => href ⟨i, hi, hr⟩
    have hcode : (∀ i < 11, ¬ Refused (input i) ∧ (input i).toNat < 0x80) ↔
        ¬ ∃ i < 11, ¬ (input i).toNat < 0x80 := by
      push Not
      exact forall₂_congr fun i hi => and_iff_right (hok i hi)
    have hdoc : (∀ i < 11, ¬ Refused (input i) ∧ ¬ (0 < i ∧ input i = 0x05)) ↔
        ¬ ∃ i < 11, 0 < i ∧ input i = 0x05 := by
      rw [not_exists]
      exact forall_congr' fun i =>
        (imp_congr_right fun hi => and_iff_right (hok i hi)).trans not_and.symm
    rw [hcode, hdoc, not_iff_not, or_iff_right href]
    exact Iff.comm

/-- Letters with a 0x05 or a 0xC9 among them, in second place. -/
def markedName (b : UInt8) : Mem := fun i => if i = 1 then b else 0x41

/-- The first is accepted and must not be, the second is refused and may be
used. -/
theorem not_acceptsDocumented_marked :
    ¬ AcceptsDocumented (markedName 0x05) ∧ ¬ AcceptsDocumented (markedName 0xC9) := by
  constructor
  · intro h
    have hdoc := h.accepts.mp (by decide) 1 (by decide)
    exact absurd (hdoc.2.2 (by decide)).1 (by decide)
  · intro h
    have hdoc : ∀ i < 11, Documented i (markedName 0xC9 i) := by
      intro i _
      rw [markedName]
      split
      · exact ⟨by rw [IsLowercase]; decide, by decide, fun hlt => absurd hlt (by decide)⟩
      · exact ⟨by rw [IsLowercase]; decide, by decide, fun hlt => absurd hlt (by decide)⟩
    exact absurd (h.accepts.mpr hdoc) (by decide)

end PotatoOS
