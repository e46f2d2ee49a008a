/-
PotatoOS/EndAround.lean

Addition with an end-around carry.

In one's complement arithmetic with words below `b` the carry of a sum is added
to its lowest digit.  One round takes a number `n` to `n % b + n / b`; it does
not change the number modulo `b - 1`, it makes a number that is no word smaller,
and it keeps a number that is not zero so.  `Folded b n w` is what repeated
rounds come to: a word that is congruent to the number, and zero for zero only.

The two representations of zero, 0 and `b - 1`, are told apart by that.  So the
complement of the word of a sum, added to the sum, gives the word `b - 1`
(`Folded.complement`), and the complement of that is 0.
-/
import Mathlib.Data.Nat.ModEq
import Mathlib.Tactic

namespace PotatoOS

/-- One round: the carry goes to the lowest digit. -/
def endAround (b n : Nat) : Nat := n % b + n / b

section

variable {b n n' w : Nat}

theorem endAround_add_mul (b n : Nat) (hb : 0 < b) : endAround b n + (b - 1) * (n / b) = n := by
  have hdiv := Nat.mod_add_div n b
  obtain ⟨k, rfl⟩ := Nat.exists_eq_add_of_le' hb
  rw [endAround, Nat.add_sub_cancel]
  rw [Nat.add_mul, Nat.one_mul] at hdiv
  omega

theorem endAround_modEq (b n : Nat) (hb : 0 < b) : endAround b n ≡ n [MOD b - 1] := by
  have hsum := endAround_add_mul b n hb
  nth_rewrite 2 [← hsum]
  exact (Nat.add_modulus_mul_modEq_iff.mpr rfl).symm

/-- A number that is no word gets smaller. -/
theorem endAround_lt (hb : 1 < b) (hn : b ≤ n) : endAround b n < n := by
  have hsum := endAround_add_mul b n (by omega)
  have hdiv : 0 < n / b := Nat.div_pos hn (by omega)
  have hmul : 0 < (b - 1) * (n / b) := Nat.mul_pos (by omega) hdiv
  omega

theorem endAround_pos_iff (hb : 0 < b) : 0 < endAround b n ↔ 0 < n := by
  have hsum := endAround_add_mul b n hb
  constructor
  · intro h
    omega
  · intro h
    rw [endAround]
    rcases Nat.lt_or_ge n b with hlt | hge
    · rw [Nat.mod_eq_of_lt hlt]
      exact Nat.add_pos_left h _
    · have hdiv : 0 < n / b := Nat.div_pos hge hb
      omega

/-- `w` is the word of the number `n`. -/
structure Folded (b n w : Nat) : Prop where
  lt : w < b
  modEq : w ≡ n [MOD b - 1]
  pos_iff : 0 < w ↔ 0 < n

theorem Folded.of_lt (h : n < b) : Folded b n n := ⟨h, rfl, Iff.rfl⟩

/-- Rounds do not change the word. -/
theorem Folded.of_endAround (hb : 0 < b) (h : Folded b (endAround b n) w) : Folded b n w where
  lt := h.lt
  modEq := h.modEq.trans (endAround_modEq b n hb)
  pos_iff := h.pos_iff.trans (endAround_pos_iff hb)

/-- A sum and the complement of its word. -/
theorem Folded.complement {w' : Nat} (hb : 1 < b) (h : Folded b n w)
    (h' : Folded b (n + (b - 1 - w)) w') : w' = b - 1 := by
  have hlt := h.lt
  have hlt' := h'.lt
  -- the sum is a multiple of `b - 1`
  have hsum : n + (b - 1 - w) ≡ 0 [MOD b - 1] := by
    have hadd : w + (b - 1 - w) ≡ n + (b - 1 - w) [MOD b - 1] := h.modEq.add_right _
    rw [Nat.add_sub_cancel' (by omega)] at hadd
    exact hadd.symm.trans ((Nat.modEq_zero_iff_dvd).mpr dvd_rfl)
  -- and it is not zero: the complement of the word 0 is all ones
  have hpos : 0 < n + (b - 1 - w) := by
    rcases Nat.eq_zero_or_pos n with rfl | hn
    · have hw : ¬0 < w := fun hw => Nat.lt_irrefl 0 (h.pos_iff.mp hw)
      omega
    · exact Nat.add_pos_left hn _
  have hdvd : b - 1 ∣ w' := (Nat.modEq_zero_iff_dvd).mp (h'.modEq.trans hsum)
  have hle := Nat.le_of_dvd (h'.pos_iff.mpr hpos) hdvd
  omega

/-- The word of all ones stands for the numbers that are zero modulo `b - 1`,
except for zero. -/
theorem Folded.eq_pred_iff (hb : 1 < b) (h : Folded b n w) :
    w = b - 1 ↔ n ≡ 0 [MOD b - 1] ∧ 0 < n := by
  constructor
  · rintro rfl
    exact ⟨h.modEq.symm.trans ((Nat.modEq_zero_iff_dvd).mpr dvd_rfl), h.pos_iff.mp (by omega)⟩
  · rintro ⟨hmod, hpos⟩
    have hdvd : b - 1 ∣ w := (Nat.modEq_zero_iff_dvd).mp (h.modEq.trans hmod)
    have hle := Nat.le_of_dvd (h.pos_iff.mpr hpos) hdvd
    have hlt := h.lt
    omega

end

end PotatoOS
