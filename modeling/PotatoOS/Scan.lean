/-
PotatoOS/Scan.lean

Searching a list that a mark may end early.

`scan stop hit l` looks for the first element that satisfies `hit`, and
gives up at the first element that satisfies `stop`.  The third outcome,
`pass`, means that the list ran out: a search that continues elsewhere goes
on from there, which is what `scan_append` says.

An element that is neither is neutral: a search passes over it, and
exchanging one for another changes nothing (`scan_set`).
-/
import Mathlib.Tactic

namespace PotatoOS

/-- How a search of a list ends. -/
inductive Scan where
  | hit (i : Nat)
  | stop
  | pass
  deriving DecidableEq, Repr

namespace Scan

/-- The same outcome, counted from `n` places earlier. -/
def shift (n : Nat) : Scan → Scan
  | hit i => hit (n + i)
  | stop => stop
  | pass => pass

/-- The outcome of searching two lists in a row, the first of length `n`. -/
def andThen (n : Nat) : Scan → Scan → Scan
  | hit i, _ => hit i
  | stop, _ => stop
  | pass, r => r.shift n

@[simp] theorem shift_zero (r : Scan) : r.shift 0 = r := by
  cases r <;> simp [shift]

theorem shift_shift (m n : Nat) (r : Scan) : (r.shift n).shift m = r.shift (m + n) := by
  cases r <;> simp [shift, Nat.add_assoc]

theorem shift_andThen (m n : Nat) (r r' : Scan) :
    (r.andThen n r').shift m = (r.shift m).andThen (m + n) r' := by
  cases r with
  | hit i => rfl
  | stop => rfl
  | pass => exact shift_shift m n r'

theorem shift_eq_hit_iff {n i : Nat} {r : Scan} :
    r.shift n = hit i ↔ ∃ j, r = hit j ∧ i = n + j := by
  cases r <;> simp [shift, eq_comm]

end Scan

variable {α : Type*} (stop hit : α → Prop) [DecidablePred stop] [DecidablePred hit]

/-- Look for the first `hit`, up to the first `stop`. -/
def scan : List α → Scan
  | [] => .pass
  | a :: l => if stop a then .stop else if hit a then .hit 0 else (scan l).shift 1

/-- Neither what is looked for nor the end of the search. -/
def Neutral (a : α) : Prop := ¬ stop a ∧ ¬ hit a

variable {stop hit} {a a' : α} {l l₁ l₂ : List α} {i : Nat}

theorem scan_cons_neutral (h : Neutral stop hit a) :
    scan stop hit (a :: l) = (scan stop hit l).shift 1 := by
  rw [scan, if_neg h.1, if_neg h.2]

theorem scan_append :
    scan stop hit (l₁ ++ l₂)
      = (scan stop hit l₁).andThen l₁.length (scan stop hit l₂) := by
  induction l₁ with
  | nil => simp [scan, Scan.andThen]
  | cons a l₁ ih =>
      rw [List.cons_append, scan, scan]
      split
      · rfl
      · split
        · rfl
        · rw [ih, Scan.shift_andThen, List.length_cons, Nat.add_comm]

theorem scan_eq_pass_iff : scan stop hit l = .pass ↔ ∀ a ∈ l, Neutral stop hit a := by
  induction l with
  | nil => simp [scan]
  | cons a l ih =>
      rw [List.forall_mem_cons, ← ih, scan, Neutral]
      split
      · simp [*]
      · split
        · simp [*]
        · rcases scan stop hit l with i | - | - <;> simp [*, Scan.shift]

theorem scan_ne_stop (h : ∀ a ∈ l, ¬ stop a) : scan stop hit l ≠ .stop := by
  induction l with
  | nil => simp [scan]
  | cons a l ih =>
      rw [scan, if_neg (h a List.mem_cons_self)]
      split
      · simp
      · have := ih fun b hb => h b (List.mem_cons_of_mem _ hb)
        rcases hr : scan stop hit l with i | - | -
        · simp [Scan.shift]
        · exact absurd hr this
        · simp [Scan.shift]

/-- What is hit satisfies the test. -/
theorem scan_hit_get (h : scan stop hit l = .hit i) : ∃ hi : i < l.length, hit l[i] := by
  induction l generalizing i with
  | nil => cases h
  | cons a l ih =>
      rw [scan] at h
      split at h
      · cases h
      · split at h
        · obtain rfl := Scan.hit.inj h
          exact ⟨Nat.zero_lt_succ _, by assumption⟩
        · obtain ⟨j, hj, rfl⟩ := Scan.shift_eq_hit_iff.mp h
          obtain ⟨hlt, hhit⟩ := ih hj
          refine ⟨by rw [List.length_cons]; omega, ?_⟩
          simpa [Nat.add_comm 1] using hhit

/-- Everything before the hit was passed over. -/
theorem scan_hit_split (h : scan stop hit l = .hit i) :
    ∃ u b w, l = u ++ b :: w ∧ u.length = i ∧ ¬ stop b ∧ hit b ∧ ∀ c ∈ u, Neutral stop hit c := by
  induction l generalizing i with
  | nil => cases h
  | cons a l ih =>
      rw [scan] at h
      split at h
      · cases h
      next hstop =>
        split at h
        next hhit =>
          obtain rfl := Scan.hit.inj h
          exact ⟨[], a, l, rfl, rfl, hstop, hhit, by simp⟩
        next hhit =>
          obtain ⟨j, hj, rfl⟩ := Scan.shift_eq_hit_iff.mp h
          obtain ⟨u, b, w, rfl, rfl, hb, hhb, hu⟩ := ih hj
          refine ⟨a :: u, b, w, rfl, by rw [List.length_cons, Nat.add_comm], hb, hhb, ?_⟩
          intro c hc
          rcases List.mem_cons.mp hc with rfl | hc
          · exact ⟨hstop, hhit⟩
          · exact hu c hc

theorem scan_eq_hit_iff :
    scan stop hit l = .hit i ↔
      ∃ u b w, l = u ++ b :: w ∧ u.length = i ∧ ¬ stop b ∧ hit b ∧ ∀ c ∈ u, Neutral stop hit c := by
  refine ⟨scan_hit_split, ?_⟩
  rintro ⟨u, b, w, rfl, rfl, hstop, hhit, hu⟩
  rw [scan_append, scan_eq_pass_iff.mpr hu, scan, if_neg hstop, if_pos hhit]
  rfl

/-- Exchanging one neutral element for another changes no search. -/
theorem scan_set (h : Neutral stop hit a) (h' : Neutral stop hit a') :
    scan stop hit (l₁ ++ a' :: l₂) = scan stop hit (l₁ ++ a :: l₂) := by
  rw [scan_append, scan_append, scan_cons_neutral h, scan_cons_neutral h']

end PotatoOS
