/-
PotatoOS/Runs.lean

The runs of a list between delimiters.

`runs p l` are the maximal non-empty stretches of `l` without an element that
satisfies `p`: the pieces between such elements, without the empty ones.  A
program that takes one run after the other from the front of a list sees it in
one of three forms, `RunView`: only delimiters, a run at the very end, or a run
with a delimiter behind it.  In each form one lemma says what the runs are.

`trim p l` is the list without the delimiters at its two ends.  It is its first
run exactly when there is no other (`trim_append_run_cons_iff`).
-/
import Mathlib.Data.List.DropRight
import Mathlib.Data.List.TakeWhile
import Mathlib.Tactic

namespace PotatoOS

variable {α : Type*}

/-- The maximal non-empty stretches without a delimiter. -/
def runs (p : α → Bool) (l : List α) : List (List α) := (l.splitOnP p).filter (! ·.isEmpty)

section

variable {p : α → Bool} {l d w r : List α} {a : α}

@[simp] theorem runs_nil : runs p [] = [] := rfl

theorem runs_cons_of_pos (h : p a = true) : runs p (a :: l) = runs p l := by
  rw [runs, List.splitOnP_cons_eq_if_modifyHead, if_pos h, List.filter_cons_of_neg (by simp),
    ← runs]

/-- Delimiters in front are passed over. -/
theorem runs_append_of_forall (h : ∀ a ∈ d, p a = true) : runs p (d ++ l) = runs p l := by
  induction d with
  | nil => rfl
  | cons a d ih =>
      rw [List.forall_mem_cons] at h
      rw [List.cons_append, runs_cons_of_pos h.1, ih h.2]

theorem runs_of_forall (h : ∀ a ∈ l, p a = true) : runs p l = [] := by
  have hruns := runs_append_of_forall (l := []) h
  rwa [List.append_nil, runs_nil] at hruns

/-- A run at the end. -/
theorem runs_append_run (hd : ∀ a ∈ d, p a = true) (hne : w ≠ []) (hw : ∀ a ∈ w, p a = false) :
    runs p (d ++ w) = [w] := by
  rw [runs_append_of_forall hd, runs, List.splitOnP_eq_singleton hw,
    List.filter_cons_of_pos (by simpa using hne)]
  rfl

/-- A run with a delimiter behind it. -/
theorem runs_append_run_cons (hd : ∀ a ∈ d, p a = true) (hne : w ≠ [])
    (hw : ∀ a ∈ w, p a = false) (ha : p a = true) :
    runs p (d ++ w ++ a :: r) = w :: runs p r := by
  rw [List.append_assoc, runs_append_of_forall hd, runs,
    List.splitOnP_append_cons_of_forall_mem hw _ ha,
    List.filter_cons_of_pos (by simpa using hne), ← runs]

/-- What stands at the front of a list. -/
inductive RunView (p : α → Bool) : List α → Prop
  | blank {l : List α} (h : ∀ a ∈ l, p a = true) : RunView p l
  | last {d w : List α} (hd : ∀ a ∈ d, p a = true) (hne : w ≠ []) (hw : ∀ a ∈ w, p a = false) :
      RunView p (d ++ w)
  | more {d w r : List α} {a : α} (hd : ∀ a ∈ d, p a = true) (hne : w ≠ [])
      (hw : ∀ a ∈ w, p a = false) (ha : p a = true) : RunView p (d ++ w ++ a :: r)

theorem runView (p : α → Bool) (l : List α) : RunView p l := by
  have hd : ∀ a ∈ l.takeWhile p, p a = true := fun a ha => List.mem_takeWhile_imp ha
  have hsplit : l = l.takeWhile p ++ l.dropWhile p := List.takeWhile_append_dropWhile.symm
  rcases hl : l.dropWhile p with - | ⟨a, r⟩
  · refine .blank fun a ha => hd a ?_
    rwa [hsplit, hl, List.append_nil] at ha
  · -- the run starts with the first element that is no delimiter
    have ha : p a = false := by
      have hhead := List.head_dropWhile_not p (l := l) (by rw [hl]; exact List.cons_ne_nil _ _)
      simpa only [hl, List.head_cons] using hhead
    have hw : ∀ b ∈ a :: r.takeWhile (! p ·), p b = false := by
      refine List.forall_mem_cons.mpr ⟨ha, fun b hb => ?_⟩
      simpa using List.mem_takeWhile_imp hb
    have hrest : r = r.takeWhile (! p ·) ++ r.dropWhile (! p ·) :=
      List.takeWhile_append_dropWhile.symm
    rcases hr : r.dropWhile (! p ·) with - | ⟨c, r'⟩
    · rw [hr, List.append_nil] at hrest
      rw [hsplit, hl, hrest]
      exact .last hd (List.cons_ne_nil _ _) hw
    · have hc : p c = true := by
        have hhead := List.head_dropWhile_not (! p ·) (l := r)
          (by rw [hr]; exact List.cons_ne_nil _ _)
        simpa only [hr, List.head_cons, Bool.not_eq_false'] using hhead
      have hl' : l = l.takeWhile p ++ (a :: r.takeWhile (! p ·)) ++ c :: r' := by
        rw [List.append_assoc, List.cons_append, ← hr, ← hrest, ← hl]
        exact hsplit
      rw [hl']
      exact .more hd (List.cons_ne_nil _ _) hw hc

theorem runs_eq_nil_iff : runs p l = [] ↔ ∀ a ∈ l, p a = true := by
  refine ⟨fun h => ?_, runs_of_forall⟩
  cases runView p l with
  | blank hl => exact hl
  | last hd hne hw =>
      rw [runs_append_run hd hne hw] at h
      exact absurd h (List.cons_ne_nil _ _)
  | more hd hne hw ha =>
      rw [runs_append_run_cons hd hne hw ha] at h
      exact absurd h (List.cons_ne_nil _ _)

/-! ### Without the ends -/

/-- The list without the delimiters at its ends. -/
def trim (p : α → Bool) (l : List α) : List α := (l.dropWhile p).rdropWhile p

theorem rdropWhile_append_of_forall (h : ∀ a ∈ r, p a = true) :
    (w ++ r).rdropWhile p = w.rdropWhile p := by
  rw [List.rdropWhile, List.reverse_append,
    List.dropWhile_append_of_pos fun a ha => h a (List.mem_reverse.mp ha), ← List.rdropWhile]

theorem rdropWhile_append_of_not (h : ¬∀ a ∈ r, p a = true) :
    (w ++ r).rdropWhile p = w ++ r.rdropWhile p := by
  have hne : r.rdropWhile p ≠ [] := fun hnil => h (List.rdropWhile_eq_nil_iff.mp hnil)
  have hne' : ¬(r.reverse.dropWhile p).isEmpty = true := by
    rw [List.isEmpty_iff]
    intro hnil
    rw [List.rdropWhile, hnil] at hne
    exact hne rfl
  rw [List.rdropWhile, List.reverse_append, List.dropWhile_append, if_neg hne',
    List.reverse_append, List.reverse_reverse, ← List.rdropWhile]

section

variable (hd : ∀ a ∈ d, p a = true) (hne : w ≠ []) (hw : ∀ a ∈ w, p a = false)

include hd hne hw

/-- In front of a run the delimiters go. -/
theorem trim_append : trim p (d ++ w ++ r) = (w ++ r).rdropWhile p := by
  obtain ⟨a, w, rfl⟩ := List.exists_cons_of_ne_nil hne
  have ha : ¬p a = true := by simp [hw a List.mem_cons_self]
  rw [trim, List.append_assoc, List.dropWhile_append_of_pos hd, List.cons_append,
    List.dropWhile_cons_of_neg ha]

omit hd in
theorem rdropWhile_run : w.rdropWhile p = w :=
  List.rdropWhile_eq_self_iff.mpr fun _ => by simp [hw _ (List.getLast_mem hne)]

theorem trim_append_run : trim p (d ++ w) = w := by
  have h := trim_append (r := []) hd hne hw
  rwa [List.append_nil, List.append_nil, rdropWhile_run hne hw] at h

theorem trim_append_run_cons_iff (ha : p a = true) :
    trim p (d ++ w ++ a :: r) = w ↔ ∀ b ∈ r, p b = true := by
  rw [trim_append hd hne hw]
  constructor
  · intro h
    by_contra hr
    have hcons : ¬∀ b ∈ a :: r, p b = true := fun hall => hr fun b hb => hall b (.tail _ hb)
    rw [rdropWhile_append_of_not hcons] at h
    exact hcons (List.rdropWhile_eq_nil_iff.mp (List.append_right_eq_self.mp h))
  · intro hr
    rw [rdropWhile_append_of_forall (List.forall_mem_cons.mpr ⟨ha, hr⟩), rdropWhile_run hne hw]

end

end

end PotatoOS
