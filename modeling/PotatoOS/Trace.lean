/-
PotatoOS/Trace.lean

What happens in the course of a run: reads of the table that fail, and writes.

The state of the driver does not tell in which order sectors were read and
written, and a write of what was there before leaves no trace in it at all.
So the state is kept together with a list of events, and the allocator and
`directoryAdd` run on it with these events on record.  What they do to the
machine is what they do without the record (`allocateFreeFAT_over`,
`directoryAdd_over`).  On a drive that takes every write the record of writes
is complete (`directoryAdd_recorded`).
-/
import PotatoOS.Failing

namespace PotatoOS

open Prog

/-- What is put on record. -/
inductive Incident where
  /-- A `FATRead` of the allocator returned -1. -/
  | scanFault
  /-- A `FATRead` behind the last entry of a directory cluster returned -1. -/
  | linkFault
  /-- A call that writes returned 0. -/
  | write
  deriving DecidableEq, Repr

/-- The state, and what has happened so far; the last event comes last. -/
structure Traced extends State where
  events : List Incident

namespace Traced

variable {α : Type}

/-- One more event. -/
def record (e : Incident) (t : Traced) : Traced := { t with events := t.events ++ [e] }

/-- A program of the driver. -/
def lift (m : Prog State α) : Prog Traced α := zoom toState (fun t s => { t with toState := s }) m

theorem lift_run {m : Prog State α} {t : Traced} {o : Outcome α} {s' : State}
    (h : m t.toState = (o, s')) : lift m t = (o, { t with toState := s' }) := zoom_run h

/-- A call of `FATRead`. -/
def read (fault : Incident) (m : Prog State Int) : Prog Traced Int :=
  note (· = -1) (record fault) (lift m)

/-- A call of `FATWrite` or `clusterWrite`. -/
def write (m : Prog State Int) : Prog Traced Int := note (· = 0) (record .write) (lift m)

instance : Driver Traced where
  scan := read .scanFault
  follow := read .linkFault
  write := write
  run := lift

/-! ### Without the events -/

section

variable {env : Env} {g : Globals} {e : DirectoryEntry} {c : Nat}

theorem lift_over (m : Prog State α) : Over toState (lift m) m := .zoom (fun _ _ => rfl) m

theorem read_over (fault : Incident) (m : Prog State Int) : Over toState (read fault m) m :=
  .note (fun _ => rfl) (lift_over m)

theorem write_over (m : Prog State Int) : Over toState (write m) m :=
  .note (fun _ => rfl) (lift_over m)

theorem allocLoop_over (env : Env) (g : Globals) (free bad mark n c : Nat) :
    Over toState (allocLoop env g free bad mark n c) (allocLoop env g free bad mark n c) := by
  induction n generalizing c with
  | zero => exact .pure _
  | succ n ih =>
      refine .bind (read_over _ _) fun v => .ite (.bind (write_over _) fun w => ?_) (ih _)
      exact .ite (.pure _) (.pure _)

theorem allocateFreeFAT_over (env : Env) (g : Globals) :
    Over toState (allocateFreeFAT env g) (allocateFreeFAT env g) := by
  have hloop := allocLoop_over env g
  exact .ite (hloop _ _ _ _ _) (.ite (hloop _ _ _ _ _) (.ite (hloop _ _ _ _ _) (.pure _)))

theorem storeEntry_over (env : Env) (g : Globals) (e : DirectoryEntry) (c k : Nat) :
    Over toState (storeEntry env g e c k) (storeEntry env g e c k) := by
  refine .ite (.pure _) (.bind (allocateFreeFAT_over env g) fun x => .ite (.pure _) ?_)
  refine .bind (lift_over _) fun _ => .bind (lift_over _) fun mem => ?_
  exact .bind (write_over _) fun w => .ite (.pure _) (.pure _)

variable {next' : Nat → Prog Traced (Int × DirectoryEntry)}
  {next : Nat → Prog State (Int × DirectoryEntry)}

theorem addNext_over (hnext : ∀ n, Over toState (next' n) (next n)) :
    Over toState (addNext env g e c next') (addNext env g e c next) := by
  refine .bind (read_over _ _) fun v => .ite ?_ (hnext _)
  refine .bind (allocateFreeFAT_over env g) fun x => .ite (.pure _) ?_
  exact .bind (write_over _) fun w => .ite (.pure _) (hnext x)

theorem addSlots_over (hnext : ∀ n, Over toState (next' n) (next n)) (n k : Nat) :
    Over toState (addSlots env g e c next' n k) (addSlots env g e c next n k) := by
  have hstore := storeEntry_over env g e c
  induction n generalizing k with
  | zero => exact .bind (lift_over _) fun _ => .ite (addNext_over hnext) (hstore k)
  | succ n ih => exact .bind (lift_over _) fun _ => .ite (ih _) (hstore k)

theorem directoryAdd_over (env : Env) (g : Globals) (e : DirectoryEntry) (fuel c : Nat) :
    Over toState (directoryAdd env g e fuel c) (directoryAdd env g e fuel c) := by
  induction fuel generalizing c with
  | zero => exact .halt _
  | succ fuel ih =>
      refine .ite (.pure _) (.bind (lift_over _) fun v => .ite (.pure _) ?_)
      exact addSlots_over ih _ _

end

end Traced

/-! ### The record is complete -/

/-- A call returns 0, or it has written nothing. -/
def WritesOrNot (m : Prog State Int) : Prop := ∀ s, (m s).1 = .value 0 ∨ (m s).2.disk = s.disk

/-- Where no write is on record the disk has not changed. -/
def Traced.Recorded (t t' : Traced) : Prop :=
  ∃ events, t'.events = t.events ++ events ∧ (.write ∉ events → t'.disk = t.disk)

section

variable {g : Globals} {F : Nat → Bool}

theorem writeBlocks_failing (lba buffer n : Nat) (s : State) :
    (writeBlocks (failing F) lba buffer n s).1 = .value 0 := by
  induction n generalizing lba buffer s with
  | zero => rfl
  | succ n ih => exact ih ..

theorem writesOrNot_int13hWriteO (n k off : Nat) :
    WritesOrNot (int13hWriteO (failing F) n k off) := by
  intro s
  rw [int13hWriteO]
  split
  · exact .inr rfl
  · split
    · exact .inr rfl
    · exact .inl (writeBlocks_failing ..)

/-- The part in front of the write leaves the disk alone. -/
theorem WritesOrNot.bind {α : Type} {m : Prog State α} {f : α → Prog State Int}
    (hm : Keeps (fun s s' => s'.disk = s.disk) m) (hf : ∀ a, WritesOrNot (f a)) :
    WritesOrNot (m >>= f) := by
  intro s
  rcases hr : m s with ⟨a | e, s'⟩
  · rw [bind_value hr]
    exact (hf a s').imp_right fun hd => hd.trans (hm.run hr)
  · rw [bind_stop hr]
    exact .inr (hm.run hr)

/-- And so does what follows it. -/
theorem WritesOrNot.check {m : Prog State Int} (hm : WritesOrNot m) :
    WritesOrNot (do if (← m) ≠ 0 then return -1 else return 0) := by
  intro s
  rcases hr : m s with ⟨a | e, s'⟩
  · rw [bind_value hr]
    have hs := hm s
    rw [hr] at hs
    by_cases ha : a = 0
    · rw [if_neg (not_not.mpr ha)]
      exact .inl rfl
    · rw [if_pos ha]
      exact .inr (hs.resolve_left fun h0 => ha (Outcome.value.inj h0))
  · rw [bind_stop hr]
    have hs := hm s
    rw [hr] at hs
    exact .inr (hs.resolve_left fun h0 => by cases h0)

theorem WritesOrNot.pure (r : Int) : WritesOrNot (pure r) := fun _ => .inr rfl

theorem WritesOrNot.halt_bind {α : Type} (e : Stop) (f : α → Prog State Int) :
    WritesOrNot (halt e >>= f) := fun _ => .inr rfl

theorem WritesOrNot.ite {p : Prop} [Decidable p] {m₁ m₂ : Prog State Int} (h₁ : WritesOrNot m₁)
    (h₂ : WritesOrNot m₂) : WritesOrNot (if p then m₁ else m₂) := by
  split
  · exact h₁
  · exact h₂

theorem writesOrNot_fatWrite (c v : Nat) : WritesOrNot (fatWrite (failing F) g c v) := by
  have hentry (w : Nat) : WritesOrNot (writeEntry (failing F) g w c v) := by
    refine .ite (.halt_bind _ _) (.bind (int13hReadO_keeps readInv_disk _ 1) fun r => ?_)
    refine .ite (.pure _) (.ite (.halt_bind _ _) (.ite (.halt_bind _ _) ?_))
    exact .bind (.modify fun _ => rfl) fun _ => .check (writesOrNot_int13hWriteO _ _ _)
  exact .ite (.pure _) (.ite (hentry 4) (.ite (hentry 2) (.pure _)))

theorem writesOrNot_clusterWrite (contents : Mem) (n off c : Nat) :
    WritesOrNot (clusterWrite (failing F) g contents n off c) := by
  refine .ite (.pure _) (.bind ?_ fun _ => .check (writesOrNot_int13hWriteO _ _ _))
  exact .modify fun _ => rfl

end

namespace Traced

variable {α : Type} {g : Globals} {F : Nat → Bool}

theorem Recorded.refl (t : Traced) : t.Recorded t := ⟨[], (List.append_nil _).symm, fun _ => rfl⟩

theorem Recorded.trans {t₁ t₂ t₃ : Traced} (h : t₁.Recorded t₂) (h' : t₂.Recorded t₃) :
    t₁.Recorded t₃ := by
  obtain ⟨l, he, hd⟩ := h
  obtain ⟨l', he', hd'⟩ := h'
  refine ⟨l ++ l', by rw [he', he, List.append_assoc], fun hno => ?_⟩
  rw [List.mem_append, not_or] at hno
  exact (hd' hno.2).trans (hd hno.1)

theorem lift_recorded {m : Prog State α} (hm : Keeps (fun s s' => s'.disk = s.disk) m) :
    Keeps Recorded (lift m) :=
  fun t => ⟨[], (List.append_nil _).symm, fun _ => hm t.toState⟩

theorem read_recorded (fault : Incident) (c : Nat) :
    Keeps Recorded (read fault (fatRead (failing F) g c)) :=
  .note .trans (lift_recorded (fatRead_keeps readInv_disk c)) fun _ => ⟨[fault], rfl, fun _ => rfl⟩

theorem write_recorded {m : Prog State Int} (hm : WritesOrNot m) : Keeps Recorded (write m) := by
  intro t
  have hs := hm t.toState
  rcases hr : m t.toState with ⟨a | e, s'⟩
  · rw [hr] at hs
    have hlift : lift m t = (.value a, { t with toState := s' }) := lift_run hr
    by_cases ha : a = 0
    · rw [write, note_pos hlift ha]
      exact ⟨[.write], rfl, fun hno => absurd List.mem_cons_self hno⟩
    · rw [write, note_neg hlift ha]
      refine ⟨[], (List.append_nil _).symm, fun _ => ?_⟩
      exact hs.resolve_left fun h0 => ha (Outcome.value.inj h0)
  · rw [hr] at hs
    have hlift : lift m t = (.stop e, { t with toState := s' }) := lift_run hr
    rw [write, note_stop hlift]
    refine ⟨[], (List.append_nil _).symm, fun _ => ?_⟩
    exact hs.resolve_left fun h0 => by cases h0

theorem allocateFreeFAT_recorded : Keeps Recorded (allocateFreeFAT (failing F) g) := by
  have hloop (free bad mark n c : Nat) :
      Keeps Recorded (allocLoop (failing F) g free bad mark n c) := by
    induction n generalizing c with
    | zero => exact .pure .refl _
    | succ n ih =>
        refine .bind .trans (read_recorded _ _) fun v => .ite ?_ (ih _)
        refine .bind .trans (write_recorded (writesOrNot_fatWrite _ _)) fun w => ?_
        exact .ite (.pure .refl _) (.pure .refl _)
  exact .ite (hloop _ _ _ _ _) (.ite (hloop _ _ _ _ _) (.ite (hloop _ _ _ _ _) (.pure .refl _)))

theorem storeEntry_recorded (e : DirectoryEntry) (c k : Nat) :
    Keeps Recorded (storeEntry (failing F) g e c k) := by
  refine .ite (.pure .refl _) (.bind .trans allocateFreeFAT_recorded fun x => ?_)
  refine .ite (.pure .refl _) (.bind .trans (lift_recorded (.modify fun _ => rfl)) fun _ => ?_)
  refine .bind .trans (lift_recorded (.gets readInv_disk.refl _)) fun mem => ?_
  refine .bind .trans (write_recorded (writesOrNot_clusterWrite _ _ _ _)) fun w => ?_
  exact .ite (.pure .refl _) (.pure .refl _)

theorem directoryAdd_recorded (e : DirectoryEntry) (fuel c : Nat) :
    Keeps Recorded (directoryAdd (failing F) g e fuel c) := by
  -- the walk by the fuel, and in each cluster the slots by their number
  induction fuel generalizing c with
  | zero => exact .halt .refl _
  | succ fuel ih =>
      have hnext : Keeps Recorded
          (addNext (failing F) g e c (directoryAdd (failing F) g e fuel)) := by
        refine .bind .trans (read_recorded _ _) fun v => .ite ?_ (ih _)
        refine .bind .trans allocateFreeFAT_recorded fun x => .ite (.pure .refl _) ?_
        refine .bind .trans (write_recorded (writesOrNot_fatWrite _ _)) fun w => ?_
        exact .ite (.pure .refl _) (ih _)
      have hget (k : Nat) : Keeps Recorded (lift (gets fun s => s.slotAt k)) :=
        lift_recorded (.gets readInv_disk.refl _)
      have hstore := storeEntry_recorded (F := F) (g := g) e c
      have hslots (n k : Nat) : Keeps Recorded
          (addSlots (failing F) g e c (directoryAdd (failing F) g e fuel) n k) := by
        induction n generalizing k with
        | zero => exact .bind .trans (hget k) fun _ => .ite hnext (hstore k)
        | succ n ih' => exact .bind .trans (hget k) fun _ => .ite (ih' _) (hstore k)
      refine .ite (.pure .refl _) (.bind .trans (lift_recorded ?_) fun v => ?_)
      · exact clusterRead_keeps readInv_disk c
      · exact .ite (.pure .refl _) (hslots _ _)

end Traced

end PotatoOS
