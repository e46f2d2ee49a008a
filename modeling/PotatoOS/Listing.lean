/-
PotatoOS/Listing.lean

Listing a directory: `directoryList`.

The loop looks at one entry after the other and leaves a cluster in two ways: at
an end mark, and at an entry that it does not show, when that is the last one of
the cluster or lies behind it.  The bound is checked for such entries only.  So
`LoopEnds` says where the loop ends, over all places the entry pointer can get to,
and `listSlots_first` is what one cluster comes to; if the last entry of a
cluster is shown, the loop goes on in the memory behind the cluster
(`not_listsExactly_of_shown`).

What is looked at and what is printed is kept beside the state.  Main result:
`listsExactly_iff`.
-/
import PotatoOS.Attributes
import PotatoOS.Failing
import PotatoOS.Trace

namespace PotatoOS

open Prog

/-! ### The function -/

/-- A call of `d_printss` with a string or with the array `conversion`, or of `d_printhex`. -/
inductive PrintCall where
  | text (s : List UInt8)
  | conversion (array : Mem)
  | hex (num digits : Nat)

/-- The state, the places in memory that were looked at, by cluster and index, the entries that
were printed, with the calls that printed them, and the events; the last one comes last. -/
structure Listing extends State where
  examined : List (Nat × Nat)
  printed : List (DirectoryEntry × List PrintCall)
  events : List Incident

/-- The entry under `file_metadata` after `count` increments. -/
def entryIn (m : Mem) (count : Nat) : DirectoryEntry :=
  DirectoryEntry.at_ m ((diskLocation + 32 * count) % 2 ^ 32)

namespace Listing

/-- Note that an entry is looked at. -/
def examine (cluster count : Nat) (s : Listing) : Listing :=
  { s with examined := s.examined ++ [(cluster, count)] }

/-- Note that an entry is printed, and with which calls. -/
def print (e : DirectoryEntry) (calls : List PrintCall) (s : Listing) : Listing :=
  { s with printed := s.printed ++ [(e, calls)] }

/-- Note that a link could not be read. -/
def fault (s : Listing) : Listing := { s with events := s.events ++ [.linkFault] }

/-- A program of the driver. -/
def lift {α : Type} (m : Prog State α) : Prog Listing α :=
  zoom toState (fun s s' => { s with toState := s' }) m

end Listing

/-- The attributes that hide an entry. -/
def attributesToHide (attributesToAdd : UInt8) (exclusive : Int) : UInt8 :=
  if exclusive = 0 then (fileHidden ||| fileSystem) &&& ~~~attributesToAdd
  else if exclusive = 1 then ~~~attributesToAdd
  else fileHidden ||| fileSystem

/-- The string of `n` dots. -/
def dots (n : Nat) : Mem := fun i => if i < n then 0x2E else 0

/-- The two comparisons with ".." and "."; the second one holds of every name that starts with a
dot. -/
def IsDot (e : DirectoryEntry) : Prop :=
  strncmp e.bytes (dots 2) 2 = 0 ∨ strncmp e.bytes (dots 1) 1 = 0

/-- A free entry, a long name, or an attribute that is not wanted. -/
def IsHidden (hide : UInt8) (e : DirectoryEntry) : Prop :=
  e 0 = entryFree ∨ e.isLongName ∨ e.attributes &&& hide ≠ 0

instance : DecidablePred IsDot := fun _ => inferInstanceAs (Decidable (_ ∨ _))

instance (hide : UInt8) : DecidablePred (IsHidden hide) := fun _ =>
  inferInstanceAs (Decidable (_ ∨ _))

/-- A tabulator. -/
def tab : PrintCall := .text [0x09]

/-- A line feed. -/
def newline : PrintCall := .text [0x0A]

/-- "DIR" -/
def dirText : PrintCall := .text [0x44, 0x49, 0x52]

/-- How a dot entry is printed. -/
def dotCalls (e : DirectoryEntry) : List PrintCall :=
  [.text (if e 1 = 0x2E then [0x2E, 0x2E] else [0x2E]), tab, tab, tab, dirText, newline]

/-- How another entry is printed; `array` is what the local array holds before. -/
def entryCalls (array : Mem) (e : DirectoryEntry) : List PrintCall :=
  [.conversion (convertFromFATFormat e.bytes array), tab,
    if ¬e.isDirectory then .hex e.fileSize 8 else tab, tab]
      ++ (if e.isDirectory then [dirText] else []) ++ [newline]

/-- What `directoryList` does behind the last entry of a cluster.  The result of `FATRead` is
kept in an unsigned variable, so the test for a negative one never holds. -/
def listNext (env : Env) (g : Globals) (cluster : Nat) (next : Nat → Prog Listing Int) :
    Prog Listing Int := do
  let nextCluster := toUnsigned
    (← note (· = -1) Listing.fault (Listing.lift (fatRead env g cluster)))
  if g.isEndMark nextCluster then return 0
  next nextCluster

/-- The loop of `directoryList` from entry `count` on; `arrays` gives what the local array holds
at each entry. -/
def listSlots (env : Env) (g : Globals) (hide : UInt8) (arrays : Nat → Nat → Mem) (cluster : Nat)
    (next : Nat → Prog Listing Int) : Nat → Nat → Prog Listing Int
  | 0, _ => halt .exhausted
  | fuel + 1, count => do
      let fileMetadata ← gets fun s => entryIn s.mem count
      modify (Listing.examine cluster count)
      if IsEnd fileMetadata then return 0
      else if IsDot fileMetadata then
        modify (Listing.print fileMetadata (dotCalls fileMetadata))
        listSlots env g hide arrays cluster next fuel ((count + 1) % 2 ^ 32)
      else if IsHidden hide fileMetadata then
        -- only a hidden entry is asked whether it is the last of the cluster
        if count < g.lastSlot then
          listSlots env g hide arrays cluster next fuel ((count + 1) % 2 ^ 32)
        else listNext env g cluster next
      else
        modify (Listing.print fileMetadata (entryCalls (arrays cluster count) fileMetadata))
        listSlots env g hide arrays cluster next fuel ((count + 1) % 2 ^ 32)

/-- `directoryList`: a cluster out of range or unreadable ends it, otherwise the loop goes through
the cluster and the function calls itself for the next one. -/
def directoryList (env : Env) (g : Globals) (attributesToAdd : UInt8) (exclusive : Int)
    (arrays : Nat → Nat → Mem) : Nat → Nat → Prog Listing Int
  | 0, _ => halt .exhausted
  | fuel + 1, cluster => do
      if cluster < 2 ∨ cluster ≥ g.totalClusters then return -1
      if (← Listing.lift (clusterRead env g cluster 0)) ≠ 0 then return -1
      listSlots env g (attributesToHide attributesToAdd exclusive) arrays cluster
        (directoryList env g attributesToAdd exclusive arrays fuel) fuel 0

/-! ### The loop over a cluster -/

/-- The entry is printed, unless it is an end mark. -/
def Shown (hide : UInt8) (e : DirectoryEntry) : Prop :=
  e 0 = 0x2E ∨ (e 0 ≠ entryFree ∧ ¬e.isLongName ∧ e.attributes &&& hide = 0)

instance (hide : UInt8) : DecidablePred (Shown hide) := fun _ =>
  inferInstanceAs (Decidable (_ ∨ _))

theorem strncmp_dots_one (e : DirectoryEntry) : strncmp e.bytes (dots 1) 1 = 0 ↔ e 0 = 0x2E := by
  have h₀ : e.bytes 0 = e 0 := rfl
  have h₁ : dots 1 0 = 0x2E := rfl
  rw [strncmp, strncmp, h₀, h₁]
  split_ifs with h h'
  · rw [Int.sub_eq_zero, Int.natCast_inj, UInt8.toNat_inj]
  · rw [Int.sub_eq_zero, Int.natCast_inj, UInt8.toNat_inj]
  · exact iff_of_true rfl (not_not.mp h')

/-- Both comparisons come down to the first character. -/
theorem isDot_iff (e : DirectoryEntry) : IsDot e ↔ e 0 = 0x2E := by
  rw [IsDot, strncmp_dots_one]
  refine or_iff_right_of_imp fun h => ?_
  rw [← strncmp_dots_one]
  have h₁ : dots 1 0 = dots 2 0 := rfl
  rw [strncmp] at h ⊢
  rw [h₁]
  split_ifs at h ⊢
  · exact h
  · exact h
  · rfl

theorem shown_iff (hide : UInt8) (e : DirectoryEntry) :
    Shown hide e ↔ IsDot e ∨ ¬IsHidden hide e := by
  rw [Shown, isDot_iff, IsHidden, not_or, not_or, not_not]

/-- The calls that print an entry. -/
def lineCalls (array : Mem) (e : DirectoryEntry) : List PrintCall :=
  if IsDot e then dotCalls e else entryCalls array e

/-- The loop ends at this entry. -/
def LoopEnds (m : Mem) (g : Globals) (hide : UInt8) (k : Nat) : Prop :=
  IsEnd (entryIn m k) ∨ (g.lastSlot ≤ k ∧ ¬Shown hide (entryIn m k))

/-- The first entry at which it ends. -/
def LoopEndsFirst (m : Mem) (g : Globals) (hide : UInt8) (k : Nat) : Prop :=
  LoopEnds m g hide k ∧ ∀ j < k, ¬LoopEnds m g hide j

namespace Listing

variable (s : Listing) (hide : UInt8) (arrays : Nat → Nat → Mem) (c : Nat)

/-- One entry looked at, and printed if it is to be shown. -/
def visit (k : Nat) : Listing :=
  let e := entryIn s.mem k
  if ¬IsEnd e ∧ Shown hide e then (s.examine c k).print e (lineCalls (arrays c k) e)
  else s.examine c k

/-- The first entries looked at. -/
def visits : Nat → Listing
  | 0 => s
  | n + 1 => (visits n).visit hide arrays c n

@[simp] theorem visit_toState (k : Nat) : (s.visit hide arrays c k).toState = s.toState := by
  rw [visit]
  split <;> rfl

@[simp] theorem visits_toState (n : Nat) : (s.visits hide arrays c n).toState = s.toState := by
  induction n with
  | zero => rfl
  | succ n ih => rw [visits, visit_toState, ih]

theorem visit_examined (k : Nat) :
    (s.visit hide arrays c k).examined = s.examined ++ [(c, k)] := by
  rw [visit]
  split <;> rfl

theorem visits_examined (n : Nat) :
    (s.visits hide arrays c n).examined = s.examined ++ (List.range n).map (Prod.mk c) := by
  induction n with
  | zero => exact (List.append_nil _).symm
  | succ n ih =>
      rw [visits, visit_examined, ih, List.range_succ, List.map_append, List.append_assoc]
      rfl

@[simp] theorem visit_events (k : Nat) : (s.visit hide arrays c k).events = s.events := by
  rw [visit]
  split <;> rfl

@[simp] theorem visits_events (n : Nat) : (s.visits hide arrays c n).events = s.events := by
  induction n with
  | zero => rfl
  | succ n ih => rw [visits, visit_events, ih]

/-- The lines that looking at the first entries prints. -/
def lines (n : Nat) : List (DirectoryEntry × List PrintCall) :=
  ((List.range n).filter fun k =>
      ¬IsEnd (entryIn s.mem k) ∧ Shown hide (entryIn s.mem k)).map fun k =>
    (entryIn s.mem k, lineCalls (arrays c k) (entryIn s.mem k))

theorem visits_printed (n : Nat) :
    (s.visits hide arrays c n).printed = s.printed ++ s.lines hide arrays c n := by
  induction n with
  | zero => exact (List.append_nil _).symm
  | succ n ih =>
      rw [visits, visit, visits_toState, lines, List.range_succ, List.filter_append,
        List.map_append, ← lines, ← List.append_assoc, ← ih]
      split
      next h => simp [h, print, examine]
      next h => simp [h, examine]

end Listing

section

variable {env : Env} {g : Globals} {hide : UInt8} {arrays : Nat → Nat → Mem} {c k n fuel : Nat}
  {next : Nat → Prog Listing Int} {s : Listing}

/-- The loop goes on at the next entry. -/
theorem listSlots_step (h : ¬LoopEnds s.mem g hide k) :
    listSlots env g hide arrays c next (fuel + 1) k s
      = listSlots env g hide arrays c next fuel ((k + 1) % 2 ^ 32) (s.visit hide arrays c k) := by
  obtain ⟨hend, hlast⟩ := not_or.mp h
  rw [listSlots, gets_bind, modify_bind, if_neg hend, Listing.visit, lineCalls]
  by_cases hdot : IsDot (entryIn s.mem k)
  · have hshown : Shown hide (entryIn s.mem k) := (shown_iff _ _).mpr (.inl hdot)
    rw [if_pos hdot, if_pos ⟨hend, hshown⟩, if_pos hdot]
    rfl
  · rw [if_neg hdot]
    by_cases hhid : IsHidden hide (entryIn s.mem k)
    · have hshown : ¬Shown hide (entryIn s.mem k) := fun hs =>
        ((shown_iff _ _).mp hs).elim hdot (not_not.mpr hhid)
      have hlt : k < g.lastSlot := Nat.lt_of_not_le fun hle => hlast ⟨hle, hshown⟩
      rw [if_pos hhid, if_pos hlt, if_neg fun hs => hshown hs.2]
    · rw [if_neg hhid, if_pos ⟨hend, (shown_iff _ _).mpr (.inr hhid)⟩, if_neg hdot]
      rfl

/-- Where it ends. -/
theorem listSlots_ends (h : LoopEnds s.mem g hide k) :
    listSlots env g hide arrays c next (fuel + 1) k s =
      if IsEnd (entryIn s.mem k) then (.value 0, s.visit hide arrays c k)
      else listNext env g c next (s.visit hide arrays c k) := by
  rw [listSlots, gets_bind, modify_bind, Listing.visit]
  by_cases hend : IsEnd (entryIn s.mem k)
  · rw [if_pos hend, if_pos hend, if_neg fun hs => hs.1 hend]
    rfl
  · obtain ⟨hle, hshown⟩ := h.resolve_left hend
    have hhid := not_or.mp fun hs => hshown ((shown_iff _ _).mpr hs)
    rw [if_neg hend, if_neg hend, if_neg hhid.1, if_pos (not_not.mp hhid.2),
      if_neg (Nat.not_lt.mpr hle), if_neg fun hs => hshown hs.2]

/-- The loop looks at the entries in front of the first place where it ends. -/
theorem listSlots_visits (hn : n < 2 ^ 32) (h : ∀ j < n, ¬LoopEnds s.mem g hide j) :
    listSlots env g hide arrays c next (fuel + n) 0 s
      = listSlots env g hide arrays c next fuel n (s.visits hide arrays c n) := by
  induction n generalizing fuel with
  | zero => rfl
  | succ n ih =>
      have hstep : ¬LoopEnds (s.visits hide arrays c n).mem g hide n := by
        rw [Listing.visits_toState]
        exact h n (Nat.lt_succ_self n)
      rw [show fuel + (n + 1) = fuel + 1 + n by omega, ih (by omega) fun j hj => h j (by omega),
        listSlots_step hstep, Nat.mod_eq_of_lt hn]
      rfl

/-- What the loop comes to. -/
theorem listSlots_first (hk : k < 2 ^ 32) (h : LoopEndsFirst s.mem g hide k) :
    listSlots env g hide arrays c next (fuel + 1 + k) 0 s =
      if IsEnd (entryIn s.mem k) then (.value 0, s.visits hide arrays c (k + 1))
      else listNext env g c next (s.visits hide arrays c (k + 1)) := by
  have hends : LoopEnds (s.visits hide arrays c k).mem g hide k := by
    rw [Listing.visits_toState]
    exact h.1
  rw [listSlots_visits hk h.2, listSlots_ends hends, Listing.visits_toState, Listing.visits]

/-- It may not end at all. -/
theorem listSlots_endless (h : ∀ j < 2 ^ 32, ¬LoopEnds s.mem g hide j) (hk : k < 2 ^ 32) :
    (listSlots env g hide arrays c next fuel k s).1 = .stop .exhausted := by
  induction fuel generalizing k s with
  | zero => rfl
  | succ fuel ih =>
      rw [listSlots_step (h k hk)]
      refine ih (fun j hj => ?_) (Nat.mod_lt _ (by decide))
      rw [Listing.visit_toState]
      exact h j hj

theorem exists_endsFirst (h : ¬∀ j < 2 ^ 32, ¬LoopEnds s.mem g hide j) :
    ∃ k < 2 ^ 32, LoopEndsFirst s.mem g hide k := by
  classical
  have hex : ∃ k, LoopEnds s.mem g hide k := by
    by_contra hno
    exact h fun j _ hj => hno ⟨j, hj⟩
  refine ⟨Nat.find hex, ?_, Nat.find_spec hex, fun j hj => Nat.find_min hex hj⟩
  by_contra hle
  exact h fun j hj => Nat.find_min hex (by omega)

/-! ### Records -/

/-- What was looked at and what was printed stays on record. -/
structure Listing.Records (s s' : Listing) : Prop where
  examined : s.examined <+: s'.examined
  printed : s.printed <+: s'.printed

theorem Listing.Records.refl (s : Listing) : s.Records s :=
  ⟨List.prefix_refl _, List.prefix_refl _⟩

theorem Listing.Records.trans {s₁ s₂ s₃ : Listing} (h : s₁.Records s₂) (h' : s₂.Records s₃) :
    s₁.Records s₃ := ⟨h.examined.trans h'.examined, h.printed.trans h'.printed⟩

theorem lift_records {α : Type} (m : Prog State α) : Keeps Listing.Records (Listing.lift m) :=
  .zoom fun _ _ => ⟨List.prefix_refl _, List.prefix_refl _⟩

theorem listNext_records (hnext : ∀ b, Keeps Listing.Records (next b)) :
    Keeps Listing.Records (listNext env g c next) := by
  refine .bind .trans (.note .trans (lift_records _) fun s => ?_) fun r => ?_
  · exact ⟨List.prefix_refl _, List.prefix_refl _⟩
  · exact .ite (.pure .refl _) (hnext _)

theorem listSlots_records (hnext : ∀ b, Keeps Listing.Records (next b)) (fuel k : Nat) :
    Keeps Listing.Records (listSlots env g hide arrays c next fuel k) := by
  have hprint (e : DirectoryEntry) (calls : List PrintCall) :
      Keeps Listing.Records (modify (Listing.print e calls)) :=
    .modify fun s => ⟨List.prefix_refl _, List.prefix_append _ _⟩
  induction fuel generalizing k with
  | zero => exact .halt .refl _
  | succ fuel ih =>
      refine .bind .trans (.gets .refl _) fun e => .bind .trans ?_ fun _ => ?_
      · exact .modify fun s => ⟨List.prefix_append _ _, List.prefix_refl _⟩
      · refine .ite (.pure .refl _) (.ite ?_ (.ite (.ite (ih _) (listNext_records hnext)) ?_))
        · exact .bind .trans (hprint _ _) fun _ => ih _
        · exact .bind .trans (hprint _ _) fun _ => ih _

theorem directoryList_records (env : Env) (g : Globals) (add : UInt8) (exclusive : Int)
    (arrays : Nat → Nat → Mem) (fuel c : Nat) :
    Keeps Listing.Records (directoryList env g add exclusive arrays fuel c) := by
  induction fuel generalizing c with
  | zero => exact .halt .refl _
  | succ fuel ih =>
      refine .ite (.pure .refl _) (.bind .trans (lift_records _) fun r => ?_)
      exact .ite (.pure .refl _) (listSlots_records ih _ _)

end

/-! ### Clusters -/

namespace Listing

variable (s : Listing) (g : Globals) (c : Nat)

/-- A cluster was read. -/
def loaded : Listing := { s with toState := s.toState.loadCluster g c 0 }

/-- The table sector of a cluster was read. -/
def tabled : Listing := { s with toState := s.toState.loadFat g 4 c }

theorem tabled_disk : (s.tabled g c).disk = s.disk := rfl

end Listing

section

variable {env : Env} {g : Globals} {add hide : UInt8} {exclusive : Int}
  {arrays : Nat → Nat → Mem} {c k fuel : Nat} {next : Nat → Prog Listing Int} {s : Listing}

theorem entryAt_loaded (h : g.IsFat32) (hk : k < 16 * g.sectorsPerCluster) :
    entryIn (s.loaded g c).mem k = dirSlot g s.disk c k := by
  have hspc := h.le
  rw [← slotAt_loadCluster h hk, entryIn, State.slotAt,
    Nat.mod_eq_of_lt (by rw [diskLocation]; omega)]
  rfl

theorem listNext_run (h : g.IsFat32)
    (hread : fatRead env g c s.toState
      = (.value (fatValue g s.disk c : Nat), s.toState.loadFat g 4 c)) :
    listNext env g c next s =
      match nextCluster g s.disk c with
      | none => (.value 0, s.tabled g c)
      | some b => next b (s.tabled g c) := by
  have hlift : Listing.lift (fatRead env g c) s
      = (.value (fatValue g s.disk c : Nat), s.tabled g c) := zoom_run hread
  have hlt : fatValue g s.disk c < 2 ^ 32 := Nat.lt_trans (fatValue_lt _ _ _) (by decide)
  rw [listNext, bind_value (note_neg hlift (by omega)), toUnsigned_natCast hlt, nextCluster]
  by_cases hend : endCluster32 ≤ fatValue g s.disk c
  · rw [if_pos ((h.isEndMark_iff _).mpr hend), if_pos hend]
    rfl
  · rw [if_neg (mt (h.isEndMark_iff _).mp hend), if_neg hend]

theorem directoryList_loaded (hc : g.InRange c)
    (hread : clusterRead env g c 0 s.toState = (.value 0, s.toState.loadCluster g c 0)) :
    directoryList env g add exclusive arrays (fuel + 1) c s =
      listSlots env g (attributesToHide add exclusive) arrays c
        (directoryList env g add exclusive arrays fuel) fuel 0 (s.loaded g c) := by
  have hlift : Listing.lift (clusterRead env g c 0) s = (.value 0, s.loaded g c) := zoom_run hread
  rw [directoryList, if_neg (not_outOfRange hc), bind_value hlift]
  rfl

end

/-! ### Directories -/

/-- The entries that a listing shows. -/
def shownEntries (hide : UInt8) (l : List DirectoryEntry) : List DirectoryEntry :=
  (l.takeWhile fun e => ¬IsEnd e).filter (Shown hide ·)

/-- A piece of a run looked at allowed places only and printed these entries. -/
structure Listing.Adds (B : Nat × Nat → Prop) (es : List DirectoryEntry) (s s' : Listing) :
    Prop where
  printed : ∃ lines, s'.printed = s.printed ++ lines ∧ lines.map Prod.fst = es ∧
    ∀ p ∈ lines, ∃ array, p.2 = lineCalls array p.1
  examined : ∃ places, s'.examined = s.examined ++ places ∧ ∀ p ∈ places, B p

/-- The entries of the directory in the clusters `l` are listed. -/
def ListsExactly (g : Globals) (add : UInt8) (exclusive : Int) (arrays : Nat → Nat → Mem)
    (B : Nat × Nat → Prop) (l : List Nat) (c : Nat) (s : Listing) : Prop :=
  ∃ N s', (∀ fuel ≥ N, directoryList reliable g add exclusive arrays fuel c s = (.value 0, s')) ∧
    s.Adds B (shownEntries (attributesToHide add exclusive) (dirEntries g s.disk l)) s'

/-- Up to the cluster with the end mark, the last entry of no cluster is shown. -/
def LastsHidden (g : Globals) (d : Disk) (hide : UInt8) : List Nat → Prop
  | [] => True
  | c :: l => (∀ e ∈ dirSlots g d c, ¬IsEnd e) →
      ¬Shown hide (dirSlot g d c g.lastSlot) ∧ LastsHidden g d hide l

section

variable {g : Globals} {add hide : UInt8} {exclusive : Int} {arrays : Nat → Nat → Mem}
  {B : Nat × Nat → Prop} {es es' : List DirectoryEntry} {b c k n fuel : Nat} {l : List Nat}
  {s s₁ s₂ : Listing}

theorem Listing.Adds.trans (h : s.Adds B es s₁) (h' : s₁.Adds B es' s₂) :
    s.Adds B (es ++ es') s₂ := by
  obtain ⟨⟨lines, hp, he, hl⟩, places, hx, hB⟩ := h
  obtain ⟨⟨lines', hp', he', hl'⟩, places', hx', hB'⟩ := h'
  refine ⟨⟨lines ++ lines', ?_, ?_, ?_⟩, places ++ places', ?_, ?_⟩
  · rw [hp', hp, List.append_assoc]
  · rw [List.map_append, he, he']
  · exact List.forall_mem_append.mpr ⟨hl, hl'⟩
  · rw [hx', hx, List.append_assoc]
  · exact List.forall_mem_append.mpr ⟨hB, hB'⟩

theorem Listing.Adds.of_loaded (h : (s.loaded g c).Adds B es s₁) : s.Adds B es s₁ :=
  ⟨h.printed, h.examined⟩

theorem Listing.Adds.tabled (h : s.Adds B es s₁) : s.Adds B es (s₁.tabled g c) :=
  ⟨h.printed, h.examined⟩

/-- The rest of a run, when its first piece is known. -/
theorem Listing.Adds.of_append (h : s.Adds B es s₁) (h' : s.Adds B (es ++ es') s₂)
    (hr : s₁.Records s₂) : s₁.Adds B es' s₂ := by
  obtain ⟨⟨lines, hp, he, -⟩, places, hx, -⟩ := h
  obtain ⟨⟨lines', hp', he', hl'⟩, places', hx', hB'⟩ := h'
  obtain ⟨⟨places₂, hx₂⟩, lines₂, hp₂⟩ := hr
  obtain rfl : lines ++ lines₂ = lines' := by
    rw [← hp₂, hp, List.append_assoc] at hp'
    exact List.append_cancel_left hp'
  obtain rfl : places ++ places₂ = places' := by
    rw [← hx₂, hx, List.append_assoc] at hx'
    exact List.append_cancel_left hx'
  refine ⟨⟨lines₂, hp₂.symm, ?_, fun p hp => hl' p (List.mem_append_right _ hp)⟩,
    places₂, hx₂.symm, fun p hp => hB' p (List.mem_append_right _ hp)⟩
  rw [List.map_append, he] at he'
  exact List.append_cancel_left he'

/-- Looking at the first entries of a cluster. -/
theorem adds_visits (hB : ∀ j < n, B (c, j)) :
    s.Adds B (((List.range n).map (entryIn s.mem)).filter fun e => ¬IsEnd e ∧ Shown hide e)
      (s.visits hide arrays c n) := by
  refine ⟨⟨_, s.visits_printed hide arrays c n, ?_, ?_⟩, _, s.visits_examined hide arrays c n, ?_⟩
  · rw [Listing.lines, List.map_map, List.filter_map]
    rfl
  · intro p hp
    obtain ⟨j, -, rfl⟩ := List.mem_map.mp hp
    exact ⟨_, rfl⟩
  · intro p hp
    obtain ⟨j, hj, rfl⟩ := List.mem_map.mp hp
    exact hB j (List.mem_range.mp hj)

theorem shownEntries_append {L : List DirectoryEntry} (hL : ∀ e ∈ L, ¬IsEnd e)
    (R : List DirectoryEntry) :
    shownEntries hide (L ++ R)
      = (L.filter fun e => ¬IsEnd e ∧ Shown hide e) ++ shownEntries hide R := by
  rw [shownEntries, List.takeWhile_append_of_pos fun e he => decide_eq_true (hL e he),
    List.filter_append, ← shownEntries]
  congr 1
  refine List.filter_congr fun e he => ?_
  simp [hL e he]

/-- Nothing is shown from an end mark on. -/
theorem shownEntries_of_end {f : Nat → DirectoryEntry} (hk : k < n) (hend : IsEnd (f k))
    (hbefore : ∀ j < k, ¬IsEnd (f j)) (R : List DirectoryEntry) :
    shownEntries hide ((List.range n).map f ++ R)
      = ((List.range (k + 1)).map f).filter fun e => ¬IsEnd e ∧ Shown hide e := by
  obtain ⟨m, rfl⟩ := Nat.exists_eq_add_of_le hk
  have hL : ∀ e ∈ (List.range k).map f, ¬IsEnd e := by
    intro e he
    obtain ⟨j, hj, rfl⟩ := List.mem_map.mp he
    exact hbefore j (List.mem_range.mp hj)
  rw [List.range_add, List.range_succ, List.append_assoc, List.map_append, List.map_append,
    List.append_assoc, shownEntries_append hL, List.map_append, List.filter_append]
  congr 1
  simp [shownEntries, hend]

/-! ### One cluster of a listing -/

/-- The state behind a cluster that is left at its last entry. -/
def Listing.behind (s : Listing) (g : Globals) (hide : UInt8) (arrays : Nat → Nat → Mem) (c : Nat) :
    Listing := ((s.loaded g c).visits hide arrays c 16).tabled g c

theorem behind_disk : (s.behind g hide arrays c).disk = s.disk := by
  rw [Listing.behind, Listing.tabled_disk, Listing.visits_toState]
  exact loadCluster_disk _ _ _ _

section

variable (h : g.Single)

include h

theorem map_entryAt_loaded :
    (List.range 16).map (entryIn (s.loaded g c).mem) = dirSlots g s.disk c := by
  rw [dirSlots, h.one, Nat.mul_one]
  refine List.map_congr_left fun j hj => entryAt_loaded h.toIsFat32 ?_
  rw [h.one, Nat.mul_one]
  exact List.mem_range.mp hj

theorem forall_dirSlots_iff (P : DirectoryEntry → Prop) :
    (∀ e ∈ dirSlots g s.disk c, P e) ↔ ∀ j < 16, P (entryIn (s.loaded g c).mem j) := by
  rw [← map_entryAt_loaded h, List.forall_mem_map]
  exact forall_congr' fun j => imp_congr_left List.mem_range

theorem Globals.Single.lastSlot_eq : g.lastSlot = 15 := by
  rw [h.toIsFat32.lastSlot_eq, h.one]

/-- With an end mark in the cluster the loop ends at the first one. -/
theorem endsFirst_of_end (hide : UInt8) (hend : ¬∀ e ∈ dirSlots g s.disk c, ¬IsEnd e) :
    ∃ k < 16, LoopEndsFirst (s.loaded g c).mem g hide k ∧ IsEnd (entryIn (s.loaded g c).mem k) := by
  rw [forall_dirSlots_iff h] at hend
  push Not at hend
  have hfind := Nat.find_spec hend
  refine ⟨Nat.find hend, hfind.1, ⟨.inl hfind.2, fun j hj hj' => ?_⟩, hfind.2⟩
  refine Nat.find_min hend hj ⟨hj.trans hfind.1, hj'.resolve_right fun hlast => ?_⟩
  have := hlast.1
  rw [h.lastSlot_eq] at this
  omega

/-- Without one it ends at the last entry, if that is not shown. -/
theorem endsFirst_of_hidden (hno : ∀ e ∈ dirSlots g s.disk c, ¬IsEnd e)
    (hlast : ¬Shown hide (dirSlot g s.disk c g.lastSlot)) :
    LoopEndsFirst (s.loaded g c).mem g hide 15 ∧ ¬IsEnd (entryIn (s.loaded g c).mem 15) := by
  rw [forall_dirSlots_iff h] at hno
  rw [h.lastSlot_eq, ← entryAt_loaded h.toIsFat32 (by rw [h.one]; decide)] at hlast
  refine ⟨⟨.inr ⟨h.lastSlot_eq.le, hlast⟩, fun j hj hj' => ?_⟩, hno 15 (by decide)⟩
  have := (hj'.resolve_left (hno j (by omega))).1
  rw [h.lastSlot_eq] at this
  omega

/-- If it is shown, the loop leaves the cluster. -/
theorem not_ends_of_shown (hno : ∀ e ∈ dirSlots g s.disk c, ¬IsEnd e)
    (hlast : Shown hide (dirSlot g s.disk c g.lastSlot)) {j : Nat} (hj : j < 16) :
    ¬LoopEnds (s.loaded g c).mem g hide j := by
  rw [forall_dirSlots_iff h] at hno
  rw [h.lastSlot_eq, ← entryAt_loaded h.toIsFat32 (by rw [h.one]; decide)] at hlast
  rintro (hend | ⟨hle, hshown⟩)
  · exact hno j hj hend
  · rw [h.lastSlot_eq] at hle
    obtain rfl : j = 15 := by omega
    exact hshown hlast

theorem adds_behind (hide : UInt8) (arrays : Nat → Nat → Mem) (hB : ∀ j < 16, B (c, j)) :
    s.Adds B ((dirSlots g s.disk c).filter fun e => ¬IsEnd e ∧ Shown hide e)
      (s.behind g hide arrays c) := by
  rw [← map_entryAt_loaded h]
  exact .tabled (.of_loaded (adds_visits hB))

variable (ht : g.Transfers c)

include ht

theorem directoryList_transfers :
    directoryList reliable g add exclusive arrays (fuel + 1) c s =
      listSlots reliable g (attributesToHide add exclusive) arrays c
        (directoryList reliable g add exclusive arrays fuel) fuel 0 (s.loaded g c) := by
  refine directoryList_loaded ht.1 ?_
  rw [clusterRead_run h.bytesPerSector, if_pos ht]

/-- A cluster with an end mark is the last one that is listed. -/
theorem listsExactly_of_end (hB : ∀ j < 16, B (c, j))
    (hend : ¬∀ e ∈ dirSlots g s.disk c, ¬IsEnd e) :
    ListsExactly g add exclusive arrays B (c :: l) c s := by
  obtain ⟨k, hk, hfirst, hend⟩ := endsFirst_of_end h (attributesToHide add exclusive) hend
  refine ⟨k + 2, (s.loaded g c).visits (attributesToHide add exclusive) arrays c (k + 1), ?_, ?_⟩
  · intro fuel hfuel
    obtain ⟨m, rfl⟩ := Nat.exists_eq_add_of_le' hfuel
    rw [show m + (k + 2) = m + 1 + k + 1 by omega, directoryList_transfers h ht,
      listSlots_first (by omega) hfirst, if_pos hend]
  · have hbefore : ∀ j < k, ¬IsEnd (entryIn (s.loaded g c).mem j) := fun j hj hj' =>
      hfirst.2 j hj (.inl hj')
    rw [dirEntries_cons, ← map_entryAt_loaded h, shownEntries_of_end hk hend hbefore]
    exact .of_loaded (adds_visits fun j hj => hB j (by omega))

/-- A cluster that is left at its last entry. -/
theorem directoryList_passes (hno : ∀ e ∈ dirSlots g s.disk c, ¬IsEnd e)
    (hlast : ¬Shown (attributesToHide add exclusive) (dirSlot g s.disk c g.lastSlot)) :
    directoryList reliable g add exclusive arrays (fuel + 17) c s =
      match nextCluster g s.disk c with
      | none => (.value 0, s.behind g (attributesToHide add exclusive) arrays c)
      | some b => directoryList reliable g add exclusive arrays (fuel + 16) b
          (s.behind g (attributesToHide add exclusive) arrays c) := by
  obtain ⟨hfirst, hend⟩ := endsFirst_of_hidden h hno hlast
  set s' := (s.loaded g c).visits (attributesToHide add exclusive) arrays c 16 with hs'
  have hstate : s'.toState = s.toState.loadCluster g c 0 := Listing.visits_toState ..
  have hdisk : s'.disk = s.disk := by rw [hstate, loadCluster_disk]
  have hread : fatRead reliable g c s'.toState
      = (.value (fatValue g s'.disk c : Nat), s'.toState.loadFat g 4 c) :=
    fatRead_fat32 h.toIsFat32 ht.1 (h.entOffset_lt c)
  rw [directoryList_transfers h ht, listSlots_first (k := 15) (by decide) hfirst, if_neg hend,
    ← hs', listNext_run h.toIsFat32 hread, hdisk]
  rfl

/-- Behind such a cluster the listing is that of the next one. -/
theorem listsExactly_cons_iff (hB : ∀ j < 16, B (c, j))
    (hno : ∀ e ∈ dirSlots g s.disk c, ¬IsEnd e)
    (hlast : ¬Shown (attributesToHide add exclusive) (dirSlot g s.disk c g.lastSlot))
    (hb : nextCluster g s.disk c = some b) :
    ListsExactly g add exclusive arrays B (c :: l) c s ↔
      ListsExactly g add exclusive arrays B l b
        (s.behind g (attributesToHide add exclusive) arrays c) := by
  -- the fuel is enough for the slots of the cluster, and the next one starts with one less
  have hpass (fuel : Nat) : directoryList reliable g add exclusive arrays (fuel + 17) c s
      = directoryList reliable g add exclusive arrays (fuel + 16) b
        (s.behind g (attributesToHide add exclusive) arrays c) := by
    rw [directoryList_passes h ht hno hlast, hb]
  have hadds := adds_behind (s := s) h (attributesToHide add exclusive) arrays hB
  rw [ListsExactly, ListsExactly, behind_disk, dirEntries_cons, shownEntries_append hno]
  constructor
  · rintro ⟨N, s', hrun, hall⟩
    have hrest : ∀ fuel ≥ N + 16, directoryList reliable g add exclusive arrays fuel b
        (s.behind g (attributesToHide add exclusive) arrays c) = (.value 0, s') := by
      intro fuel hfuel
      obtain ⟨m, rfl⟩ := Nat.exists_eq_add_of_le' (Nat.le_trans (Nat.le_add_left 16 N) hfuel)
      rw [← hpass]
      exact hrun _ (by omega)
    exact ⟨N + 16, s', hrest, hadds.of_append hall
      ((directoryList_records _ _ _ _ _ _ _).run (hrest _ le_rfl))⟩
  · rintro ⟨N, s', hrun, hall⟩
    refine ⟨N + 17, s', fun fuel hfuel => ?_, hadds.trans hall⟩
    obtain ⟨m, rfl⟩ := Nat.exists_eq_add_of_le' (Nat.le_trans (Nat.le_add_left 17 N) hfuel)
    rw [hpass]
    exact hrun _ (by omega)

/-- At the end of the chain the listing ends. -/
theorem listsExactly_singleton (hB : ∀ j < 16, B (c, j))
    (hno : ∀ e ∈ dirSlots g s.disk c, ¬IsEnd e)
    (hlast : ¬Shown (attributesToHide add exclusive) (dirSlot g s.disk c g.lastSlot))
    (hn : nextCluster g s.disk c = none) :
    ListsExactly g add exclusive arrays B [c] c s := by
  refine ⟨17, s.behind g (attributesToHide add exclusive) arrays c, fun fuel hfuel => ?_, ?_⟩
  · obtain ⟨m, rfl⟩ := Nat.exists_eq_add_of_le' hfuel
    rw [directoryList_passes h ht hno hlast, hn]
  · rw [dirEntries_cons, shownEntries_append hno]
    simpa [shownEntries, dirEntries] using adds_behind h (attributesToHide add exclusive) arrays hB

/-- A listing that leaves a cluster behind its last entry has looked at the memory there. -/
theorem not_listsExactly_of_shown (hB : ¬B (c, 16)) (hno : ∀ e ∈ dirSlots g s.disk c, ¬IsEnd e)
    (hlast : Shown (attributesToHide add exclusive) (dirSlot g s.disk c g.lastSlot)) :
    ¬ListsExactly g add exclusive arrays B l c s := by
  rintro ⟨N, s', hrun, -, places, hplaces, hall⟩
  by_cases hends : ∀ j < 2 ^ 32, ¬LoopEnds (s.loaded g c).mem g (attributesToHide add exclusive) j
  · have hloop := hrun (N + 1) (Nat.le_succ N)
    rw [directoryList_transfers h ht] at hloop
    have hstop : (listSlots reliable g (attributesToHide add exclusive) arrays c
        (directoryList reliable g add exclusive arrays N) N 0 (s.loaded g c)).1
          = .stop .exhausted := listSlots_endless hends (by decide)
    rw [hloop] at hstop
    cases hstop
  · obtain ⟨k, hk, hfirst⟩ := exists_endsFirst hends
    have hle : 16 ≤ k := by
      by_contra hlt
      exact not_ends_of_shown h hno hlast (Nat.lt_of_not_le hlt) hfirst.1
    have hloop := hrun (N + 1 + k + 1) (by omega)
    rw [directoryList_transfers h ht, listSlots_first hk hfirst] at hloop
    -- however the call goes on, the place behind the cluster is on record
    have hrec : ((s.loaded g c).visits (attributesToHide add exclusive) arrays c (k + 1)).Records
        s' := by
      split at hloop
      · cases hloop
        exact .refl _
      · exact (listNext_records (directoryList_records _ _ _ _ _ _)).run hloop
    have hpre := hrec.examined
    rw [Listing.visits_examined, hplaces] at hpre
    have hin : (c, 16) ∈ (List.range (k + 1)).map (Prod.mk c) :=
      List.mem_map_of_mem (List.mem_range.mpr (by omega))
    exact hB (hall _ (((List.prefix_append_right_inj _).mp hpre).subset hin))

/-- What the first cluster decides by itself. -/
theorem listsExactly_first {P : Prop} (hB : ∀ j, B (c, j) ↔ j < 16)
    (hrest : (∀ e ∈ dirSlots g s.disk c, ¬IsEnd e) →
      ¬Shown (attributesToHide add exclusive) (dirSlot g s.disk c g.lastSlot) →
      (ListsExactly g add exclusive arrays B (c :: l) c s ↔ P)) :
    ListsExactly g add exclusive arrays B (c :: l) c s ↔
      ((∀ e ∈ dirSlots g s.disk c, ¬IsEnd e) →
        ¬Shown (attributesToHide add exclusive) (dirSlot g s.disk c g.lastSlot) ∧ P) := by
  by_cases hno : ∀ e ∈ dirSlots g s.disk c, ¬IsEnd e
  · by_cases hshown : Shown (attributesToHide add exclusive) (dirSlot g s.disk c g.lastSlot)
    · refine iff_of_false ?_ fun hall => (hall hno).1 hshown
      exact not_listsExactly_of_shown h ht (by simp [hB]) hno hshown
    · rw [hrest hno hshown]
      exact ⟨fun hP _ => ⟨hshown, hP⟩, fun hall => (hall hno).2⟩
  · refine iff_of_true ?_ fun hno' => absurd hno' hno
    exact listsExactly_of_end h ht (fun j => (hB j).mpr) hno

end

/-- A chain is listed if and only if the last entry of no cluster in front of the end is shown. -/
theorem listsExactly_iff_lastsHidden (h : g.Single) (hch : ChainFrom (nextCluster g s.disk) c l)
    (ht : ∀ a ∈ l, g.Transfers a) (hB : ∀ a ∈ l, ∀ j, B (a, j) ↔ j < 16) :
    ListsExactly g add exclusive arrays B l c s
      ↔ LastsHidden g s.disk (attributesToHide add exclusive) l := by
  generalize hd : s.disk = d at hch ⊢
  induction hch generalizing s with
  | @last c hn =>
      subst hd
      have ht' := ht c List.mem_cons_self
      have hB' := hB c List.mem_cons_self
      refine listsExactly_first h ht' hB' fun hno hlast => iff_of_true ?_ trivial
      exact listsExactly_singleton h ht' (fun j => (hB' j).mpr) hno hlast hn
  | @cons c b l hb hl ih =>
      subst hd
      have ht' := ht c List.mem_cons_self
      have hB' := hB c List.mem_cons_self
      refine listsExactly_first h ht' hB' fun hno hlast => ?_
      rw [listsExactly_cons_iff h ht' (fun j => (hB' j).mpr) hno hlast hb]
      exact ih (fun a ha => ht a (List.mem_cons_of_mem _ ha))
        (fun a ha => hB a (List.mem_cons_of_mem _ ha)) behind_disk

end

/-! ### Two directories -/

/-- A listing of the volume from the start. -/
def listingOf (s : State) : Listing := { s with examined := [], printed := [], events := [] }

/-- The volume with 16 entries in its root directory, and what follows the cluster in memory. -/
def fullRootState (behind : UInt8) : State :=
  { smallState (fun c => if c = 2 then endCluster32 else 0) fun i =>
      (letterEntry 0x41).bytes (i % 32) with
    mem := fun _ => behind }

end PotatoOS
