/-
PotatoOS/Atomic.lean

What a failed `putFile` leaves behind, on a drive whose transfers may fail.

Every operation on a table entry or on a cluster either fails and leaves the
disk alone, or does what it does on the reliable drive (`fatRead_any` and the
lemmas beside it).  The first write of a `putFile` is always the end mark of
a free cluster, and no later write frees a cluster again (`Stays`): there is
no way back.  So a call that fails has changed nothing, or it has passed all
its checks and has left a cluster marked as used.

Main result: `putFile_unchanged_or_leaked`.
-/
import PotatoOS.Read

namespace PotatoOS

open Prog

/-! ### Transfers that may fail -/

section

variable {g : Globals} {env : Env} {n off c v : Nat} {s : State}

/-- A failed lookup returns -1; any other is that of the reliable drive. -/
theorem fatRead_any (h : g.IsFat32) (env : Env) (c : Nat) (s : State) :
    fatRead env g c s = (.value (-1), s.miss) ∨ fatRead env g c s = fatRead reliable g c s := by
  have hcs : ¬ g.clusterSize = 0 := h.toBlocks512.clusterSize_pos.ne'
  have hentry : readEntry env g 4 (some 0) c s = (.value none, s.miss) ∨
      readEntry env g 4 (some 0) c s = readEntry reliable g 4 (some 0) c s := by
    simp only [readEntry, if_neg hcs]
    rcases int13hReadO_any env (g.fatSector 4 c) 0 s with hr | hr
    · exact .inl (bind_value hr)
    · exact .inr (bind_congr_left hr)
  rw [fatRead, fatRead]
  split
  · exact .inr rfl
  · rw [if_pos h.fatType, if_pos h.fatType]
    rcases hentry with hr | hr
    · exact .inl (bind_value hr)
    · exact .inr (bind_congr_left hr)

/-- A failed update leaves the disk alone. -/
theorem fatWrite_any (h : g.IsFat32) (env : Env) (c v : Nat) (s : State) :
    (∃ s', fatWrite env g c v s = (.value (-1), s') ∧ s'.disk = s.disk) ∨
      fatWrite env g c v s = fatWrite reliable g c v s := by
  rw [fatWrite, fatWrite]
  split
  · exact .inr rfl
  rw [if_pos h.fatType, if_pos h.fatType]
  have hcs : ¬ g.clusterSize = 0 := h.toBlocks512.clusterSize_pos.ne'
  have hbps : ¬ g.bytesPerSector > fatTableSize := by
    rw [h.bytesPerSector]
    decide
  simp only [writeEntry, if_neg hcs, if_neg hbps]
  rcases int13hReadO_any env (g.fatSector 4 c) 0 s with hr | hr
  · exact .inl ⟨s.miss, bind_value hr, rfl⟩
  -- the sector was read: only its write can fail now
  have hr₀ : int13hReadO reliable (g.fatSector 4 c) 1 0 s
      = (.value 0, s.loads (partStartLba + g.fatSector 4 c) ((diskLocation + 0) % 2 ^ 32) 1) :=
    int13hReadO_reliable s 0 (h.toBlocks512.fatSector_lt 4 c).2 (by decide)
  have hbind : ∀ {f : Int → Prog State Int}, (int13hRead env (g.fatSector 4 c) 1 >>= f) s
      = f 0 (s.loads (partStartLba + g.fatSector 4 c) ((diskLocation + 0) % 2 ^ 32) 1) :=
    bind_value (hr.trans hr₀)
  have hbind₀ : ∀ {f : Int → Prog State Int}, (int13hRead reliable (g.fatSector 4 c) 1 >>= f) s
      = f 0 (s.loads (partStartLba + g.fatSector 4 c) ((diskLocation + 0) % 2 ^ 32) 1) :=
    bind_value hr₀
  rw [hbind, hbind₀]
  simp only [ne_eq, not_true_eq_false, if_false]
  split
  · exact .inr rfl
  · simp only [modify_bind]
    generalize hs₁ : State.mk _ _ _ _ = s₁
    have hd : s₁.disk = s.disk := by
      rw [← hs₁]
      exact State.loads_disk _ _ _ _
    rcases int13hWriteO_any env (g.fatSector 4 c) 0 s₁ with hw | hw
    · exact .inl ⟨s₁.miss, bind_value hw, hd⟩
    · exact .inr (bind_congr_left hw)

/-- A failed cluster write leaves the disk alone. -/
theorem clusterWrite_any (h : g.OneSector) (env : Env) (contents : Mem) (size off c : Nat)
    (s : State) :
    (∃ s', clusterWrite env g contents size off c s = (.value (-1), s') ∧ s'.disk = s.disk) ∨
      clusterWrite env g contents size off c s = clusterWrite reliable g contents size off c s := by
  rw [clusterWrite, clusterWrite]
  split
  · exact .inr rfl
  · simp only [modify_bind, h.one]
    rcases int13hWriteO_any env (g.startSect c) (off * 1 * g.bytesPerSector % 2 ^ 32)
      { s with mem := memcpy32 s.mem (diskLocation + off * 1 * g.bytesPerSector % 2 ^ 32)
                contents size } with hw | hw
    · exact .inl ⟨_, bind_value hw, rfl⟩
    · exact .inr (bind_congr_left hw)

/-- An allocation that fails leaves the disk alone; one that does not marks a
free cluster. -/
theorem allocate_any (h : g.OneSector) (env : Env) (s : State) :
    ∃ x s', allocateFreeFAT env g s = (.value x, s') ∧
      ((x = badCluster32 ∧ s'.disk = s.disk) ∨
        (g.InRange x ∧ fatValue g s.disk x = 0 ∧ s'.disk = setFat g s.disk x endCluster32)) := by
  have hloop : ∀ n c s, 2 ≤ c → c + n ≤ g.totalClusters → ∃ x s',
      allocLoop env g freeCluster32 badCluster32 endCluster32 n c s = (.value x, s') ∧
      ((x = badCluster32 ∧ s'.disk = s.disk) ∨
        (g.InRange x ∧ fatValue g s.disk x = 0 ∧
          s'.disk = setFat g s.disk x endCluster32)) := by
    intro n
    induction n with
    | zero => exact fun c s _ _ => ⟨_, s, rfl, .inl ⟨rfl, rfl⟩⟩
    | succ n ih =>
        intro c s h₂ hle
        have hc : g.InRange c := ⟨h₂, by omega⟩
        rw [allocLoop]
        rcases fatRead_any h.toIsFat32 env c s with hr | hr
        · -- a failed read counts as a taken cluster
          obtain ⟨x, s', hrun, hx⟩ := ih (c + 1) s.miss (by omega) (by omega)
          exact ⟨x, s', (bind_value hr).trans hrun, hx⟩
        · rw [fatRead_eq h hc] at hr
          rw [scan_state, bind_value hr, toUnsigned_fatValue]
          by_cases hfree : fatValue g s.disk c = freeCluster32
          · rw [if_pos hfree]
            rcases fatWrite_any h.toIsFat32 env c endCluster32 (s.loadFat g 4 c) with
              ⟨s', hw, hd⟩ | hw
            · exact ⟨_, s', bind_value hw, .inl ⟨rfl, hd⟩⟩
            · obtain ⟨s', hw', hd, -⟩ := fatWrite_spec (s := s.loadFat g 4 c) h hc endCluster32
              exact ⟨c, s', bind_value (hw.trans hw'), .inr ⟨hc, hfree, hd⟩⟩
          · rw [if_neg hfree]
            exact ih (c + 1) _ (by omega) (by omega)
  rw [allocateFreeFAT, if_pos h.fatType]
  by_cases htot : 2 ≤ g.totalClusters
  · exact hloop _ 2 s (Nat.le_refl 2) (by omega)
  · rw [show g.totalClusters - 2 = 0 by omega]
    exact ⟨_, s, rfl, .inl ⟨rfl, rfl⟩⟩

end

/-! ### Clusters in use stay in use -/

/-- No cluster that is in use has become free. -/
def Stays (g : Globals) (s s' : State) : Prop :=
  ∀ x, g.InRange x → fatValue g s.disk x ≠ 0 → fatValue g s'.disk x ≠ 0

/-- A free cluster has come into use. -/
def Leaked (g : Globals) (s s' : State) : Prop :=
  ∃ x, g.InRange x ∧ fatValue g s.disk x = 0 ∧ fatValue g s'.disk x ≠ 0

section

variable {g : Globals} {env : Env} {s s₁ s₂ : State} {x v : Nat}

theorem Stays.of_disk (hd : s₁.disk = s.disk) : Stays g s s₁ := fun x _ hx => by rwa [hd]

theorem Stays.refl (g : Globals) (s : State) : Stays g s s := .of_disk rfl

theorem Stays.trans (h₁ : Stays g s s₁) (h₂ : Stays g s₁ s₂) : Stays g s s₂ :=
  fun x hx hv => h₂ x hx (h₁ x hx hv)

theorem Leaked.trans (h₁ : Leaked g s s₁) (h₂ : Stays g s₁ s₂) : Leaked g s s₂ := by
  obtain ⟨x, hx, hfree, hused⟩ := h₁
  exact ⟨x, hx, hfree, h₂ x hx hused⟩

theorem Stays.setFat (h : g.OneSector) (hx : g.InRange x) (h₀ : v ≠ 0) (hv : v < 2 ^ 28)
    (hd : s₁.disk = PotatoOS.setFat g s.disk x v) : Stays g s s₁ := by
  intro y hy hused
  rw [hd]
  by_cases hyx : y = x
  · rwa [hyx, fatValue_setFat_same h hv]
  · rwa [fatValue_setFat_ne h hx hy hyx]

theorem fatWrite_stays (h : g.OneSector) (x : Nat) (h₀ : v ≠ 0) (hv : v < 2 ^ 28) :
    Keeps (Stays g) (fatWrite env g x v) := by
  intro s
  rcases fatWrite_any h.toIsFat32 env x v s with ⟨s', hw, hd⟩ | hw
  · rw [hw]
    exact .of_disk hd
  · by_cases hx : g.InRange x
    · obtain ⟨s', hw', hd, -⟩ := fatWrite_spec (s := s) h hx v
      rw [hw, hw']
      exact .setFat h hx h₀ hv hd
    · rw [Globals.InRange] at hx
      rw [hw, fatWrite, if_pos (by omega)]
      exact .refl g s

theorem clusterWrite_stays (h : g.IsVolume) (contents : Mem) (size : Nat) {off : Nat}
    (hoff : off ≤ 1) (x : Nat) : Keeps (Stays g) (clusterWrite env g contents size off x) := by
  intro s
  rcases clusterWrite_any h.toOneSector env contents size off x s with ⟨s', hw, hd⟩ | hw
  · rw [hw]
    exact .of_disk hd
  · by_cases hp : g.OnPartition x
    swap
    · obtain ⟨s', hw', hd⟩ := clusterWrite_offPartition (s := s) h.toOneSector hp contents size off
      rw [hw, hw']
      exact .of_disk hd
    by_cases hx : g.InRange x
    · obtain ⟨s', hw', -, hd⟩ :=
        clusterWrite_spec (s := s) h.toOneSector hx hp contents size off hoff
      rw [hw, hw']
      intro y hy hused
      rwa [hd, fatValue_setData h hx hy]
    · rw [Globals.InRange] at hx
      rw [hw, clusterWrite, if_pos (by omega)]
      exact .refl g s

theorem allocate_stays (h : g.OneSector) {α : Type} {f : Nat → Prog State α}
    (hbad : Keeps (Stays g) (f badCluster32)) (hf : ∀ x, g.InRange x → Keeps (Stays g) (f x)) :
    Keeps (Stays g) (allocateFreeFAT env g >>= f) := by
  intro s
  obtain ⟨x, s₁, hrun, ⟨rfl, hd⟩ | ⟨hx, hfree, hd⟩⟩ := allocate_any h env s
  · rw [bind_value hrun]
    exact (Stays.of_disk hd).trans (hbad s₁)
  · rw [bind_value hrun]
    exact (Stays.setFat h hx (by decide) (by decide) hd).trans (hf x hx s₁)

/-- A cluster number is a link that marks no cluster as free. -/
theorem link_stays (h : g.OneSector) (c : Nat) (hx : g.InRange x) :
    Keeps (Stays g) (fatWrite env g c x) := by
  have hlt := h.lt_of_inRange hx
  have hx₂ := hx.1
  rw [badCluster32] at hlt
  exact fatWrite_stays h c (by omega) (by omega)

end

/-! ### Failing cleanly -/

/-- A run has changed nothing and reports a failure, or it has brought a free
cluster into use; in both cases no used cluster has become free. -/
def EndsClean (g : Globals) (s : State) (r : Outcome (Int × DirectoryEntry) × State) : Prop :=
  Stays g s r.2 ∧ ((r.2.disk = s.disk ∧ ∀ v, r.1 = .value v → v.1 ≠ 0) ∨ Leaked g s r.2)

/-- Every run of the program ends like that. -/
def FailsClean (g : Globals) (m : Prog State (Int × DirectoryEntry)) : Prop :=
  ∀ s, EndsClean g s (m s)

/-- Only the disk of the state before matters. -/
theorem EndsClean.of_disk {g : Globals} {s s₁ : State}
    {r : Outcome (Int × DirectoryEntry) × State} (hd : s₁.disk = s.disk)
    (h : EndsClean g s₁ r) : EndsClean g s r := by
  rw [EndsClean, Stays, Leaked, ← hd]
  exact h

namespace FailsClean

variable {g : Globals} {env : Env} {α : Type}

theorem stays {m : Prog State (Int × DirectoryEntry)} (h : FailsClean g m) :
    Keeps (Stays g) m := fun s => (h s).1

theorem pure {code : Int} (hcode : code ≠ 0) (e : DirectoryEntry) :
    FailsClean g (Pure.pure (code, e)) := by
  refine fun s => ⟨.refl g s, .inl ⟨rfl, fun r hr => ?_⟩⟩
  cases hr
  exact hcode

theorem halt (e : Stop) : FailsClean g (Prog.halt e) :=
  fun s => ⟨.refl g s, .inl ⟨rfl, fun _ h => by cases h⟩⟩

theorem ite {p : Prop} [Decidable p] {m₁ m₂ : Prog State (Int × DirectoryEntry)}
    (h₁ : FailsClean g m₁) (h₂ : FailsClean g m₂) : FailsClean g (if p then m₁ else m₂) := by
  split
  · exact h₁
  · exact h₂

/-- What only reads may come first. -/
theorem read_bind {m : Prog State α} {f : α → Prog State (Int × DirectoryEntry)}
    (hm : Keeps (fun s s' => s'.disk = s.disk) m) (hf : ∀ a, FailsClean g (f a)) :
    FailsClean g (m >>= f) := by
  intro s
  have hd := hm s
  rcases hrun : m s with ⟨a | e, s₁⟩
  · rw [hrun] at hd
    rw [bind_value hrun]
    exact (hf a s₁).of_disk hd
  · rw [hrun] at hd
    rw [bind_stop hrun]
    exact ⟨.of_disk hd, .inl ⟨hd, fun _ h => by cases h⟩⟩

/-- Behind an allocation everything is permitted that frees no cluster. -/
theorem allocate_bind (h : g.OneSector) {f : Nat → Prog State (Int × DirectoryEntry)}
    (hbad : FailsClean g (f badCluster32)) (hf : ∀ x, g.InRange x → Keeps (Stays g) (f x)) :
    FailsClean g (allocateFreeFAT env g >>= f) := by
  intro s
  obtain ⟨x, s₁, hrun, ⟨rfl, hd⟩ | ⟨hx, hfree, hd⟩⟩ := allocate_any h env s
  · rw [bind_value hrun]
    exact (hbad s₁).of_disk hd
  · rw [bind_value hrun]
    have hmark : Stays g s s₁ := .setFat h hx (by decide) (by decide) hd
    have hleak : Leaked g s s₁ := ⟨x, hx, hfree, by
      rw [hd, fatValue_setFat_same h (by decide)]
      decide⟩
    exact ⟨hmark.trans (hf x hx s₁), .inr (hleak.trans (hf x hx s₁))⟩

/-- Behind a program that fails cleanly, a failure is passed on and anything
that frees no cluster may follow a success. -/
theorem bind {m : Prog State (Int × DirectoryEntry)}
    {f : Int × DirectoryEntry → Prog State (Int × DirectoryEntry)} (hm : FailsClean g m)
    (hfail : ∀ r, r.1 ≠ 0 → FailsClean g (f r)) (hf : ∀ r, Keeps (Stays g) (f r)) :
    FailsClean g (m >>= f) := by
  intro s
  obtain ⟨hstays, hend⟩ := hm s
  rcases hrun : m s with ⟨r | e, s₁⟩
  · rw [hrun] at hstays hend
    rw [bind_value hrun]
    rcases hend with ⟨hd, hcode⟩ | hleak
    · exact (hfail r (hcode r rfl) s₁).of_disk hd
    · exact ⟨hstays.trans (hf r s₁), .inr (hleak.trans (hf r s₁))⟩
  · rw [hrun] at hstays hend
    rw [bind_stop hrun]
    refine ⟨hstays, hend.imp ?_ id⟩
    rintro ⟨hd, -⟩
    exact ⟨hd, fun _ h => by cases h⟩

end FailsClean

section

variable {g : Globals} {env : Env}

theorem isBadMark_badCluster32 (h : g.IsFat32) : g.isBadMark badCluster32 :=
  (h.isBadMark_iff _).mpr rfl

theorem storeEntry_failsClean (h : g.IsVolume) (e : DirectoryEntry) (c count : Nat) :
    FailsClean g (storeEntry env g e c count) := by
  rw [storeEntry]
  refine .ite (.pure (by decide) _) (.allocate_bind h.toOneSector ?_ fun x hx => ?_)
  · rw [if_pos (isBadMark_badCluster32 h.toIsFat32)]
    exact .pure (by decide) _
  · refine .ite (.pure (.refl g) _) ?_
    refine .bind .trans (.modify fun s => .of_disk rfl) fun _ => ?_
    refine .bind .trans (.gets (.refl g) _) fun mem => ?_
    refine .bind .trans (clusterWrite_stays h _ _ (by decide) c) fun r => ?_
    exact .ite (.pure (.refl g) _) (.pure (.refl g) _)

theorem addGrow_failsClean (h : g.IsVolume) (e : DirectoryEntry) (c : Nat)
    {next : Nat → Prog State (Int × DirectoryEntry)} (hnext : ∀ b, FailsClean g (next b)) :
    FailsClean g (addGrow env g e c next) := by
  rw [addGrow]
  refine .allocate_bind h.toOneSector ?_ fun x hx => ?_
  · rw [if_pos (isBadMark_badCluster32 h.toIsFat32)]
    exact .pure (by decide) _
  · refine .ite (.pure (.refl g) _) ?_
    refine .bind .trans (link_stays h.toOneSector c hx) fun r => ?_
    exact .ite (.pure (.refl g) _) (hnext x).stays

theorem addSlots_failsClean (h : g.IsVolume) (e : DirectoryEntry) (c : Nat)
    {next : Nat → Prog State (Int × DirectoryEntry)} (hnext : ∀ b, FailsClean g (next b))
    (n count : Nat) : FailsClean g (addSlots env g e c next n count) := by
  have hslot : ∀ count {m : Prog State (Int × DirectoryEntry)}, FailsClean g m →
      FailsClean g (addSlot env g e c count m) := fun count m hm =>
    .read_bind (.gets readInv_disk.refl _) fun _ => .ite hm (storeEntry_failsClean h e c count)
  induction n generalizing count with
  | zero =>
      refine hslot count (.read_bind (fatRead_keeps readInv_disk c) fun v => ?_)
      exact .ite (addGrow_failsClean h e c hnext) (hnext _)
  | succ n ih => exact hslot count (ih (count + 1))

theorem directoryAdd_failsClean (h : g.IsVolume) (e : DirectoryEntry) (fuel c : Nat) :
    FailsClean g (directoryAdd env g e fuel c) := by
  induction fuel generalizing c with
  | zero => exact .halt _
  | succ fuel ih =>
      rw [directoryAdd]
      refine .ite (.pure (by decide) _) ?_
      refine .read_bind (clusterRead_keeps readInv_disk c) fun r => ?_
      exact .ite (.pure (by decide) _) (addSlots_failsClean h e c ih _ 0)

/-- Writing the contents frees no cluster. -/
theorem writeLoop_stays (h : g.IsVolume) (contents : Mem) (size fuel left c : Nat) :
    Keeps (Stays g) (writeLoop env g contents size fuel left c) := by
  induction fuel generalizing left c with
  | zero => exact .halt (.refl g) _
  | succ fuel ih =>
      rw [writeLoop]
      refine .ite (.pure (.refl g) _) ?_
      refine .bind .trans (clusterWrite_stays h _ _ (Nat.le_refl 1) c) fun r => ?_
      refine .ite (.pure (.refl g) _) (.ite (.pure (.refl g) _) ?_)
      refine allocate_stays h.toOneSector ?_ fun x hx => ?_
      · rw [if_pos (isBadMark_badCluster32 h.toIsFat32)]
        exact .pure (.refl g) _
      · refine .ite (.pure (.refl g) _) ?_
        refine .bind .trans (link_stays h.toOneSector c hx) fun r => ?_
        exact .ite (.pure (.refl g) _) (ih _ _)

end

/-! ### The checks -/

section

variable {R : State → State → Prop} {env : Env} {g : Globals}

theorem findDirectory_keeps (hR : ReadInv R) (fuel : Nat) (path : CString) :
    Keeps R (findDirectory env g fuel path) :=
  .ite (hR.pure _) (walkPath_keeps hR fuel path)

/-- The checks of `putFile` only read. -/
theorem putTarget_keeps (hR : ReadInv R) (fuel : Nat) (path : CString) (e : DirectoryEntry)
    (output : Mem) : Keeps R (putTarget env g fuel path e output) := by
  rw [putTarget]
  refine .ite (hR.pure _) (.ite (hR.pure _) ?_)
  refine hR.bind (findDirectory_keeps hR fuel path) fun walked => ?_
  split
  · exact hR.pure _
  · refine hR.bind (directorySearch_keeps hR _ fuel _) fun r => ?_
    split
    · exact hR.pure _
    · refine .ite (hR.pure _) ?_
      split
      · exact hR.halt _
      · exact .ite (hR.pure _) (hR.pure _)

end

/-! ### A failed `putFile` -/

section

variable {g : Globals} {env : Env} {s s' : State} {fuel : Nat} {path : CString} {contents : Mem}
  {e e' : DirectoryEntry} {output output' : Mem} {code : Int}

theorem putStore_failsClean (h : g.IsVolume) (fuel : Nat) (contents : Mem) (e : DirectoryEntry)
    (output : Mem) (c : Nat) : FailsClean g (putStore env g fuel contents e output c) := by
  rw [putStore]
  refine .bind (directoryAdd_failsClean h e fuel c) (fun r hr => ?_) fun r => ?_
  · show FailsClean g (if r.1 ≠ 0 then _ else _)
    rw [if_pos hr]
    exact .pure (by decide) _
  · -- behind the insertion all clusters that are written belong to the file
    have hsearch : Keeps (Stays g)
        (directorySearch env g (convertFromFATFormat r.2.bytes output) fuel c) :=
      fun s => .of_disk (directorySearch_keeps readInv_disk _ fuel c s)
    refine .ite (.pure (.refl g) _) (.bind .trans hsearch fun found => ?_)
    split
    · exact .pure (.refl g) _
    · exact .bind .trans (writeLoop_stays h _ _ _ _ _) fun _ => .pure (.refl g) _

/-- A `putFile` that returns, in particular one that fails, has left the disk
as it was, or it has passed all its checks and has left a free cluster marked
as used. -/
theorem putFile_unchanged_or_leaked (h : g.IsVolume)
    (hrun : putFile env g fuel path contents e output output' s = (.value (code, e'), s')) :
    s'.disk = s.disk ∨
      (∃ c s₁, putTarget env g fuel path e output s = (.value (.ok c), s₁)) ∧ Leaked g s s' := by
  rw [putFile] at hrun
  obtain ⟨r, s₁, htarget, hrest⟩ := bind_eq_value hrun
  have hd : s₁.disk = s.disk := (putTarget_keeps readInv_disk fuel path e output).run htarget
  rcases r with code' | c
  · cases hrest
    exact .inl hd
  · have hclean : EndsClean g s (putStore env g fuel contents e output' c s₁) :=
      (putStore_failsClean h fuel contents e output' c s₁).of_disk hd
    rw [show putStore env g fuel contents e output' c s₁ = _ from hrest] at hclean
    rcases hclean.2 with ⟨hsame, -⟩ | hleak
    · exact .inl hsame
    · exact .inr ⟨⟨c, s₁, htarget⟩, hleak⟩

end

/-! ### A volume with one free cluster -/

/-- Two clusters: the root directory and one more. -/
def tinyVolume : Globals :=
  { smallVolume with totalClusters := 4, totalClusters_lt := by decide }

/-- An entry for 600 bytes. -/
def longEntry : DirectoryEntry := (letterEntry 0x42).setField 28 4 600

/-- The code that a run returns. -/
def returnCode : Outcome (Int × DirectoryEntry) → Option Int
  | .value r => some r.1
  | .stop _ => none

/-- A file of two clusters for a volume that has one left. -/
def shortOfSpace : Outcome (Int × DirectoryEntry) × State :=
  putFile reliable tinyVolume 3 rootPath (fun _ => 0x55) longEntry (fun _ => 0) (fun _ => 0)
    emptyState

theorem tinyVolume_isVolume : tinyVolume.IsVolume where
  bytesPerSector := rfl
  one_le := by decide
  le := by decide
  fatType := rfl
  one := rfl
  numbered := by decide
  addressed := by decide
  table := by decide

theorem returnCode_shortOfSpace : returnCode shortOfSpace.1 = some (-1) := by decide +kernel

/-- The call fails for want of a second cluster; the first has come into use. -/
theorem leaked_shortOfSpace :
    shortOfSpace.2.disk = emptyState.disk ∨
      (∃ c s₁, putTarget reliable tinyVolume 3 rootPath longEntry (fun _ => 0) emptyState
        = (.value (.ok c), s₁)) ∧ Leaked tinyVolume emptyState shortOfSpace.2 := by
  rcases hrun : shortOfSpace with ⟨⟨code, e⟩ | stop, s'⟩
  · exact putFile_unchanged_or_leaked tinyVolume_isVolume hrun
  · have := returnCode_shortOfSpace
    rw [hrun] at this
    cases this

/-- The mark of the first cluster is not taken back. -/
theorem not_unchanged_shortOfSpace :
    tinyVolume.IsVolume ∧ returnCode shortOfSpace.1 = some (-1) ∧
      fatValue tinyVolume emptyState.disk 3 = 0 ∧
      fatValue tinyVolume shortOfSpace.2.disk 3 = endCluster32 :=
  ⟨tinyVolume_isVolume, returnCode_shortOfSpace, by decide, by decide +kernel⟩

end PotatoOS
