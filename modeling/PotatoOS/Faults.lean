/-
PotatoOS/Faults.lean

Table sectors that cannot be read: what the callers of `FATRead` make of -1.

`allocateFreeFAT`, `directoryList` and `directoryAdd` keep the result in an
unsigned variable.  So the test for a negative result never holds, and -1
passes for a taken cluster or for an end mark.

`Passes` says which clusters the allocator passes over, `ListFaults` and
`AddFaults` which way from cluster to cluster leads to a link that cannot be
read.  Main result: `faultsStop_iff`, on a volume of any geometry.
-/
import PotatoOS.Listing
import PotatoOS.Refused

namespace PotatoOS

open Prog

/-! ### Faults on record -/

/-- Whenever the fault is on record, the call has failed and wrote nothing afterwards. -/
def StopsAt {α : Type} (fault : Incident) (failed : Outcome α → Prop) (o : Outcome α)
    (events : List Incident) : Prop :=
  ∀ before after, events = before ++ fault :: after → failed o ∧ .write ∉ after

section

variable {α : Type} {fault : Incident} {failed : Outcome α → Prop} {o : Outcome α}
  {before after events : List Incident}

theorem stopsAt_of_notMem (h : fault ∉ events) : StopsAt fault failed o events := by
  rintro before after rfl
  exact absurd (List.mem_append_right _ List.mem_cons_self) h

theorem stopsAt_of_failed (ho : failed o) (h : .write ∉ events) :
    StopsAt fault failed o events := by
  rintro before after rfl
  exact ⟨ho, fun hw => h (List.mem_append_right _ (List.mem_cons_of_mem _ hw))⟩

/-- Only what follows the first fault matters. -/
theorem stopsAt_append (hb : fault ∉ before) (h : StopsAt fault failed o after) :
    StopsAt fault failed o (before ++ after) := by
  intro b a hba
  rcases List.append_eq_append_iff.mp hba with ⟨l, rfl, hl⟩ | ⟨l, rfl, hl⟩
  · exact h l a hl
  · rcases l with - | ⟨x, l⟩
    · exact h [] a hl.symm
    · obtain ⟨rfl, -⟩ := List.cons.inj hl
      exact absurd (List.mem_append_right _ List.mem_cons_self) hb

theorem not_stopsAt (h : ¬failed o ∨ .write ∈ after) :
    ¬StopsAt fault failed o (before ++ fault :: after) := by
  intro hs
  obtain ⟨ho, hw⟩ := hs before after rfl
  exact h.elim (fun hno => hno ho) hw

/-- A call that did not fail, or wrote at its end, stops at no fault that is on record. -/
theorem stopsAt_iff_notMem (hf : fault ≠ .write)
    (h : ¬failed o ∨ ∃ l, events = l ++ [.write]) :
    StopsAt fault failed o events ↔ fault ∉ events := by
  refine ⟨fun hs hmem => ?_, stopsAt_of_notMem⟩
  obtain ⟨before, after, rfl⟩ := List.append_of_mem hmem
  refine not_stopsAt (h.imp_right fun ⟨l, hl⟩ => ?_) hs
  -- the last event is the write, not the fault
  rcases List.eq_nil_or_concat' after with rfl | ⟨after', x, rfl⟩
  · exact absurd (List.append_inj_right' hl rfl) (by simpa using hf)
  · rw [← List.cons_append, ← List.append_assoc] at hl
    rw [List.append_inj_right' hl rfl]
    exact List.mem_append_right _ List.mem_cons_self

end

/-! ### The allocator -/

/-- The scan of the allocator passes over the cluster: its entry cannot be read or is not zero. -/
def Passes (g : Globals) (F : Nat → Bool) (d : Disk) (m : Mem) (c : Nat) : Prop :=
  Missed g F c ∨ ∃ v, v ≠ 0 ∧ Peeks g F d m c v

/-- The cluster at which the scan ends. -/
structure ScanEnds (g : Globals) (F : Nat → Bool) (d : Disk) (m : Mem) (x : Nat) : Prop where
  inRange : g.InRange x
  ends : ¬Passes g F d m x
  least : ∀ c, 2 ≤ c → c < x → Passes g F d m c

instance (g : Globals) (F : Nat → Bool) (c : Nat) : Decidable (Fetches g F c) :=
  inferInstanceAs (Decidable (_ ∧ _))

instance (g : Globals) (F : Nat → Bool) : DecidablePred (Missed g F) := fun _ =>
  inferInstanceAs (Decidable (_ ∧ _))

/-- The faults of the scan over `n` clusters. -/
def scanFaults (g : Globals) (F : Nat → Bool) (c n : Nat) : List Incident :=
  ((List.range' c n).filter (Missed g F ·)).map fun _ => .scanFault

section

variable {g : Globals} {F : Nat → Bool} {d : Disk} {m : Mem} {c n k v x : Nat}

theorem scanFaults_succ (c n : Nat) :
    scanFaults g F c (n + 1)
      = (if Missed g F c then [.scanFault] else []) ++ scanFaults g F (c + 1) n := by
  rw [scanFaults, List.range'_succ, List.filter_cons]
  by_cases h : Missed g F c
  · simp [h, scanFaults]
  · simp [h, scanFaults]

theorem mem_scanFaults {e : Incident} : e ∈ scanFaults g F c n ↔
    e = .scanFault ∧ ∃ y, c ≤ y ∧ y < c + n ∧ Missed g F y := by
  simp only [scanFaults, List.mem_map, List.mem_filter, List.mem_range'_1, decide_eq_true_eq]
  constructor
  · rintro ⟨y, ⟨⟨h₁, h₂⟩, hy⟩, rfl⟩
    exact ⟨rfl, y, h₁, h₂, hy⟩
  · rintro ⟨rfl, y, h₁, h₂, hy⟩
    exact ⟨y, ⟨⟨h₁, h₂⟩, hy⟩, rfl⟩

theorem Peeks.congr {m' : Mem} (h : ∀ a, a < diskLocation ∨ diskLocation + 512 ≤ a → m' a = m a) :
    Peeks g F d m' c v ↔ Peeks g F d m c v := by
  rw [Peeks, Peeks, peek, peek, tableMem_congr h]

/-- A sector of the table in the buffer is what the memory of a scan may differ in. -/
theorem beside_tableMem {s : State} (hd : s.disk = d) (hm : s.mem = tableMem g d m c) :
    Beside d m s := by
  refine ⟨hd, fun a ha => ?_⟩
  rw [hm, tableMem, memcpy_apply_of_notMem ha]

theorem ScanEnds.unique {y : Nat} (hx : ScanEnds g F d m x) (hy : ScanEnds g F d m y) : x = y := by
  rcases Nat.lt_trichotomy x y with hlt | rfl | hlt
  · exact absurd (hy.least x hx.inRange.1 hlt) hx.ends
  · rfl
  · exact absurd (hx.least y hy.inRange.1 hlt) hy.ends

theorem exists_scanEnds_or_passes (g : Globals) (F : Nat → Bool) (d : Disk) (m : Mem) :
    (∃ x, ScanEnds g F d m x) ∨ ∀ c, g.InRange c → Passes g F d m c := by
  classical
  by_cases hex : ∃ c, g.InRange c ∧ ¬Passes g F d m c
  · refine .inl ⟨Nat.find hex, (Nat.find_spec hex).1, (Nat.find_spec hex).2, fun c h₂ hlt => ?_⟩
    have hin : g.InRange c := ⟨h₂, hlt.trans (Nat.find_spec hex).1.2⟩
    by_contra hno
    exact Nat.find_min hex hlt ⟨hin, hno⟩
  · refine .inr fun c hc => ?_
    by_contra hno
    exact hex ⟨c, hc, hno⟩

variable (h : g.fatType = 32)

include h

/-- One cluster of the scan. -/
theorem Traced.allocLoop_pass {t : Traced} (hc : g.InRange c)
    (ht : Beside d m t.toState) (hp : Passes g F d m c) :
    ∃ t' : Traced, allocLoop (failing F) g 0 badCluster32 endCluster32 (n + 1) c t
        = allocLoop (failing F) g 0 badCluster32 endCluster32 n (c + 1) t' ∧
      Beside d m t'.toState ∧
      t'.events = t.events ++ if Missed g F c then [.scanFault] else [] := by
  -- an entry that cannot be read counts as taken, and so does one that is not 0
  rcases hp with hmiss | ⟨v, hv, hpeek⟩
  · obtain ⟨s', hread, hd, hm⟩ := fatRead_missed h hc hmiss t.toState
    have hnote : Driver.scan (fatRead (failing F) g c) t = (.value (-1), _) :=
      note_pos (zoom_run hread) rfl
    refine ⟨_, by rw [allocLoop, bind_value hnote]; rfl, ⟨hd.trans ht.disk, ?_⟩, ?_⟩
    · intro a ha
      exact (congrFun hm a).trans (ht.mem a ha)
    · rw [if_pos hmiss]
      rfl
  · have hpeek' : Peeks g F t.disk t.mem c v := by
      rw [ht.disk, Peeks.congr ht.mem]
      exact hpeek
    obtain ⟨s', hread, hd, hm⟩ := fatRead_peeks h hc hpeek'
    have hlt := (peek_bounds hpeek.2.2).2.2
    have hnote : Driver.scan (fatRead (failing F) g c) t = (.value (v : Int), _) :=
      note_neg (zoom_run hread) (by omega)
    refine ⟨{ t with toState := s' }, ?_, ⟨hd.trans ht.disk, fun a ha => ?_⟩, ?_⟩
    · rw [allocLoop, bind_value hnote, toUnsigned_natCast (by omega)]
      exact congrFun (if_neg hv) _
    · rw [hm, tableMem, memcpy_apply_of_notMem ha]
      exact ht.mem a ha
    · rw [if_neg fun hmiss => hmiss.2 hpeek.2.1, List.append_nil]

/-- The scan over clusters that it passes over. -/
theorem Traced.allocLoop_passes {t : Traced} (h₂ : 2 ≤ c)
    (hr : c + k ≤ g.totalClusters) (ht : Beside d m t.toState)
    (hp : ∀ y, c ≤ y → y < c + k → Passes g F d m y) :
    ∃ t' : Traced, allocLoop (failing F) g 0 badCluster32 endCluster32 (n + k) c t
        = allocLoop (failing F) g 0 badCluster32 endCluster32 n (c + k) t' ∧
      Beside d m t'.toState ∧ t'.events = t.events ++ scanFaults g F c k := by
  induction k generalizing c t with
  | zero => exact ⟨t, rfl, ht, (List.append_nil _).symm⟩
  | succ k ih =>
      obtain ⟨t₁, hstep, ht₁, he₁⟩ := Traced.allocLoop_pass (n := n + k) h ⟨h₂, by omega⟩ ht
        (hp c le_rfl (by omega))
      obtain ⟨t', hrun, ht', he'⟩ := ih (c := c + 1) (by omega) (by omega) ht₁
        fun y hy hlt => hp y (by omega) (by omega)
      refine ⟨t', ?_, ht', ?_⟩
      · rw [show n + (k + 1) = n + k + 1 by omega, hstep, hrun,
          show c + 1 + k = c + (k + 1) by omega]
      · rw [he', he₁, scanFaults_succ, List.append_assoc]

variable {t : Traced} (ht : Beside d m t.toState)

include ht

/-- Without a cluster to end at the scan fails. -/
theorem Traced.allocateFreeFAT_full (hno : ∀ c, g.InRange c → Passes g F d m c) :
    ∃ t', allocateFreeFAT (failing F) g t = (.value badCluster32, t') ∧
      t'.events = t.events ++ scanFaults g F 2 (g.totalClusters - 2) := by
  rw [allocateFreeFAT, if_pos h]
  rcases Nat.lt_or_ge g.totalClusters 2 with hlt | hge
  · rw [Nat.sub_eq_zero_of_le (Nat.le_of_lt hlt)]
    exact ⟨t, rfl, (List.append_nil _).symm⟩
  · obtain ⟨t', hrun, -, he⟩ := Traced.allocLoop_passes (n := 0) (k := g.totalClusters - 2)
      (c := 2) h le_rfl (by omega) ht fun y h₂ hlt => hno y ⟨h₂, by omega⟩
    rw [Nat.zero_add] at hrun
    exact ⟨t', hrun, he⟩

/-- The scan up to the cluster at which it ends. -/
theorem Traced.allocateFreeFAT_scan (hx : ScanEnds g F d m x) :
    ∃ n, ∃ t' : Traced, allocateFreeFAT (failing F) g t
        = allocLoop (failing F) g 0 badCluster32 endCluster32 (n + 1) x t' ∧
      Beside d m t'.toState ∧ t'.events = t.events ++ scanFaults g F 2 (x - 2) := by
  obtain ⟨h₂, hlt⟩ := hx.inRange
  obtain ⟨t', hrun, ht', he⟩ := Traced.allocLoop_passes (n := g.totalClusters - x) (k := x - 2)
    (c := 2) h le_rfl (by omega) ht fun y hy hlt => hx.least y hy (by omega)
  refine ⟨g.totalClusters - x - 1, t', ?_, ht', he⟩
  rw [show 2 + (x - 2) = x by omega] at hrun
  rw [allocateFreeFAT, if_pos h,
    show g.totalClusters - 2 = g.totalClusters - x + (x - 2) by omega,
    show g.totalClusters - x - 1 + 1 = g.totalClusters - x by omega]
  exact hrun

theorem Traced.allocateFreeFAT_found (hx : ScanEnds g F d m x) (hpeek : Peeks g F d m x 0) :
    ∃ t' : Traced, allocateFreeFAT (failing F) g t = (.value x, t') ∧
      t'.events = t.events ++ (scanFaults g F 2 (x - 2) ++ [.write]) ∧
      t'.disk = updateDisk g d m x endCluster32 ∧ t'.mem = updateMem g d m x endCluster32 := by
  obtain ⟨n, t₁, hscan, ht₁, he₁⟩ := Traced.allocateFreeFAT_scan h ht hx
  have hpeek₁ : Peeks g F t₁.disk t₁.mem x 0 := by
    rw [ht₁.disk, Peeks.congr ht₁.mem]
    exact hpeek
  obtain ⟨s₂, hread, hd₂, hm₂⟩ := fatRead_peeks h hx.inRange hpeek₁
  obtain ⟨s₃, hwrite, hd₃, hm₃⟩ := fatWrite_peeks h hx.inRange hpeek endCluster32 s₂
  have hr : Driver.scan (fatRead (failing F) g x) t₁ = (.value ((0 : Nat) : Int), _) :=
    note_neg (zoom_run hread) (by decide)
  have hw : Driver.write (fatWrite (failing F) g x endCluster32) { t₁ with toState := s₂ }
      = (.value 0, _) := note_pos (zoom_run hwrite) rfl
  -- the sector that is read before the write is the one that was read already
  have htab : tableMem g s₂.disk s₂.mem x = tableMem g d m x := by
    rw [hd₂, ht₁.disk]
    refine tableMem_congr fun a ha => ?_
    rw [hm₂, tableMem, memcpy_apply_of_notMem ha]
    exact ht₁.mem a ha
  refine ⟨.record .write { t₁ with toState := s₃ }, ?_, ?_, ?_, ?_⟩
  · rw [hscan, allocLoop, bind_value hr]
    exact (congrFun (if_pos rfl) _).trans (bind_value hw)
  · rw [← List.append_assoc, ← he₁]
    rfl
  · refine hd₃.trans ?_
    rw [updateDisk, updateDisk, updateMem, updateMem, htab, hd₂, ht₁.disk]
  · refine hm₃.trans ?_
    rw [updateMem, updateMem, htab]

theorem Traced.allocateFreeFAT_stopped (hx : ScanEnds g F d m x) (hpeek : ¬Peeks g F d m x 0) :
    ∃ e, ∃ t' : Traced, allocateFreeFAT (failing F) g t = (.stop e, t') ∧
      t'.events = t.events ++ scanFaults g F 2 (x - 2) := by
  obtain ⟨n, t₁, hscan, ht₁, he₁⟩ := Traced.allocateFreeFAT_scan h ht hx
  have hnone : ∀ v, ¬Peeks g F t₁.disk t₁.mem x v := by
    intro v hv
    rw [ht₁.disk, Peeks.congr ht₁.mem] at hv
    rcases Nat.eq_zero_or_pos v with rfl | hpos
    · exact hpeek hv
    · exact hx.ends (.inr ⟨v, hpos.ne', hv⟩)
  obtain ⟨e, s', hstop⟩ := fatRead_stops h hx.inRange (fun hm => hx.ends (.inl hm)) hnone
  refine ⟨e, { t₁ with toState := s' }, ?_, he₁⟩
  rw [hscan, allocLoop]
  exact bind_stop (note_stop (zoom_run hstop))

end

/-- A table sector that cannot be read makes the allocator fail. -/
def AllocStops (g : Globals) (F : Nat → Bool) (s : State) : Prop :=
  let r := allocateFreeFAT (failing F) g ({ s with events := [] } : Traced)
  StopsAt .scanFault (· = .value badCluster32) r.1 r.2.events

/-- The scan passes over no cluster because its entry cannot be read, if it ends at one. -/
def AllocSafe (g : Globals) (F : Nat → Bool) (d : Disk) (m : Mem) : Prop :=
  ∀ x, ScanEnds g F d m x → ∀ c, 2 ≤ c → c < x → ¬Missed g F c

theorem allocSafe_iff {g : Globals} {F : Nat → Bool} {d : Disk} {m : Mem} {x : Nat}
    (hx : ScanEnds g F d m x) : AllocSafe g F d m ↔ .scanFault ∉ scanFaults g F 2 (x - 2) := by
  have := hx.inRange.1
  rw [mem_scanFaults]
  constructor
  · rintro hsafe ⟨-, y, h₂, hlt, hy⟩
    exact hsafe x hx y h₂ (by omega) hy
  · intro hnot x' hx' y h₂ hlt hy
    rw [hx'.unique hx] at hlt
    exact hnot ⟨rfl, y, h₂, by omega, hy⟩

theorem allocStops_iff {g : Globals} {F : Nat → Bool} (h : g.fatType = 32) (s : State) :
    AllocStops g F s ↔ AllocSafe g F s.disk s.mem := by
  have ht : Beside s.disk s.mem ({ s with events := [] } : Traced).toState := ⟨rfl, fun _ _ => rfl⟩
  rcases exists_scanEnds_or_passes g F s.disk s.mem with ⟨x, hx⟩ | hno
  · rw [allocSafe_iff hx, AllocStops]
    by_cases hpeek : Peeks g F s.disk s.mem x 0
    · obtain ⟨t', hrun, he, -⟩ := Traced.allocateFreeFAT_found h ht hx hpeek
      rw [hrun, he]
      refine (stopsAt_iff_notMem (by decide) (.inr ⟨_, rfl⟩)).trans (not_congr ?_)
      simp
    · obtain ⟨e, t', hrun, he⟩ := Traced.allocateFreeFAT_stopped h ht hx hpeek
      rw [hrun, he]
      exact stopsAt_iff_notMem (by decide) (.inl fun ho => by cases ho)
  · obtain ⟨t', hrun, he⟩ := Traced.allocateFreeFAT_full h ht hno
    refine iff_of_true ?_ fun x hx => absurd (hno x hx.inRange) hx.ends
    rw [AllocStops, hrun, he]
    refine stopsAt_of_failed rfl fun hw => ?_
    cases (mem_scanFaults.mp hw).1

/-! ### Listing a directory -/

/-- A run of `directoryList` fails at a link that cannot be read. -/
def ListRunStops (r : Outcome Int × Listing) : Prop :=
  StopsAt .linkFault (· = .value (-1)) r.1 r.2.events

/-- A link that cannot be read makes the listing fail. -/
def ListStops (g : Globals) (F : Nat → Bool) (add : UInt8) (exclusive : Int)
    (arrays : Nat → Nat → Mem) (s : State) (c : Nat) : Prop :=
  ∀ fuel, ListRunStops (directoryList (failing F) g add exclusive arrays fuel c (listingOf s))

/-- The loop over the entries of the cluster comes to its link. -/
def ListLeaves (g : Globals) (F : Nat → Bool) (hide : UInt8) (d : Disk) (m : Mem) (c : Nat) :
    Prop :=
  Legible g F c ∧ ∃ k < 2 ^ 32, LoopEndsFirst (clusterMem g d m c) g hide k ∧
    ¬IsEnd (entryIn (clusterMem g d m c) k)

/-- The listing comes to a link that cannot be read. -/
inductive ListFaults (g : Globals) (F : Nat → Bool) (hide : UInt8) (d : Disk) : Mem → Nat → Prop
  | here {m : Mem} {c : Nat} : ListLeaves g F hide d m c → Missed g F c → ListFaults g F hide d m c
  | next {m : Mem} {c v : Nat} : ListLeaves g F hide d m c →
      Peeks g F d (clusterMem g d m c) c v → v < endCluster32 →
      ListFaults g F hide d (tableMem g d (clusterMem g d m c) c) v → ListFaults g F hide d m c

section

variable {g : Globals} {F : Nat → Bool} {add hide : UInt8} {exclusive : Int}
  {arrays : Nat → Nat → Mem} {d : Disk} {m : Mem} {c v k fuel : Nat}
  {next : Nat → Prog Listing Int} {s : Listing}

theorem ListFaults.exists_missed (hf : ListFaults g F hide d m c) : ∃ a, Missed g F a := by
  induction hf with
  | here _ hmiss => exact ⟨_, hmiss⟩
  | next _ _ _ _ ih => exact ih

/-- The loop comes to the link, or there is nothing more on record. -/
theorem listSlots_comes {env : Env} (hk : k < 2 ^ 32) (hj : ∀ j < k, ¬LoopEnds s.mem g hide j) :
    (listSlots env g hide arrays c next fuel k s).2.events = s.events ∨
      ∃ j < 2 ^ 32, LoopEndsFirst s.mem g hide j ∧ ¬IsEnd (entryIn s.mem j) ∧
        ∃ s' : Listing, s'.toState = s.toState ∧ s'.events = s.events ∧
          listSlots env g hide arrays c next fuel k s = listNext env g c next s' := by
  induction fuel generalizing k s with
  | zero => exact .inl rfl
  | succ fuel ih =>
      by_cases hends : LoopEnds s.mem g hide k
      · rw [listSlots_ends hends]
        by_cases hend : IsEnd (entryIn s.mem k)
        · rw [if_pos hend]
          exact .inl (s.visit_events ..)
        · rw [if_neg hend]
          exact .inr ⟨k, hk, ⟨hends, hj⟩, hend, _, s.visit_toState .., s.visit_events .., rfl⟩
      · -- behind the largest count the loop starts again
        have hmod : (k + 1) % 2 ^ 32 = k + 1 ∨ (k + 1) % 2 ^ 32 = 0 := by omega
        have hbefore : ∀ j < (k + 1) % 2 ^ 32,
            ¬LoopEnds (s.visit hide arrays c k).mem g hide j := by
          intro j hlt
          rw [Listing.visit_toState]
          rcases Nat.eq_or_lt_of_le (show j ≤ k by omega) with rfl | hlt'
          · exact hends
          · exact hj j hlt'
        have hrest := ih (Nat.mod_lt _ (by decide)) hbefore
        rw [Listing.visit_toState, Listing.visit_events] at hrest
        rw [listSlots_step hends]
        exact hrest

theorem directoryList_illegible (add : UInt8) (exclusive : Int) (arrays : Nat → Nat → Mem)
    (fuel : Nat) (hl : ¬Legible g F c) (s : Listing) :
    ∃ s', directoryList (failing F) g add exclusive arrays (fuel + 1) c s = (.value (-1), s') ∧
      s'.events = s.events := by
  rw [directoryList]
  split
  · exact ⟨s, rfl, rfl⟩
  · obtain ⟨s', hread⟩ := clusterRead_illegible hl s.toState
    have hlift : Listing.lift (clusterRead (failing F) g c 0) s = (.value (-1), _) := zoom_run hread
    rw [bind_value hlift]
    exact ⟨_, rfl, rfl⟩

theorem directoryList_legible (add : UInt8) (exclusive : Int) (arrays : Nat → Nat → Mem)
    (hl : Legible g F c) (s : Listing) :
    ∃ s₁ : Listing, s₁.disk = s.disk ∧ s₁.mem = clusterMem g s.disk s.mem c ∧
      s₁.events = s.events ∧ ∀ fuel,
      directoryList (failing F) g add exclusive arrays (fuel + 1) c s =
        listSlots (failing F) g (attributesToHide add exclusive) arrays c
          (directoryList (failing F) g add exclusive arrays fuel) fuel 0 s₁ := by
  obtain ⟨s', hread, hd, hm⟩ := clusterRead_legible hl s.toState
  have hlift : Listing.lift (clusterRead (failing F) g c 0) s = (.value 0, _) := zoom_run hread
  refine ⟨{ s with toState := s' }, hd, hm, rfl, fun fuel => ?_⟩
  rw [directoryList, if_neg (not_outOfRange hl.1.1), bind_value hlift]
  rfl

variable (h : g.fatType = 32) (hc : g.InRange c)

include h

theorem isEndMark_iff_le (v : Nat) : g.isEndMark v ↔ endCluster32 ≤ v := by
  simp [Globals.isEndMark, h]

include hc

/-- A link that cannot be read passes for an end mark. -/
theorem listNext_missed (hm : Missed g F c) (next : Nat → Prog Listing Int) (s : Listing) :
    ∃ s', listNext (failing F) g c next s = (.value 0, s') ∧
      s'.events = s.events ++ [.linkFault] := by
  obtain ⟨s', hread, -⟩ := fatRead_missed h hc hm s.toState
  have hnote : note (· = -1) Listing.fault (Listing.lift (fatRead (failing F) g c)) s
      = (.value (-1), _) := note_pos (zoom_run hread) rfl
  rw [listNext, bind_value hnote]
  refine ⟨Listing.fault { s with toState := s' }, ?_, rfl⟩
  exact congrFun (if_pos ((isEndMark_iff_le h _).mpr (by decide))) _

theorem listNext_peeks (hp : Peeks g F s.disk s.mem c v) :
    ∃ s' : Listing, s'.disk = s.disk ∧ s'.mem = tableMem g s.disk s.mem c ∧
      s'.events = s.events ∧ ∀ next, listNext (failing F) g c next s =
        if endCluster32 ≤ v then (.value 0, s') else next v s' := by
  obtain ⟨s', hread, hd, hm⟩ := fatRead_peeks h hc hp
  have hlt := (peek_bounds hp.2.2).2.2
  have hnote : note (· = -1) Listing.fault (Listing.lift (fatRead (failing F) g c)) s
      = (.value (v : Int), _) := note_neg (zoom_run hread) (by omega)
  refine ⟨{ s with toState := s' }, hd, hm, rfl, fun next => ?_⟩
  rw [listNext, bind_value hnote, toUnsigned_natCast (by omega)]
  by_cases hend : endCluster32 ≤ v
  · rw [if_pos ((isEndMark_iff_le h _).mpr hend), if_pos hend]
    rfl
  · rw [if_neg (mt (isEndMark_iff_le h _).mp hend), if_neg hend]

theorem listNext_stops (hm : ¬Missed g F c) (hp : ∀ v, ¬Peeks g F s.disk s.mem c v) :
    (listNext (failing F) g c next s).2.events = s.events := by
  obtain ⟨e, s', hread⟩ := fatRead_stops h hc hm hp
  have hnote : note (· = -1) Listing.fault (Listing.lift (fatRead (failing F) g c)) s
      = (.stop e, _) := note_stop (zoom_run hread)
  rw [listNext, bind_stop hnote]

omit hc

omit h in
/-- The listing comes to the link of a cluster. -/
theorem directoryList_leaves (arrays : Nat → Nat → Mem) (hleg : Legible g F c) (hk : k < 2 ^ 32)
    (hfirst : LoopEndsFirst (clusterMem g d m c) g (attributesToHide add exclusive) k)
    (hend : ¬IsEnd (entryIn (clusterMem g d m c) k)) (hd : s.disk = d) (hm : s.mem = m) :
    ∃ s' : Listing, s'.disk = d ∧ s'.mem = clusterMem g d m c ∧ ∀ n,
      directoryList (failing F) g add exclusive arrays (n + k + 2) c s = listNext (failing F) g c
        (directoryList (failing F) g add exclusive arrays (n + k + 1)) s' := by
  obtain ⟨s₁, hd₁, hm₁, -, hrun⟩ := directoryList_legible add exclusive arrays hleg s
  rw [hd] at hd₁ hm₁
  rw [hm] at hm₁
  rw [← hm₁] at hfirst hend
  refine ⟨s₁.visits (attributesToHide add exclusive) arrays c (k + 1), ?_, ?_, fun n => ?_⟩
  · rw [Listing.visits_toState, hd₁]
  · rw [Listing.visits_toState, hm₁]
  · rw [hrun, show n + k + 1 = n + 1 + k by omega, listSlots_first hk hfirst, if_neg hend]

/-- On a way to a link that cannot be read the listing does not fail. -/
theorem ListFaults.run (arrays : Nat → Nat → Mem)
    (hf : ListFaults g F (attributesToHide add exclusive) d m c) :
    ∃ N, ∀ fuel ≥ N, ∀ s : Listing, s.disk = d → s.mem = m →
      ∃ before s', directoryList (failing F) g add exclusive arrays fuel c s = (.value 0, s') ∧
        s'.events = before ++ [.linkFault] := by
  -- by induction on the way; the fuel has to do for the slots of each cluster
  induction hf with
  | @here m c hl hmiss =>
      obtain ⟨hleg, k, hk, hfirst, hend⟩ := hl
      refine ⟨k + 2, fun fuel hfuel s hd hm => ?_⟩
      obtain ⟨n, rfl⟩ := Nat.exists_eq_add_of_le' hfuel
      obtain ⟨s₁, -, -, hrun⟩ := directoryList_leaves arrays hleg hk hfirst hend hd hm
      obtain ⟨s₂, hnext, he⟩ := listNext_missed h hleg.1.1 hmiss
        (directoryList (failing F) g add exclusive arrays (n + k + 1)) s₁
      exact ⟨_, s₂, (hrun n).trans hnext, he⟩
  | @next m c v hl hp hlt _ ih =>
      obtain ⟨hleg, k, hk, hfirst, hend⟩ := hl
      obtain ⟨N, hN⟩ := ih
      refine ⟨N + k + 2, fun fuel hfuel s hd hm => ?_⟩
      obtain ⟨n, rfl⟩ := Nat.exists_eq_add_of_le' hfuel
      obtain ⟨s₁, hd₁, hm₁, hrun⟩ := directoryList_leaves arrays hleg hk hfirst hend hd hm
      have hp₁ : Peeks g F s₁.disk s₁.mem c v := by
        rw [hd₁, hm₁]
        exact hp
      obtain ⟨s₂, hd₂, hm₂, -, hnext⟩ := listNext_peeks h hleg.1.1 hp₁
      rw [show n + (N + k + 2) = n + N + k + 2 by omega, hrun, hnext, if_neg (Nat.not_le.mpr hlt)]
      refine hN _ (by omega) s₂ (hd₂.trans hd₁) ?_
      rw [hm₂, hd₁, hm₁]

theorem directoryList_stopsAt (hf : ¬ListFaults g F (attributesToHide add exclusive) d m c)
    (hd : s.disk = d) (hm : s.mem = m) (he : .linkFault ∉ s.events) :
    ListRunStops (directoryList (failing F) g add exclusive arrays fuel c s) := by
  induction fuel generalizing m c s with
  | zero => exact stopsAt_of_notMem he
  | succ fuel ih =>
      by_cases hleg : Legible g F c
      swap
      · obtain ⟨s', hrun, he'⟩ := directoryList_illegible add exclusive arrays fuel hleg s
        rw [hrun]
        exact stopsAt_of_notMem (he'.symm ▸ he)
      obtain ⟨s₁, hd₁, hm₁, he₁, hrun⟩ := directoryList_legible add exclusive arrays hleg s
      rw [hd] at hd₁ hm₁
      rw [hm] at hm₁
      rw [hrun]
      -- the slots of the cluster end the listing, or lead on to its word in the table
      rcases listSlots_comes (s := s₁) (k := 0) (by decide) (fun j hj => absurd hj j.not_lt_zero)
        with hev | ⟨k, hk, hfirst, hend, s₂, hs₂, he₂, hnext⟩
      · refine stopsAt_of_notMem ?_
        rw [hev, he₁]
        exact he
      rw [hm₁] at hfirst hend
      have hl : ListLeaves g F (attributesToHide add exclusive) d m c := ⟨hleg, k, hk, hfirst, hend⟩
      have hd₂ : s₂.disk = d := by rw [hs₂, hd₁]
      have hm₂ : s₂.mem = clusterMem g d m c := by rw [hs₂, hm₁]
      have he₂' : .linkFault ∉ s₂.events := by
        rw [he₂, he₁]
        exact he
      rw [hnext]
      -- a word that can be read leads to the next cluster; a missed one is excluded by `hf`
      by_cases hp : ∃ v, Peeks g F s₂.disk s₂.mem c v
      · obtain ⟨v, hp⟩ := hp
        obtain ⟨s₃, hd₃, hm₃, he₃, hrun₃⟩ := listNext_peeks h hleg.1.1 hp
        rw [hrun₃]
        rw [← he₃] at he₂'
        rw [hd₂, hm₂] at hp
        split
        · exact stopsAt_of_notMem he₂'
        next hlt =>
          refine ih (m := tableMem g d (clusterMem g d m c) c) (fun hf' => hf ?_) (hd₃.trans hd₂) ?_
            he₂'
          · exact .next hl hp (Nat.lt_of_not_le hlt) hf'
          · rw [hm₃, hd₂, hm₂]
      · refine stopsAt_of_notMem ?_
        rw [listNext_stops h hleg.1.1 (fun hmiss => hf (.here hl hmiss)) fun v hv => hp ⟨v, hv⟩]
        exact he₂'

theorem listStops_iff (s : State) :
    ListStops g F add exclusive arrays s c ↔
      ¬ListFaults g F (attributesToHide add exclusive) s.disk s.mem c := by
  constructor
  · intro hstop hf
    obtain ⟨N, hN⟩ := hf.run h arrays
    obtain ⟨before, s', hrun, he⟩ := hN N le_rfl (listingOf s) rfl rfl
    have hat := hstop N
    rw [hrun, ListRunStops, he] at hat
    exact not_stopsAt (.inl fun ho => by cases ho) hat
  · intro hf fuel
    exact directoryList_stopsAt h hf rfl rfl List.not_mem_nil

end

/-! ### Adding an entry -/

/-- A run of `directoryAdd` fails at a link that cannot be read. -/
def AddRunStops (r : Outcome (Int × DirectoryEntry) × Traced) : Prop :=
  StopsAt .linkFault (fun o => ∃ e, o = .value (-1, e)) r.1 r.2.events

/-- A link that cannot be read makes the insertion fail. -/
def AddStops (g : Globals) (F : Nat → Bool) (e : DirectoryEntry) (s : State) (c : Nat) : Prop :=
  ∀ fuel, AddRunStops (directoryAdd (failing F) g e fuel c ({ s with events := [] } : Traced))

/-- The cluster has no vacant slot, so that the insertion comes to its link. -/
def AddLeaves (g : Globals) (F : Nat → Bool) (d : Disk) (m : Mem) (c : Nat) : Prop :=
  Legible g F c ∧ ∀ k ≤ g.lastSlot,
    ¬Vacant (DirectoryEntry.at_ (clusterMem g d m c) (diskLocation + 32 * k))

/-- The memory after cluster `x` was taken and linked behind `c`. -/
def grownMem (g : Globals) (d : Disk) (m : Mem) (c x : Nat) : Mem :=
  updateMem g (updateDisk g d m x endCluster32) (updateMem g d m x endCluster32) c x

/-- The disk after that. -/
def grownDisk (g : Globals) (d : Disk) (m : Mem) (c x : Nat) : Disk :=
  updateDisk g (updateDisk g d m x endCluster32) (updateMem g d m x endCluster32) c x

/-- The insertion comes to a link that cannot be read, and goes on to a scan that ends. -/
inductive AddFaults (g : Globals) (F : Nat → Bool) : Disk → Mem → Nat → Prop
  | here {d : Disk} {m : Mem} {c x : Nat} : AddLeaves g F d m c → Missed g F c →
      ScanEnds g F d (clusterMem g d m c) x → AddFaults g F d m c
  | next {d : Disk} {m : Mem} {c v : Nat} : AddLeaves g F d m c →
      Peeks g F d (clusterMem g d m c) c v → v < endCluster32 →
      AddFaults g F d (tableMem g d (clusterMem g d m c) c) v → AddFaults g F d m c
  | grow {d : Disk} {m : Mem} {c v x : Nat} : AddLeaves g F d m c →
      Peeks g F d (clusterMem g d m c) c v → endCluster32 ≤ v →
      ScanEnds g F d (clusterMem g d m c) x → Peeks g F d (clusterMem g d m c) x 0 →
      x ≠ badCluster32 →
      AddFaults g F (grownDisk g d (clusterMem g d m c) c x)
        (grownMem g d (clusterMem g d m c) c x) x → AddFaults g F d m c

theorem AddFaults.exists_missed {g : Globals} {F : Nat → Bool} {d : Disk} {m : Mem} {c : Nat}
    (hf : AddFaults g F d m c) : ∃ a, Missed g F a := by
  induction hf with
  | here _ hmiss _ => exact ⟨_, hmiss⟩
  | next _ _ _ _ ih => exact ih
  | grow _ _ _ _ _ _ _ ih => exact ih

namespace Traced

section

variable {env : Env} {g : Globals} {F : Nat → Bool} {e : DirectoryEntry} {d : Disk} {m : Mem}
  {c n k v x fuel : Nat} {next : Nat → Prog Traced (Int × DirectoryEntry)} {t : Traced}

/-- Nothing that is on record afterwards is a link that could not be read, unless it was before. -/
def NoLinkFault (t t' : Traced) : Prop := .linkFault ∈ t'.events → .linkFault ∈ t.events

theorem NoLinkFault.refl (t : Traced) : NoLinkFault t t := id

theorem NoLinkFault.trans {t₁ t₂ t₃ : Traced} (h : NoLinkFault t₁ t₂) (h' : NoLinkFault t₂ t₃) :
    NoLinkFault t₁ t₃ := fun he => h (h' he)

theorem noLinkFault_lift {α : Type} (m : Prog State α) : Keeps NoLinkFault (lift m) :=
  .zoom fun _ _ => id

theorem noLinkFault_read (m : Prog State Int) : Keeps NoLinkFault (read .scanFault m) :=
  .note .trans (noLinkFault_lift m) fun t he => by simpa [record] using he

theorem noLinkFault_write (m : Prog State Int) : Keeps NoLinkFault (write m) :=
  .note .trans (noLinkFault_lift m) fun t he => by simpa [record] using he

theorem noLinkFault_allocLoop (env : Env) (g : Globals) (free bad mark n c : Nat) :
    Keeps NoLinkFault (allocLoop env g free bad mark n c) := by
  induction n generalizing c with
  | zero => exact .pure .refl _
  | succ n ih =>
      refine .bind .trans (noLinkFault_read _) fun v => .ite ?_ (ih _)
      exact .bind .trans (noLinkFault_write _) fun w => .ite (.pure .refl _) (.pure .refl _)

theorem noLinkFault_allocateFreeFAT (env : Env) (g : Globals) :
    Keeps NoLinkFault (allocateFreeFAT env g) := by
  have hloop := noLinkFault_allocLoop env g
  exact .ite (hloop _ _ _ _ _) (.ite (hloop _ _ _ _ _) (.ite (hloop _ _ _ _ _) (.pure .refl _)))

theorem noLinkFault_storeEntry (env : Env) (g : Globals) (e : DirectoryEntry) (c k : Nat) :
    Keeps NoLinkFault (storeEntry env g e c k) := by
  refine .ite (.pure .refl _) (.bind .trans (noLinkFault_allocateFreeFAT env g) fun x => ?_)
  refine .ite (.pure .refl _) (.bind .trans (noLinkFault_lift _) fun _ => ?_)
  refine .bind .trans (noLinkFault_lift _) fun mem => ?_
  exact .bind .trans (noLinkFault_write _) fun w => .ite (.pure .refl _) (.pure .refl _)

/-- Without a vacant slot the loop comes to the link. -/
theorem addSlots_full (hfull : ∀ j, k ≤ j → j ≤ k + n → ¬Vacant (t.slotAt j)) :
    addSlots env g e c next n k t = addNext env g e c next t := by
  induction n generalizing k with
  | zero => exact congrFun (if_pos (hfull k le_rfl le_rfl)) t
  | succ n ih =>
      rw [← ih (k := k + 1) fun j h₁ h₂ => hfull j (by omega) (by omega)]
      exact congrFun (if_pos (hfull k le_rfl (by omega))) t

/-- A vacant slot is taken. -/
theorem addSlots_vacant (hvac : ¬∀ j, k ≤ j → j ≤ k + n → ¬Vacant (t.slotAt j)) :
    ∃ j, addSlots env g e c next n k t = storeEntry env g e c j t := by
  induction n generalizing k with
  | zero =>
      have hk : ¬¬Vacant (t.slotAt k) := fun hno => hvac fun j h₁ h₂ => by
        obtain rfl : j = k := by omega
        exact hno
      exact ⟨k, congrFun (if_neg hk) t⟩
  | succ n ih =>
      by_cases hk : Vacant (t.slotAt k)
      · exact ⟨k, congrFun (if_neg (not_not.mpr hk)) t⟩
      · obtain ⟨j, hj⟩ := ih (k := k + 1) fun hno => hvac fun j h₁ h₂ => by
          rcases Nat.eq_or_lt_of_le h₁ with rfl | hlt
          · exact hk
          · exact hno j hlt (by omega)
        exact ⟨j, (congrFun (if_pos hk) t).trans hj⟩

theorem directoryAdd_legible (hl : testIfFATFormat e.bytes = 0) (hleg : Legible g F c)
    (t : Traced) :
    ∃ t' : Traced, t'.disk = t.disk ∧ t'.mem = clusterMem g t.disk t.mem c ∧ t'.events = t.events ∧
      ∀ fuel, directoryAdd (failing F) g e (fuel + 1) c t =
        addSlots (failing F) g e c (directoryAdd (failing F) g e fuel) g.lastSlot 0 t' := by
  obtain ⟨s', hread, hd, hm⟩ := clusterRead_legible hleg t.toState
  have hlift : Driver.run (clusterRead (failing F) g c 0) t
      = (.value 0, { t with toState := s' }) := lift_run hread
  refine ⟨{ t with toState := s' }, hd, hm, rfl, fun fuel => ?_⟩
  rw [directoryAdd, if_neg (not_not.mpr hl), bind_value hlift]
  exact congrFun (if_neg (not_not.mpr rfl)) _

theorem directoryAdd_unread (hleg : testIfFATFormat e.bytes ≠ 0 ∨ ¬Legible g F c) (t : Traced) :
    (directoryAdd (failing F) g e (fuel + 1) c t).2.events = t.events := by
  rw [directoryAdd]
  split
  · rfl
  next hl =>
    obtain ⟨s', hread⟩ := clusterRead_illegible (hleg.resolve_left hl) t.toState
    have hlift : Driver.run (clusterRead (failing F) g c 0) t
        = (.value (-1), { t with toState := s' }) := lift_run hread
    rw [bind_value hlift]
    rfl

/-- The insertion comes to the link of a cluster without a vacant slot. -/
theorem directoryAdd_leaves (hl : testIfFATFormat e.bytes = 0) (hleaves : AddLeaves g F d m c)
    (hd : t.disk = d) (hm : t.mem = m) :
    ∃ t' : Traced, t'.disk = d ∧ t'.mem = clusterMem g d m c ∧ t'.events = t.events ∧
      ∀ fuel, directoryAdd (failing F) g e (fuel + 1) c t =
        addNext (failing F) g e c (directoryAdd (failing F) g e fuel) t' := by
  subst hd hm
  obtain ⟨t', hd', hm', he', hrun⟩ := directoryAdd_legible hl hleaves.1 t
  refine ⟨t', hd', hm', he', fun fuel => ?_⟩
  rw [hrun, addSlots_full]
  intro j _ hj
  rw [State.slotAt, hm']
  exact hleaves.2 j (by omega)

variable (h : g.fatType = 32)

include h

theorem isBadMark_iff_eq (v : Nat) : g.isBadMark v ↔ v = badCluster32 := by
  simp [Globals.isBadMark, h]

section

variable (hc : g.InRange c)

include hc

/-- A link that cannot be read passes for an end mark. -/
theorem addNext_missed (hmiss : Missed g F c) (ht : Beside d m t.toState) :
    ∃ t' : Traced, Beside d m t'.toState ∧ t'.events = t.events ++ [.linkFault] ∧ ∀ next,
      addNext (failing F) g e c next t = addGrow (failing F) g e c next t' := by
  obtain ⟨s', hread, hd, hm⟩ := fatRead_missed h hc hmiss t.toState
  have hnote : Driver.follow (fatRead (failing F) g c) t = (.value (-1), _) :=
    note_pos (zoom_run hread) rfl
  refine ⟨record .linkFault { t with toState := s' }, ⟨hd.trans ht.disk, ?_⟩, rfl, ?_⟩
  · exact fun a ha => (congrFun hm a).trans (ht.mem a ha)
  · intro next
    rw [addNext, bind_value hnote]
    exact congrFun (if_pos ((isEndMark_iff_le h _).mpr (by decide))) _

theorem addNext_peeks (hp : Peeks g F t.disk t.mem c v) :
    ∃ t' : Traced, t'.disk = t.disk ∧ t'.mem = tableMem g t.disk t.mem c ∧ t'.events = t.events ∧
      ∀ next, addNext (failing F) g e c next t =
        if endCluster32 ≤ v then addGrow (failing F) g e c next t' else next v t' := by
  obtain ⟨s', hread, hd, hm⟩ := fatRead_peeks h hc hp
  have hlt := (peek_bounds hp.2.2).2.2
  have hnote : Driver.follow (fatRead (failing F) g c) t = (.value (v : Int), _) :=
    note_neg (zoom_run hread) (by omega)
  refine ⟨{ t with toState := s' }, hd, hm, rfl, fun next => ?_⟩
  rw [addNext, bind_value hnote, toUnsigned_natCast (by omega)]
  by_cases hend : endCluster32 ≤ v
  · rw [if_pos ((isEndMark_iff_le h _).mpr hend), if_pos hend]
  · rw [if_neg (mt (isEndMark_iff_le h _).mp hend), if_neg hend]

theorem addNext_stops (hm : ¬Missed g F c) (hp : ∀ v, ¬Peeks g F t.disk t.mem c v) :
    (addNext (failing F) g e c next t).2.events = t.events := by
  obtain ⟨o, s', hread⟩ := fatRead_stops h hc hm hp
  have hnote : Driver.follow (fatRead (failing F) g c) t = (.stop o, _) :=
    note_stop (zoom_run hread)
  rw [addNext, bind_stop hnote]

end

section

variable (ht : Beside d m t.toState)

include ht

theorem addGrow_full (hno : ∀ c, g.InRange c → Passes g F d m c)
    (next : Nat → Prog Traced (Int × DirectoryEntry)) :
    ∃ t', addGrow (failing F) g e c next t = (.value (-1, e), t') ∧
      t'.events = t.events ++ scanFaults g F 2 (g.totalClusters - 2) := by
  obtain ⟨t', halloc, he⟩ := allocateFreeFAT_full h ht hno
  refine ⟨t', ?_, he⟩
  rw [addGrow, bind_value halloc]
  exact congrFun (if_pos ((isBadMark_iff_eq h _).mpr rfl)) _

theorem addGrow_stopped (hx : ScanEnds g F d m x) (hpeek : ¬Peeks g F d m x 0)
    (next : Nat → Prog Traced (Int × DirectoryEntry)) :
    ∃ o t', addGrow (failing F) g e c next t = (.stop o, t') ∧
      t'.events = t.events ++ scanFaults g F 2 (x - 2) := by
  obtain ⟨o, t', halloc, he⟩ := allocateFreeFAT_stopped h ht hx hpeek
  refine ⟨o, t', ?_, he⟩
  rw [addGrow, bind_stop halloc]

variable (hx : ScanEnds g F d m x) (hpeek : Peeks g F d m x 0)

include hx hpeek

/-- The cluster with the number of the bad mark is marked all the same. -/
theorem addGrow_bad (hbad : x = badCluster32)
    (next : Nat → Prog Traced (Int × DirectoryEntry)) :
    ∃ t', addGrow (failing F) g e c next t = (.value (-1, e), t') ∧
      t'.events = t.events ++ (scanFaults g F 2 (x - 2) ++ [.write]) := by
  obtain ⟨t', halloc, he, -⟩ := allocateFreeFAT_found h ht hx hpeek
  refine ⟨t', ?_, he⟩
  rw [addGrow, bind_value halloc]
  exact congrFun (if_pos ((isBadMark_iff_eq h _).mpr hbad)) _

variable (hbad : x ≠ badCluster32) (hc : g.InRange c)

include hbad hc

/-- So is one that cannot be linked. -/
theorem addGrow_missed (hmiss : Missed g F c)
    (next : Nat → Prog Traced (Int × DirectoryEntry)) :
    ∃ t', addGrow (failing F) g e c next t = (.value (-1, e), t') ∧
      t'.events = t.events ++ (scanFaults g F 2 (x - 2) ++ [.write]) := by
  obtain ⟨t₁, halloc, he, -⟩ := allocateFreeFAT_found h ht hx hpeek
  obtain ⟨s', hwrite⟩ := fatWrite_missed h hc hmiss x t₁.toState
  have hnote : Driver.write (fatWrite (failing F) g c x) t₁ = (.value (-1), _) :=
    note_neg (zoom_run hwrite) (by decide)
  refine ⟨{ t₁ with toState := s' }, ?_, he⟩
  rw [addGrow, bind_value halloc]
  refine (congrFun (if_neg (mt (isBadMark_iff_eq h _).mp hbad)) _).trans ?_
  rw [bind_value hnote]
  rfl

/-- Where the link can be read, the chain grows. -/
theorem addGrow_found {d' : Disk} {m' : Mem} (hp : Peeks g F d' m' c v) :
    ∃ t' : Traced, t'.disk = grownDisk g d m c x ∧ t'.mem = grownMem g d m c x ∧
      NoLinkFault t t' ∧ ∀ next, addGrow (failing F) g e c next t = next x t' := by
  obtain ⟨t₁, halloc, he, hd₁, hm₁⟩ := allocateFreeFAT_found h ht hx hpeek
  obtain ⟨s', hwrite, hd, hm⟩ := fatWrite_peeks h hc hp x t₁.toState
  have hnote : Driver.write (fatWrite (failing F) g c x) t₁ = (.value 0, _) :=
    note_pos (zoom_run hwrite) rfl
  refine ⟨record .write { t₁ with toState := s' }, ?_, ?_, ?_, fun next => ?_⟩
  · refine hd.trans ?_
    rw [hd₁, hm₁, grownDisk]
  · refine hm.trans ?_
    rw [hd₁, hm₁, grownMem]
  · exact ((noLinkFault_allocateFreeFAT _ _).run halloc).trans
      ((noLinkFault_write _).run hnote)
  · rw [addGrow, bind_value halloc]
    refine (congrFun (if_neg (mt (isBadMark_iff_eq h _).mp hbad)) _).trans ?_
    rw [bind_value hnote]
    rfl

end

end

end Traced

section

variable {g : Globals} {F : Nat → Bool} {e : DirectoryEntry} {d : Disk} {m : Mem}
  {c fuel : Nat} {t : Traced} (h : g.fatType = 32) (hl : testIfFATFormat e.bytes = 0)

include h hl

/-- The insertion takes a link that cannot be read for the end of the chain. -/
theorem directoryAdd_missed (hleaves : AddLeaves g F d m c) (hmiss : Missed g F c)
    (hd : t.disk = d) (hm : t.mem = m) :
    ∃ t' : Traced, Beside d (clusterMem g d m c) t'.toState ∧
      t'.events = t.events ++ [.linkFault] ∧ ∀ n,
      directoryAdd (failing F) g e (n + 1) c t
        = addGrow (failing F) g e c (directoryAdd (failing F) g e n) t' := by
  obtain ⟨t₁, hd₁, hm₁, he₁, hrun⟩ := Traced.directoryAdd_leaves hl hleaves hd hm
  have ht₁ : Beside d (clusterMem g d m c) t₁.toState := ⟨hd₁, fun a _ => congrFun hm₁ a⟩
  obtain ⟨t₂, ht₂, he₂, hnext⟩ := Traced.addNext_missed (e := e) h hleaves.1.1.1 hmiss ht₁
  exact ⟨t₂, ht₂, he₂.trans (he₁ ▸ rfl), fun n => (hrun n).trans (hnext _)⟩

/-- It follows one that can be read. -/
theorem directoryAdd_peeks {v : Nat} (hleaves : AddLeaves g F d m c)
    (hp : Peeks g F d (clusterMem g d m c) c v) (hd : t.disk = d) (hm : t.mem = m) :
    ∃ t' : Traced, t'.disk = d ∧ t'.mem = tableMem g d (clusterMem g d m c) c ∧
      t'.events = t.events ∧ ∀ n, directoryAdd (failing F) g e (n + 1) c t =
        if endCluster32 ≤ v then
          addGrow (failing F) g e c (directoryAdd (failing F) g e n) t'
        else directoryAdd (failing F) g e n v t' := by
  obtain ⟨t₁, hd₁, hm₁, he₁, hrun⟩ := Traced.directoryAdd_leaves hl hleaves hd hm
  have hp₁ : Peeks g F t₁.disk t₁.mem c v := by
    rw [hd₁, hm₁]
    exact hp
  obtain ⟨t₂, hd₂, hm₂, he₂, hnext⟩ := Traced.addNext_peeks (e := e) h hleaves.1.1.1 hp₁
  refine ⟨t₂, hd₂.trans hd₁, ?_, he₂.trans he₁, fun n => (hrun n).trans (hnext _)⟩
  rw [hm₂, hd₁, hm₁]

omit hl in
/-- Behind a link that cannot be read a scan that ends does not fail, or has marked a cluster. -/
theorem addGrow_missed_ends {x : Nat} (ht : Beside d m t.toState) (hc : g.InRange c)
    (hmiss : Missed g F c) (hx : ScanEnds g F d m x)
    (next : Nat → Prog Traced (Int × DirectoryEntry)) :
    ∃ o t' after, addGrow (failing F) g e c next t = (o, t') ∧
      t'.events = t.events ++ after ∧ ((¬∃ e, o = .value (-1, e)) ∨ .write ∈ after) := by
  have hmem : .write ∈ scanFaults g F 2 (x - 2) ++ [.write] := by simp
  by_cases hpeek : Peeks g F d m x 0
  · by_cases hbad : x = badCluster32
    · obtain ⟨t', hgrow, he⟩ := Traced.addGrow_bad (e := e) (c := c) h ht hx hpeek hbad next
      exact ⟨_, t', _, hgrow, he, .inr hmem⟩
    · obtain ⟨t', hgrow, he⟩ := Traced.addGrow_missed (e := e) h ht hx hpeek hbad hc hmiss next
      exact ⟨_, t', _, hgrow, he, .inr hmem⟩
  · obtain ⟨o, t', hgrow, he⟩ := Traced.addGrow_stopped (e := e) (c := c) h ht hx hpeek next
    refine ⟨_, t', _, hgrow, he, .inl ?_⟩
    rintro ⟨e', he'⟩
    cases he'

/-- On the way to a link that cannot be read the insertion does not fail, or writes. -/
theorem AddFaults.run (hf : AddFaults g F d m c) :
    ∃ N, ∀ fuel ≥ N, ∀ t : Traced, t.disk = d → t.mem = m →
      ∃ o t' before after, directoryAdd (failing F) g e fuel c t = (o, t') ∧
        t'.events = before ++ .linkFault :: after ∧
        ((¬∃ e, o = .value (-1, e)) ∨ .write ∈ after) := by
  -- by induction on the way; each cluster that is left costs a round of fuel
  induction hf with
  | @here d m c x hleaves hmiss hx =>
      refine ⟨1, fun fuel hfuel t hd hm => ?_⟩
      obtain ⟨n, rfl⟩ := Nat.exists_eq_add_of_le' hfuel
      obtain ⟨t₁, ht₁, he₁, hrun⟩ := directoryAdd_missed h hl hleaves hmiss hd hm
      obtain ⟨o, t₂, after, hgrow, he₂, hbad⟩ := addGrow_missed_ends (e := e) h ht₁
        hleaves.1.1.1 hmiss hx (directoryAdd (failing F) g e n)
      refine ⟨o, t₂, t.events, after, (hrun n).trans hgrow, ?_, hbad⟩
      rw [he₂, he₁, List.append_assoc]
      rfl
  | @next d m c v hleaves hp hlt _ ih =>
      obtain ⟨N, hN⟩ := ih
      refine ⟨N + 1, fun fuel hfuel t hd hm => ?_⟩
      obtain ⟨n, rfl⟩ := Nat.exists_eq_add_of_le' hfuel
      obtain ⟨t₁, hd₁, hm₁, -, hrun⟩ := directoryAdd_peeks h hl hleaves hp hd hm
      rw [← Nat.add_assoc, hrun, if_neg (Nat.not_le.mpr hlt)]
      exact hN _ (by omega) t₁ hd₁ hm₁
  | @grow d m c v x hleaves hp hend hx hpeek hbad _ ih =>
      obtain ⟨N, hN⟩ := ih
      refine ⟨N + 1, fun fuel hfuel t hd hm => ?_⟩
      obtain ⟨n, rfl⟩ := Nat.exists_eq_add_of_le' hfuel
      obtain ⟨t₁, hd₁, hm₁, -, hrun⟩ := directoryAdd_peeks h hl hleaves hp hd hm
      obtain ⟨t₂, hd₂, hm₂, -, hgrow⟩ := Traced.addGrow_found (e := e) h
        (beside_tableMem hd₁ hm₁) hx hpeek hbad hleaves.1.1.1 hp
      rw [← Nat.add_assoc, hrun, if_pos hend, hgrow]
      exact hN _ (by omega) t₂ hd₂ hm₂

omit hl

/-- A chain that grows behind a link that can be read. -/
theorem addGrow_stops {d' : Disk} {m' : Mem} {v : Nat}
    {next : Nat → Prog Traced (Int × DirectoryEntry)} (hc : g.InRange c)
    (ht : Beside d m t.toState) (he : .linkFault ∉ t.events) (hp : Peeks g F d' m' c v)
    (hnext : ∀ x, ScanEnds g F d m x → Peeks g F d m x 0 → x ≠ badCluster32 → ∀ t' : Traced,
      t'.disk = grownDisk g d m c x → t'.mem = grownMem g d m c x → .linkFault ∉ t'.events →
        AddRunStops (next x t')) :
    AddRunStops (addGrow (failing F) g e c next t) := by
  rcases exists_scanEnds_or_passes g F d m with ⟨x, hx⟩ | hno
  · by_cases hpeek : Peeks g F d m x 0
    · by_cases hbad : x = badCluster32
      · obtain ⟨t', hgrow, he'⟩ := Traced.addGrow_bad (e := e) (c := c) h ht hx hpeek hbad next
        rw [hgrow, AddRunStops, he']
        exact stopsAt_of_notMem (by simp [mem_scanFaults, he])
      · obtain ⟨t', hd', hm', hk, hgrow⟩ := Traced.addGrow_found (e := e) h ht hx hpeek hbad hc hp
        rw [hgrow]
        exact hnext x hx hpeek hbad t' hd' hm' fun hmem => he (hk hmem)
    · obtain ⟨o, t', hgrow, he'⟩ := Traced.addGrow_stopped (e := e) (c := c) h ht hx hpeek next
      rw [hgrow, AddRunStops, he']
      exact stopsAt_of_notMem (by simp [mem_scanFaults, he])
  · obtain ⟨t', hgrow, he'⟩ := Traced.addGrow_full (e := e) (c := c) h ht hno next
    rw [hgrow, AddRunStops, he']
    exact stopsAt_of_notMem (by simp [mem_scanFaults, he])

include hl

omit h in
/-- In a cluster with a vacant slot the insertion does not come to the link. -/
theorem directoryAdd_stops_vacant (hleg : Legible g F c)
    (hleaves : ¬AddLeaves g F t.disk t.mem c) (he : .linkFault ∉ t.events) :
    AddRunStops (directoryAdd (failing F) g e (fuel + 1) c t) := by
  obtain ⟨t₁, hd₁, hm₁, he₁, hrun⟩ := Traced.directoryAdd_legible hl hleg t
  have hvac : ¬∀ j, 0 ≤ j → j ≤ 0 + g.lastSlot → ¬Vacant (t₁.slotAt j) := by
    intro hno
    refine hleaves ⟨hleg, fun k hk => ?_⟩
    have := hno k (Nat.zero_le k) (by omega)
    rwa [State.slotAt, hm₁] at this
  have hstore : ∃ j, addSlots (failing F) g e c (directoryAdd (failing F) g e fuel)
      g.lastSlot 0 t₁ = storeEntry (failing F) g e c j t₁ := Traced.addSlots_vacant hvac
  obtain ⟨j, hj⟩ := hstore
  rw [hrun, hj]
  exact stopsAt_of_notMem fun hmem =>
    he (he₁ ▸ Traced.noLinkFault_storeEntry (failing F) g e c j t₁ hmem)

theorem directoryAdd_stops_missed (hleaves : AddLeaves g F t.disk t.mem c) (hmiss : Missed g F c)
    (hno : ∀ x, ¬ScanEnds g F t.disk (clusterMem g t.disk t.mem c) x)
    (he : .linkFault ∉ t.events) :
    AddRunStops (directoryAdd (failing F) g e (fuel + 1) c t) := by
  obtain ⟨t₁, ht₁, he₁, hrun⟩ := directoryAdd_missed h hl hleaves hmiss rfl rfl
  have hpass := (exists_scanEnds_or_passes g F t.disk (clusterMem g t.disk t.mem c)).resolve_left
    fun ⟨x, hx⟩ => hno x hx
  obtain ⟨t₂, hgrow, he₂⟩ := Traced.addGrow_full (e := e) (c := c) h ht₁ hpass
    (directoryAdd (failing F) g e fuel)
  rw [hrun, hgrow, AddRunStops, he₂, he₁, List.append_assoc]
  refine stopsAt_append he (stopsAt_of_failed ⟨e, rfl⟩ ?_)
  simp [mem_scanFaults]

theorem directoryAdd_stops (hf : ¬AddFaults g F d m c) (hd : t.disk = d) (hm : t.mem = m)
    (he : .linkFault ∉ t.events) :
    AddRunStops (directoryAdd (failing F) g e fuel c t) := by
  induction fuel generalizing d m c t with
  | zero => exact stopsAt_of_notMem he
  | succ fuel ih =>
      subst hd hm
      by_cases hleg : Legible g F c
      swap
      · refine stopsAt_of_notMem ?_
        rw [Traced.directoryAdd_unread (.inr hleg)]
        exact he
      by_cases hleaves : AddLeaves g F t.disk t.mem c
      swap
      · exact directoryAdd_stops_vacant hl hleg hleaves he
      -- behind a missed word no scan for a free cluster ends, by `hf`
      by_cases hmiss : Missed g F c
      · refine directoryAdd_stops_missed h hl hleaves hmiss (fun x hx => ?_) he
        exact hf (.here hleaves hmiss hx)
      by_cases hp : ∃ v, Peeks g F t.disk (clusterMem g t.disk t.mem c) c v
      · obtain ⟨v, hp⟩ := hp
        obtain ⟨t₁, hd₁, hm₁, he₁, hrun⟩ := directoryAdd_peeks (e := e) h hl hleaves hp rfl rfl
        rw [← he₁] at he
        rw [hrun]
        split
        next hend =>
          refine addGrow_stops h hleg.1.1 (beside_tableMem hd₁ hm₁) he hp
            fun x hx hpeek hbad t' hd' hm' he' => ?_
          exact ih (fun hf' => hf (.grow hleaves hp hend hx hpeek hbad hf')) hd' hm' he'
        next hend =>
          exact ih (fun hf' => hf (.next hleaves hp (Nat.lt_of_not_le hend) hf')) hd₁ hm₁ he
      · -- the word is neither missed nor read: the read of the table stops the program
        obtain ⟨t₁, hd₁, hm₁, he₁, hrun⟩ := Traced.directoryAdd_leaves hl hleaves rfl rfl
        have hp₁ (v : Nat) : ¬Peeks g F t₁.disk t₁.mem c v := by
          rw [hd₁, hm₁]
          exact fun hv => hp ⟨v, hv⟩
        refine stopsAt_of_notMem ?_
        rw [hrun, Traced.addNext_stops h hleg.1.1 hmiss hp₁, he₁]
        exact he

end

theorem addStops_iff {g : Globals} {F : Nat → Bool} {e : DirectoryEntry} {c : Nat}
    (h : g.fatType = 32) (s : State) :
    AddStops g F e s c ↔ (testIfFATFormat e.bytes = 0 → ¬AddFaults g F s.disk s.mem c) := by
  constructor
  · intro hstop hl hf
    obtain ⟨N, hN⟩ := hf.run h hl
    obtain ⟨o, t', before, after, hrun, he, hbad⟩ := hN N le_rfl { s with events := [] } rfl rfl
    have hat := hstop N
    rw [hrun, AddRunStops, he] at hat
    exact not_stopsAt hbad hat
  · intro hf fuel
    by_cases hl : testIfFATFormat e.bytes = 0
    · exact directoryAdd_stops h hl (hf hl) rfl rfl List.not_mem_nil
    · refine stopsAt_of_notMem ?_
      rcases fuel with - | fuel
      · exact List.not_mem_nil
      · rw [Traced.directoryAdd_unread (.inl hl)]
        exact List.not_mem_nil

/-- For each of the three functions, when a table sector that cannot be read makes it fail. -/
theorem faultsStop_iff {g : Globals} (h : g.fatType = 32) (F : Nat → Bool) (s : State) (c : Nat)
    (add : UInt8) (exclusive : Int) (arrays : Nat → Nat → Mem) (e : DirectoryEntry) :
    (AllocStops g F s ↔ AllocSafe g F s.disk s.mem) ∧
      (ListStops g F add exclusive arrays s c ↔
        ¬ListFaults g F (attributesToHide add exclusive) s.disk s.mem c) ∧
      (AddStops g F e s c ↔
        (testIfFATFormat e.bytes = 0 → ¬AddFaults g F s.disk s.mem c)) :=
  ⟨allocStops_iff h s, listStops_iff h s, addStops_iff h s⟩

/-! ### A table with a sector that cannot be read -/

/-- The small volume with a table of two sectors. -/
def wideVolume : Globals := { smallVolume with totalClusters := 200, totalClusters_lt := by decide }

/-- Its root directory is full of long names; nothing else is in use. -/
def longNamesState : State := smallState (fun _ => 0) fun _ => 0x0F

/-- The drive on which the first table sector cannot be read. -/
def firstTableFails (lba : Nat) : Bool := lba == partStartLba + 32

theorem wideVolume_isImage : wideVolume.IsImage := { smallVolume_isImage with }

section

variable {c : Nat} {m : Mem}

theorem missed_wideVolume (hc : c < 128) : Missed wideVolume firstTableFails c := by
  refine ⟨by decide, fun hf => ?_⟩
  have hsector : wideVolume.fatSector 4 c = 32 := by
    show (32 + c * 4 % 2 ^ 32 / (512 * 1)) % 2 ^ 32 = 32
    omega
  rw [fetches_iff wideVolume_isImage.toBlocks512, TableSound, hsector] at hf
  exact absurd hf (by decide)

theorem peeks_wideVolume (m : Mem) :
    Peeks wideVolume firstTableFails longNamesState.disk m 128 0 := by
  refine ⟨by decide, (fetches_iff wideVolume_isImage.toBlocks512).mpr (by decide), ?_⟩
  rw [peek_image wideVolume_isImage (by decide)]
  decide +kernel

theorem scanEnds_wideVolume (m : Mem) :
    ScanEnds wideVolume firstTableFails longNamesState.disk m 128 where
  inRange := by decide
  ends := by
    rintro (hmiss | ⟨v, hv, hpeek⟩)
    · exact hmiss.2 (peeks_wideVolume m).2.1
    · exact hv (Option.some.inj (hpeek.2.2.symm.trans (peeks_wideVolume m).2.2))
  least c _ hc := .inl (missed_wideVolume hc)

theorem slot_longNames (m : Mem) {k : Nat} (hk : k < 16) :
    DirectoryEntry.at_ (clusterMem wideVolume longNamesState.disk m 2) (diskLocation + 32 * k)
      = fun _ => 0x0F := by
  funext j
  have := j.isLt
  have hroot : longNamesState.disk (wideVolume.lba 2) = fun _ => 0x0F := by
    rw [show wideVolume.lba 2 = partStartLba + 40 by decide]
    rfl
  show memcpy m diskLocation (longNamesState.disk (wideVolume.lba 2)) 512
    (diskLocation + 32 * k + j) = 0x0F
  rw [Nat.add_assoc, memcpy_apply_add (by omega), hroot]

theorem legible_wideVolume : Legible wideVolume firstTableFails 2 := by
  refine ⟨by decide, ?_⟩
  show ∀ i < 1, firstTableFails (wideVolume.lba 2 + i) = false
  decide +kernel

end

/-- On a drive without bad sectors all three conditions hold. -/
theorem faultsStop_reliable :
    wideVolume.fatType = 32 ∧ AllocStops wideVolume (fun _ => false) longNamesState ∧
      ListStops wideVolume (fun _ => false) 0 0 (fun _ _ _ => 0) longNamesState 2 ∧
      AddStops wideVolume (fun _ => false) (letterEntry 0x41) longNamesState 2 := by
  have hno (c : Nat) : ¬Missed wideVolume (fun _ => false) c := fun hmiss =>
    hmiss.2 ((fetches_iff wideVolume_isImage.toBlocks512).mpr rfl)
  obtain ⟨halloc, hlist, hadd⟩ := faultsStop_iff (show wideVolume.fatType = 32 from rfl)
    (fun _ => false) longNamesState 2 0 0 (fun _ _ _ => 0) (letterEntry 0x41)
  refine ⟨rfl, halloc.mpr fun x _ c _ _ => hno c, hlist.mpr fun hf => ?_, hadd.mpr fun _ hf => ?_⟩
  · obtain ⟨c, hmiss⟩ := hf.exists_missed
    exact hno c hmiss
  · obtain ⟨c, hmiss⟩ := hf.exists_missed
    exact hno c hmiss

/-- If the table sector of the root directory cannot be read, the allocator hands out cluster 128,
the listing ends as if the directory did, and the insertion loses a cluster. -/
theorem not_faultsStop_firstTableFails :
    wideVolume.fatType = 32 ∧ ¬AllocStops wideVolume firstTableFails longNamesState ∧
      ¬ListStops wideVolume firstTableFails 0 0 (fun _ _ _ => 0) longNamesState 2 ∧
      ¬AddStops wideVolume firstTableFails (letterEntry 0x41) longNamesState 2 := by
  have hmiss : Missed wideVolume firstTableFails 2 := missed_wideVolume (by decide)
  refine ⟨rfl, fun hstop => ?_, fun hstop => ?_, fun hstop => ?_⟩
  · -- the scan passes over the entries that cannot be read
    exact (allocStops_iff rfl _).mp hstop 128 (scanEnds_wideVolume _) 2 le_rfl (by decide) hmiss
  · -- the slots hold long names, which are not shown, so the listing goes on to the link
    have hentry (j : Nat) (hj : j < 16) :
        entryIn (clusterMem wideVolume longNamesState.disk longNamesState.mem 2) j
          = fun _ => 0x0F := by
      rw [entryIn, Nat.mod_eq_of_lt (by rw [diskLocation]; omega)]
      exact slot_longNames _ hj
    refine (listStops_iff rfl _).mp hstop (.here ⟨legible_wideVolume, 15, by decide, ⟨?_, ?_⟩, ?_⟩
      hmiss)
    · exact .inr ⟨by decide, by rw [hentry 15 (by decide)]; decide⟩
    · rintro j hj (hend | ⟨hle, -⟩)
      · rw [hentry j (by omega)] at hend
        exact absurd hend (by decide)
      · exact absurd hle (Nat.not_le.mpr hj)
    · rw [hentry 15 (by decide)]
      decide
  · -- no slot is free, so the insertion goes to the link
    refine (addStops_iff rfl _).mp hstop (by decide +kernel)
      (.here ⟨legible_wideVolume, fun k hk => ?_⟩ hmiss (scanEnds_wideVolume _))
    rw [slot_longNames _ (Nat.lt_succ_of_le hk)]
    decide

end PotatoOS
