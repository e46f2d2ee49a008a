/-
PotatoOS/Halting.lean

Which walks end.

No function of the driver counts its rounds or remembers where it was.  So
`directorySearch`, `directoryAdd` and `getFile` end on an image exactly when
the links they follow do not lead back.  `directoryAdd` also extends a
directory; that part always ends, because each new cluster leaves fewer free
ones, or has an entry that is not stored and leads out of the volume
(`directoryAdd_end_halts`).

Main result: `walks_halt_iff`.
-/
import PotatoOS.Insert
import PotatoOS.Fetch

namespace PotatoOS

open Prog

/-! ### Everything below the walks ends -/

/-- Some cluster gets past the checks of `FATRead` and `FATWrite`. -/
def Globals.Admits (g : Globals) : Prop :=
  2 < g.totalClusters ∧ (g.fatType = 32 ∨ g.fatType = 16)

/-- Why a function of the driver can stop: it comes to what C leaves undefined, or divides by a
cluster size of zero. -/
def DriverStop (g : Globals) (e : Stop) : Prop :=
  e = .undefined ∨ e = .divideByZero ∧ g.clusterSize = 0 ∧ g.Admits

theorem not_driverStop_exhausted (g : Globals) : ¬DriverStop g .exhausted := by
  rintro (h | ⟨h, -⟩)
  · cases h
  · cases h

section

variable {S : Stop → Prop} (env : Env) (g : Globals)

theorem readBlocks_within (lba buffer n : Nat) : Within S (readBlocks env lba buffer n) := by
  induction n generalizing lba buffer with
  | zero => exact .pure _
  | succ n ih =>
      refine .bind (.gets _) fun tick => .ite ?_ ?_
      · exact .bind (.modify _) fun _ => .pure _
      · exact .bind (.modify _) fun _ => ih _ _

theorem writeBlocks_within (lba buffer n : Nat) : Within S (writeBlocks env lba buffer n) := by
  induction n generalizing lba buffer with
  | zero => exact .pure _
  | succ n ih =>
      refine .bind (.gets _) fun tick => .ite ?_ ?_
      · exact .bind (.modify _) fun _ => .pure _
      · exact .bind (.modify _) fun _ => ih _ _

theorem int13hReadO_within (n k off : Nat) : Within S (int13hReadO env n k off) :=
  .ite (.pure _) (.ite (.pure _) (readBlocks_within env _ _ _))

theorem int13hWriteO_within (n k off : Nat) : Within S (int13hWriteO env n k off) :=
  .ite (.pure _) (.ite (.pure _) (writeBlocks_within env _ _ _))

theorem clusterRead_within (c off : Nat) : Within S (clusterRead env g c off) :=
  .ite (.pure _) (.bind (int13hReadO_within env _ _ _) fun _ => .ite (.pure _) (.pure _))

theorem clusterWrite_within (contents : Mem) (n off c : Nat) :
    Within S (clusterWrite env g contents n off c) :=
  .ite (.pure _) (.bind (.modify _) fun _ =>
    .bind (int13hWriteO_within env _ _ _) fun _ => .ite (.pure _) (.pure _))

theorem readEntry_within (hg : g.Admits) (w : Nat) (init : Option UInt8) (c : Nat) :
    Within (DriverStop g) (readEntry env g w init c) := by
  rw [readEntry]
  split
  next h₀ => exact .halt_bind (.inr ⟨rfl, h₀, hg⟩) _
  · refine .bind (int13hReadO_within env _ _ _) fun r => .ite (.pure _) ?_
    refine .ite (.halt_bind (.inl rfl) _) (.bind (.gets _) fun mem => ?_)
    split
    · exact .halt (.inl rfl)
    · exact .pure _

theorem fatRead_within (c : Nat) : Within (DriverStop g) (fatRead env g c) := by
  rw [fatRead]
  split
  · exact .pure _
  next hc =>
    have htwo : 2 < g.totalClusters := by omega
    split
    next h =>
      refine .bind (readEntry_within env g ⟨htwo, .inl h⟩ _ _ _) fun v => ?_
      split
      · exact .pure _
      · exact .pure _
    next =>
      split
      next h =>
        refine .bind (readEntry_within env g ⟨htwo, .inr h⟩ _ _ _) fun v => ?_
        split
        · exact .pure _
        · exact .pure _
      next => exact .pure _

theorem writeEntry_within (hg : g.Admits) (w c v : Nat) :
    Within (DriverStop g) (writeEntry env g w c v) := by
  rw [writeEntry]
  split
  next h₀ => exact .halt_bind (.inr ⟨rfl, h₀, hg⟩) _
  · refine .bind (int13hReadO_within env _ _ _) fun r => .ite (.pure _) ?_
    refine .ite (.halt_bind (.inl rfl) _) (.ite (.halt_bind (.inl rfl) _) ?_)
    refine .bind (.modify _) fun _ => .bind (int13hWriteO_within env _ _ _) fun r => ?_
    exact .ite (.pure _) (.pure _)

theorem fatWrite_within (c v : Nat) : Within (DriverStop g) (fatWrite env g c v) := by
  rw [fatWrite]
  split
  · exact .pure _
  next hc =>
    have htwo : 2 < g.totalClusters := by omega
    split
    next h => exact writeEntry_within env g ⟨htwo, .inl h⟩ _ _ _
    next =>
      split
      next h => exact writeEntry_within env g ⟨htwo, .inr h⟩ _ _ _
      next => exact .pure _

theorem allocateFreeFAT_within : Within (DriverStop g) (allocateFreeFAT env g) := by
  have hloop (free bad last n c : Nat) :
      Within (DriverStop g) (allocLoop env g free bad last n c) := by
    induction n generalizing c with
    | zero => exact .pure _
    | succ n ih =>
        refine .bind (fatRead_within env g c) fun v => .ite ?_ (ih _)
        exact .bind (fatWrite_within env g _ _) fun r => .ite (.pure _) (.pure _)
  exact .ite (hloop _ _ _ _ _) (.ite (hloop _ _ _ _ _) (.ite (hloop _ _ _ _ _) (.pure _)))

theorem storeEntry_within (e : DirectoryEntry) (c k : Nat) :
    Within (DriverStop g) (storeEntry env g e c k) := by
  refine .ite (.pure _) (.bind (allocateFreeFAT_within env g) fun x => .ite (.pure _) ?_)
  refine .bind (.modify _) fun _ => .bind (.gets _) fun mem => ?_
  exact .bind (clusterWrite_within env g _ _ _ _) fun r => .ite (.pure _) (.pure _)

end

/-! ### Insertions -/

-- entry by entry: `DirectoryEntry` is a finite type, but not one to run through
instance (l : List DirectoryEntry) (p : DirectoryEntry → Prop) [DecidablePred p] :
    Decidable (∀ e ∈ l, p e) := List.decidableBAll p l

/-- Where an insertion goes on: at the link of a cluster that can be read and
has no vacant slot. -/
def addLink (g : Globals) (d : Disk) (c : Nat) : Option Nat :=
  if g.Transfers c ∧ (∀ e ∈ dirSlots g d c, ¬ Vacant e) ∧ g.entOffset 4 c < fatTableSize then
    nextCluster g d c
  else none

section

variable {g : Globals} {d : Disk} {c b x fuel : Nat} {s : State} {e : DirectoryEntry}

theorem addLink_eq_some_iff :
    addLink g d c = some b ↔ (g.Transfers c ∧ (∀ e ∈ dirSlots g d c, ¬ Vacant e) ∧
      g.entOffset 4 c < fatTableSize) ∧ nextCluster g d c = some b := by
  rw [addLink]
  split
  next h => exact (and_iff_right h).symm
  next h => exact iff_of_false (Option.some_ne_none b).symm fun h' => h h'.1

theorem addLink_inRange (h : addLink g d c = some b) : g.InRange c :=
  (addLink_eq_some_iff.mp h).1.1.1

theorem mem_dirSlots {k : Nat} (hk : k < 16 * g.sectorsPerCluster) :
    dirSlot g d c k ∈ dirSlots g d c := List.mem_map.mpr ⟨k, List.mem_range.mpr hk, rfl⟩

/-- One cluster of an insertion, on an arbitrary image. -/
theorem directoryAdd_cluster (h : g.IsImage) (hl : testIfFATFormat e.bytes = 0) :
    directoryAdd reliable g e (fuel + 1) c s =
      if g.Transfers c then
        addSlots reliable g e c (directoryAdd reliable g e fuel) g.lastSlot 0 (s.loadCluster g c 0)
      else (.value (-1, e), s) := by
  have hread : clusterRead reliable g c 0 s = _ := clusterRead_run h.bytesPerSector
  rw [directoryAdd, if_neg (not_not.mpr hl), run_state]
  by_cases ht : g.Transfers c
  · rw [if_pos ht] at hread
    rw [if_pos ht, bind_value hread]
    simp only [ne_eq, not_true_eq_false, if_false]
  · rw [if_neg ht] at hread
    rw [if_neg ht, bind_value hread]
    rfl

/-- In a full cluster it goes on behind the last slot. -/
theorem directoryAdd_noVacant (h : g.IsImage) (hl : testIfFATFormat e.bytes = 0)
    (ht : g.Transfers c) (hfull : ∀ e ∈ dirSlots g s.disk c, ¬ Vacant e) :
    directoryAdd reliable g e (fuel + 1) c s =
      addNext reliable g e c (directoryAdd reliable g e fuel) (s.loadCluster g c 0) := by
  have h32 := h.isFat32 ht.2.2
  have hone := h.one_le
  rw [directoryAdd_cluster h hl, if_pos ht, addSlots_full]
  intro k hk
  rw [h32.lastSlot_eq] at hk
  rw [slotAt_loadCluster h32 (by omega)]
  exact hfull _ (mem_dirSlots (by omega))

theorem directoryAdd_link (h : g.IsImage) (hl : testIfFATFormat e.bytes = 0)
    (hb : addLink g s.disk c = some b) (fuel : Nat) :
    directoryAdd reliable g e (fuel + 1) c s
      = directoryAdd reliable g e fuel b ((s.loadCluster g c 0).loadFat g 4 c) := by
  obtain ⟨⟨ht, hfull, hoff⟩, hn⟩ := addLink_eq_some_iff.mp hb
  rw [directoryAdd_noVacant h hl ht hfull, addNext_run (h.isFat32 ht.2.2) ht.1 hoff,
    loadCluster_disk, hn]

/-- In a cluster with a vacant slot it ends: the first one is taken. -/
theorem directoryAdd_vacant_ends (h : g.IsImage) (hl : testIfFATFormat e.bytes = 0)
    (ht : g.Transfers c) (hfull : ¬ ∀ e ∈ dirSlots g s.disk c, ¬ Vacant e) (fuel : Nat) :
    (directoryAdd reliable g e (fuel + 1) c s).1 ≠ .stop .exhausted := by
  have h32 := h.isFat32 ht.2.2
  have hone := h.one_le
  have hex : ∃ k, k < 16 * g.sectorsPerCluster ∧ Vacant (dirSlot g s.disk c k) := by
    simp only [not_forall, not_not] at hfull
    obtain ⟨e', he', hv⟩ := hfull
    obtain ⟨k, hk, rfl⟩ := List.mem_map.mp he'
    exact ⟨k, List.mem_range.mp hk, hv⟩
  classical
  obtain ⟨hk, hv⟩ := Nat.find_spec hex
  rw [directoryAdd_cluster h hl, if_pos ht, addSlots_vacant (k := Nat.find hex)]
  · exact (storeEntry_within reliable g e c _).total (not_driverStop_exhausted g) _
  · rwa [slotAt_loadCluster h32 hk]
  · intro j hj hvj
    rw [slotAt_loadCluster h32 (Nat.lt_trans hj hk)] at hvj
    exact Nat.find_min hex hj ⟨Nat.lt_trans hj hk, hvj⟩
  · exact Nat.zero_le _
  · rw [h32.lastSlot_eq]
    omega

/-- Without a link it ends, or extends the directory. -/
theorem directoryAdd_last (h : g.IsImage) (hl : testIfFATFormat e.bytes = 0)
    (hb : addLink g s.disk c = none) :
    (∀ fuel, (directoryAdd reliable g e (fuel + 1) c s).1 ≠ .stop .exhausted) ∨
      g.Transfers c ∧ g.entOffset 4 c < fatTableSize ∧ endCluster32 ≤ fatValue g s.disk c ∧
        ∀ fuel, directoryAdd reliable g e (fuel + 1) c s = addGrow reliable g e c
          (directoryAdd reliable g e fuel) ((s.loadCluster g c 0).loadFat g 4 c) := by
  by_cases ht : g.Transfers c
  swap
  · left
    intro fuel
    rw [directoryAdd_cluster h hl, if_neg ht]
    simp
  by_cases hfull : ∀ e ∈ dirSlots g s.disk c, ¬ Vacant e
  swap
  · exact .inl (directoryAdd_vacant_ends h hl ht hfull)
  -- a full cluster: the table decides
  have h32 := h.isFat32 ht.2.2
  by_cases hoff : g.entOffset 4 c < fatTableSize
  · have hn : nextCluster g s.disk c = none := by
      rwa [addLink, if_pos ⟨ht, hfull, hoff⟩] at hb
    refine .inr ⟨ht, hoff, nextCluster_eq_none_iff.mp hn, fun fuel => ?_⟩
    rw [directoryAdd_noVacant h hl ht hfull, addNext_run h32 ht.1 hoff, loadCluster_disk, hn]
  · left
    intro fuel
    rw [directoryAdd_noVacant h hl ht hfull, addNext, follow_state,
      bind_stop (fatRead_fat32_undefined h32 ht.1 hoff)]
    simp

/-- The allocator finds the first free cluster, or fails. -/
theorem allocateFreeFAT_cases (h : g.IsFat32) (s : State) :
    (∃ x s', IsFirstFree g s.disk x ∧ allocateFreeFAT reliable g s = (.value x, s') ∧
        s'.disk = setFat g s.disk x endCluster32) ∨
      ∃ s', allocateFreeFAT reliable g s = (.value badCluster32, s') := by
  -- every index that the scan comes to lies in the local array
  have hb : ∀ c, 2 ≤ c → (∀ a, 2 ≤ a → a < c → fatValue g s.disk a ≠ 0) →
      g.entOffset 4 c < fatTableSize := by
    intro c _ hbefore
    by_cases hone : g.sectorsPerCluster = 1
    · exact Nat.lt_trans (h.toBlocks512.inSector_of_one hone 4 c) (by decide)
    · have h₂ : 2 ≤ g.sectorsPerCluster := by
        have := h.one_le
        omega
      apply entOffset_le_128 h h₂
      by_contra hlt
      exact hbefore 128 (by decide) (by omega) (fatValue_128 h h₂ s.disk)
  rcases exists_isFirstFree_or_noFree g s.disk with ⟨x, hx⟩ | hno
  · left
    obtain ⟨s', hrun, hd, -⟩ := allocateFreeFAT_found h hx fun c hc hle =>
      hb c hc fun a ha hlt => hx.least a ha (by omega)
    exact ⟨x, s', hx, hrun, hd⟩
  · right
    obtain ⟨s', hrun, -⟩ := allocateFreeFAT_full h hno fun c hc =>
      hb c hc.1 fun a ha hlt => hno a ⟨ha, Nat.lt_trans hlt hc.2⟩
    exact ⟨s', hrun⟩

/-- Linking a new cluster whose entry is stored leaves fewer free ones. -/
theorem freeClusters_link_stored (h : g.IsFat32) (ht : g.totalClusters ≤ 2 ^ 28)
    (hx : IsFirstFree g d x) (hin : g.InSector 4 x) (hc : endCluster32 ≤ fatValue g d c) :
    freeClusters g (link g d c x) ⊂ freeClusters g d := by
  obtain ⟨hx₂, hxlt⟩ := hx.inRange
  have hcin : g.InSector 4 c := by
    by_contra hno
    rw [fatValue_of_not_inSector hno] at hc
    exact absurd hc (by decide)
  -- a cluster that is free afterwards was free before, and is not the new one
  have hfree : ∀ a, fatValue g (link g d c x) a = 0 → fatValue g d a = 0 ∧ a ≠ x := by
    intro a ha
    rw [link] at ha
    by_cases hoc : g.fatOffset 4 a = g.fatOffset 4 c
    · rw [fatValue_congr hoc, fatValue_setFat_self h hcin] at ha
      omega
    rw [fatValue_setFat_other h hoc] at ha
    refine ⟨free_of_free_setFat h hin ha, ?_⟩
    rintro rfl
    rw [fatValue_setFat_self h hin] at ha
    exact absurd ha (by decide)
  refine (Finset.ssubset_iff_of_subset fun a ha => ?_).mpr ⟨x, ?_, ?_⟩
  · obtain ⟨hr, h₀⟩ := mem_freeClusters.mp ha
    exact mem_freeClusters.mpr ⟨hr, (hfree a h₀).1⟩
  · exact mem_freeClusters.mpr ⟨hx.inRange, hx.free⟩
  · intro hmem
    exact (hfree x (mem_freeClusters.mp hmem).2).2 rfl

/-- A cluster whose entry reads as zero leads out of the volume. -/
theorem directoryAdd_zero_halts (h : g.IsImage) (hl : testIfFATFormat e.bytes = 0)
    (h₀ : fatValue g s.disk c = 0) : Halts (fun fuel => directoryAdd reliable g e fuel c) s := by
  rcases hb : addLink g s.disk c with - | b
  · rcases directoryAdd_last h hl hb with hend | ⟨-, -, hend, -⟩
    · exact ⟨1, hend 0⟩
    · rw [h₀] at hend
      exact absurd hend (by decide)
  · obtain ⟨-, hn⟩ := addLink_eq_some_iff.mp hb
    obtain ⟨-, rfl⟩ := nextCluster_eq_some_iff.mp hn
    have hout : ¬ g.Transfers 0 := fun ht => absurd ht.1.1 (by decide)
    refine ⟨2, ?_⟩
    show (directoryAdd reliable g e 2 c s).1 ≠ .stop .exhausted
    rw [directoryAdd_link h hl hb, h₀, directoryAdd_cluster h hl, if_neg hout]
    simp

/-- An extension ends when the insertion into the new cluster does. -/
theorem addGrow_halts (h : g.IsFat32) (hc : g.InRange c) (hoff : g.entOffset 4 c < fatTableSize)
    (hnew : ∀ x s', IsFirstFree g s.disk x → s'.disk = link g s.disk c x →
      Halts (fun fuel => directoryAdd reliable g e fuel x) s') :
    Halts (fun fuel => addGrow reliable g e c (directoryAdd reliable g e fuel)) s := by
  rcases allocateFreeFAT_cases h s with ⟨x, s₁, hx, hrun, hd₁⟩ | ⟨s₁, hrun⟩
  · obtain ⟨s₂, hw, hd₂, -⟩ := fatWrite_fat32 (v := x) (s := s₁) h hc hoff
    rw [hd₁] at hd₂
    obtain ⟨fuel, hfuel⟩ := hnew x s₂ hx hd₂
    refine ⟨fuel, ?_⟩
    show (addGrow reliable g e c (directoryAdd reliable g e fuel) s).1 ≠ .stop .exhausted
    rw [addGrow, bind_value hrun]
    by_cases hbad : g.isBadMark x
    · rw [if_pos hbad]
      simp
    · rw [if_neg hbad, write_state, bind_value hw]
      simpa using hfuel
  · -- no free cluster
    refine ⟨0, ?_⟩
    show (addGrow reliable g e c (directoryAdd reliable g e 0) s).1 ≠ .stop .exhausted
    rw [addGrow, bind_value hrun, if_pos ((h.isBadMark_iff _).mpr rfl)]
    simp

/-- A new cluster is the last one of its directory. -/
theorem endCluster_le_link (h : g.IsFat32) (hx : IsFirstFree g d x) (hin : g.InSector 4 x)
    (hc : endCluster32 ≤ fatValue g d c) : endCluster32 ≤ fatValue g (link g d c x) x := by
  have hne : g.fatOffset 4 x ≠ g.fatOffset 4 c := by
    intro heq
    rw [← fatValue_congr heq, hx.free] at hc
    exact absurd hc (by decide)
  rw [link, fatValue_setFat_other h hne, fatValue_setFat_self h hin]
  decide

/-- From the last cluster of a directory on an insertion ends. -/
theorem directoryAdd_end_halts (h : g.IsFat32) (ht : g.totalClusters ≤ 2 ^ 28)
    (hl : testIfFATFormat e.bytes = 0) (hend : endCluster32 ≤ fatValue g s.disk c) :
    Halts (fun fuel => directoryAdd reliable g e fuel c) s := by
  induction hfree : freeClusters g s.disk using Finset.strongInduction generalizing s c with
  | H F ih =>
    rcases hb : addLink g s.disk c with - | b
    swap
    · obtain ⟨-, hn⟩ := addLink_eq_some_iff.mp hb
      obtain ⟨hlt, -⟩ := nextCluster_eq_some_iff.mp hn
      exact absurd hend (Nat.not_le.mpr hlt)
    rcases directoryAdd_last h.isImage hl hb with hdone | ⟨htr, hoff, -, hgrow⟩
    · exact ⟨1, hdone 0⟩
    have hd : ((s.loadCluster g c 0).loadFat g 4 c).disk = s.disk := loadCluster_disk s g c 0
    obtain ⟨fuel, hfuel⟩ := addGrow_halts (e := e) h htr.1 hoff fun x s' hx hs' => by
      rw [hd] at hx hs'
      by_cases hin : g.InSector 4 x
      · -- the new cluster is no longer free
        refine ih _ ?_ ?_ rfl
        · rw [← hfree, hs']
          exact freeClusters_link_stored h ht hx hin hend
        · rw [hs']
          exact endCluster_le_link h hx hin hend
      · exact directoryAdd_zero_halts h.isImage hl (fatValue_of_not_inSector hin)
    refine ⟨fuel + 1, ?_⟩
    show (directoryAdd reliable g e (fuel + 1) c s).1 ≠ .stop .exhausted
    rw [hgrow fuel]
    exact hfuel

theorem directoryAdd_loop (h : g.IsImage) (ht : g.totalClusters ≤ 2 ^ 28)
    (hl : testIfFATFormat e.bytes = 0) (d : Disk) :
    Loop (directoryAdd reliable g e) id (addLink g d) (fun s => s.disk = d) where
  none_left _ _ := rfl
  round := by
    rintro c s b rfl hb
    exact ⟨b, (s.loadCluster g c 0).loadFat g 4 c, rfl, loadCluster_disk s g c 0,
      directoryAdd_link h hl hb⟩
  last := by
    rintro c s rfl hb
    rcases directoryAdd_last h hl hb with hdone | ⟨htr, -, hend, -⟩
    · exact ⟨1, hdone 0⟩
    · exact directoryAdd_end_halts (h.isFat32 htr.2.2) ht hl hend

end

/-! ### Which walks end -/

section

variable {g : Globals} {s : State}

theorem directorySearch_halts_iff_name (h : g.IsImage) (filepart : Mem) (c : Nat) :
    Halts (fun fuel => directorySearch reliable g filepart fuel c) s ↔
      ∀ key, searchName filepart = some key → ¬ Cycles (searchLink g s.disk (nameOf key)) c := by
  rcases hkey : searchName filepart with - | key
  · exact iff_of_true ⟨1, (directorySearch_noName hkey).1⟩ nofun
  · rw [directorySearch_halts_iff h hkey]
    simp

theorem directoryAdd_halts_iff (h : g.IsImage) (ht : g.totalClusters ≤ 2 ^ 28)
    (e : DirectoryEntry) (c : Nat) :
    Halts (fun fuel => directoryAdd reliable g e fuel c) s ↔
      (testIfFATFormat e.bytes = 0 → ¬ Cycles (addLink g s.disk) c) := by
  by_cases hl : testIfFATFormat e.bytes = 0
  · rw [(directoryAdd_loop h ht hl s.disk).halts_iff (i := c) rfl (finite_inRange g)
      fun _ _ => addLink_inRange]
    simp [hl]
  · refine iff_of_true ⟨1, ?_⟩ fun h' => absurd h' hl
    show (directoryAdd reliable g e 1 c s).1 ≠ .stop .exhausted
    rw [directoryAdd, if_pos hl]
    simp

/-- Behind its path `getFile` ends exactly when the chain of the file does. -/
theorem readFound_halts_iff (h : g.IsFat32) {c off : Nat} {e : DirectoryEntry} :
    Halts (fun fuel => readFound reliable g fuel off (.ok (c, some e))) s ↔
      (¬ e.isDirectory → SizeOk g e off →
        ¬ Cycles (readLink g s.disk) (getClusterFromEntry g e)) := by
  by_cases hread : ¬ e.isDirectory ∧ SizeOk g e off
  · obtain ⟨hfile, hsize⟩ := hread
    simp only [readFound_file h.bytesPerSector hfile hsize, hfile, hsize, not_false_eq_true,
      forall_const]
    rw [halts_bind_iff (fun hle => readLoop_mono hle off _ 0) fun _ _ => .refl _,
      readLoop_halts_iff h (getClusterFromEntry_lt g e)]
    exact and_iff_left fun _ _ _ _ => .of_total 0 (.ite (.pure _) (.pure _))
  · refine iff_of_true (.of_total 0 ?_) fun hfile hsize => absurd ⟨hfile, hsize⟩ hread
    rw [readFound_other h.bytesPerSector hread]
    exact .pure _

theorem getFile_halts_iff (h : g.IsImage) (path : CString) (off : Nat) :
    Halts (fun fuel => getFile reliable g fuel path off) s ↔
      (∀ b name, Searched g s.disk (piecesOf path) g.rootCluster b name →
        ¬ Cycles (searchLink g s.disk name) b) ∧
      ∀ es e, Trail g (FoundIn g s.disk) (piecesOf path) g.rootCluster (es ++ [e]) →
        ¬ e.isDirectory → SizeOk g e off →
        ¬ Cycles (readLink g s.disk) (getClusterFromEntry g e) := by
  simp only [getFile_eq_readFound h.fatType]
  rw [halts_bind_iff (fun hle => walkPath_mono hle path) fun r hle => readFound_mono hle off r,
    walkPath_halts_iff h]
  refine and_congr_right fun _ => ⟨fun hall es e ht => ?_, fun hall N r s' hr => ?_⟩
  · -- the trail is what some run resolves the path to
    obtain ⟨N, hN⟩ := ht.run (searchSpec_reliable h s.disk)
    obtain ⟨s', hrun, hd⟩ := hN N (Nat.le_refl N) s rfl
    have := hall N _ s' (walkPath_eq_some_iff.mpr ⟨rfl, es, hrun⟩)
    rwa [readFound_halts_iff (h.isFat32 ht.le), hd] at this
  · rcases r with code | ⟨c, - | e⟩
    · exact .of_total 0 (.pure _)
    · exact .of_total 0 .undefined
    · obtain ⟨-, es, hrun⟩ := walkPath_eq_some_iff.mp hr
      obtain ⟨ht, hd⟩ := Trail.of_run (searchSpec_reliable h s.disk) rfl hrun
      rw [readFound_halts_iff (h.isFat32 ht.le), hd]
      exact hall es e ht

/-- On every image the walks end exactly when the links that they follow do not
lead back. -/
theorem walks_halt_iff (h : g.IsImage) (ht : g.totalClusters ≤ 2 ^ 28) (s : State) :
    (∀ filepart c, Halts (fun fuel => directorySearch reliable g filepart fuel c) s ↔
      ∀ key, searchName filepart = some key → ¬ Cycles (searchLink g s.disk (nameOf key)) c) ∧
    (∀ e c, Halts (fun fuel => directoryAdd reliable g e fuel c) s ↔
      (testIfFATFormat e.bytes = 0 → ¬ Cycles (addLink g s.disk) c)) ∧
    ∀ path off, Halts (fun fuel => getFile reliable g fuel path off) s ↔
      (∀ b name, Searched g s.disk (piecesOf path) g.rootCluster b name →
        ¬ Cycles (searchLink g s.disk name) b) ∧
      ∀ es e, Trail g (FoundIn g s.disk) (piecesOf path) g.rootCluster (es ++ [e]) →
        ¬ e.isDirectory → SizeOk g e off → ¬ Cycles (readLink g s.disk) (getClusterFromEntry g e) :=
  ⟨directorySearch_halts_iff_name h, directoryAdd_halts_iff h ht, getFile_halts_iff h⟩

end

/-! ### A directory that ends and one that does not -/

section

variable {d : Disk} (hd : d (smallVolume.lba 2) = fun _ => 0x42)

include hd

theorem dirSlot_filled {k : Nat} (hk : k < 16) (j : Fin 32) :
    dirSlot smallVolume d 2 k j = 0x42 := by
  have hj := j.isLt
  have hlt : 32 * k + j < 512 := by omega
  show d (smallVolume.lba 2 + (32 * k + j) / 512) ((32 * k + j) % 512) = 0x42
  rw [Nat.div_eq_of_lt hlt, Nat.add_zero, hd]

/-- In a full directory cluster a search for another name goes on at the link. -/
theorem searchLink_filled {name : Name} {b : Nat} (hname : name 0 ≠ 0x42)
    (hn : nextCluster smallVolume d 2 = some b) : searchLink smallVolume d name 2 = some b := by
  refine searchLink_eq_some_iff.mpr ⟨⟨by decide, scan_eq_pass_iff.mpr ?_, by decide⟩, hn⟩
  intro e he
  obtain ⟨k, hk, rfl⟩ := List.mem_map.mp he
  have hslot := dirSlot_filled hd (List.mem_range.mp hk)
  constructor
  · intro hend
    rw [IsEnd, hslot] at hend
    exact absurd hend (by decide)
  · rintro rfl
    exact hname (hslot _)

theorem addLink_filled {b : Nat} (hn : nextCluster smallVolume d 2 = some b) :
    addLink smallVolume d 2 = some b := by
  refine addLink_eq_some_iff.mpr ⟨⟨by decide, ?_, by decide⟩, hn⟩
  intro e he
  obtain ⟨k, hk, rfl⟩ := List.mem_map.mp he
  rw [Vacant, dirSlot_filled hd (List.mem_range.mp hk)]
  decide

end

/-- A root directory of two clusters, the first one full, and a file of two
clusters whose entry stands in the second. -/
def longState : State where
  disk := fun lba =>
    if lba = partStartLba + 32 then fun i => leBytes
      (if i / 4 = 2 then 4 else if i / 4 = 3 then 5 else if i / 4 ≤ 5 then endCluster32 else 0)
      (i % 4)
    else if lba = partStartLba + 40 then fun _ => 0x42
    else if lba = partStartLba + 42 then fileEntry.bytes
    else fun _ => 0
  mem := fun _ => 0
  tick := 0
  log := []

theorem longState_filled : longState.disk (smallVolume.lba 2) = fun _ => 0x42 := rfl

theorem nextCluster_longState : nextCluster smallVolume longState.disk 2 = some 4 := by decide

theorem dirSlot_longState : dirSlot smallVolume longState.disk 4 0 = fileEntry := by decide

/-- The search for the file goes on to the second cluster, where it finds the entry. -/
theorem search_longState {name : Name} (hname : name = fun _ => 0x41) :
    FoundIn smallVolume longState.disk name 2 fileEntry ∧
      ¬ Cycles (searchLink smallVolume longState.disk name) 2 := by
  have hhit : lookup name (dirSlots smallVolume longState.disk 4) = .hit 0 := by
    refine lookup_first smallVolume_isImage (by decide) ?_
    rw [dirSlot_longState, hname]
    decide
  have hlink : searchLink smallVolume longState.disk name 2 = some 4 := by
    refine searchLink_filled longState_filled ?_ nextCluster_longState
    rw [hname]
    decide
  have hlast : searchLink smallVolume longState.disk name 4 = none := by
    rw [searchLink, hhit, if_neg (by simp)]
  exact ⟨.next hlink (dirSlot_longState ▸ .here (by decide) hhit),
    (ChainFrom.cons hlink (.last hlast)).not_cycles⟩

/-- The file takes clusters 3 and 5. -/
theorem read_longState :
    ¬ Cycles (readLink smallVolume longState.disk) (getClusterFromEntry smallVolume fileEntry) := by
  rw [show getClusterFromEntry smallVolume fileEntry = 3 by decide]
  have h₃ : readLink smallVolume longState.disk 3 = some 5 := by decide
  have h₅ : readLink smallVolume longState.disk 5 = some endCluster32 := by decide
  exact (ChainFrom.cons h₃ (.cons h₅ (.last (by decide)))).not_cycles

/-- All walks end there: along the directory, and along the file. -/
theorem walks_halt_longState :
    Halts (fun fuel => directorySearch reliable smallVolume
        (textOf (List.replicate 11 0x41)) fuel 2) longState ∧
      Halts (fun fuel => directoryAdd reliable smallVolume (letterEntry 0x43) fuel 2) longState ∧
      Halts (fun fuel => getFile reliable smallVolume fuel filePath 1) longState := by
  obtain ⟨hsearch, hadd, hget⟩ := walks_halt_iff smallVolume_isImage (by decide) longState
  obtain ⟨key, hkey, hk⟩ := searchName_letters (b := 0x41) (by decide) (by decide)
  obtain ⟨hfound, hends⟩ := search_longState hk
  refine ⟨(hsearch _ _).mpr fun key' hkey' => ?_, (hadd _ _).mpr fun _ => ?_,
    (hget _ _).mpr ⟨fun b name hb => ?_, fun es e ht _ _ => ?_⟩⟩
  · obtain rfl := Option.some.inj (hkey.symm.trans hkey')
    exact hends
  · -- the second cluster has a vacant slot
    refine (ChainFrom.cons (addLink_filled longState_filled nextCluster_longState)
      (.last ?_)).not_cycles
    rw [addLink, if_neg]
    rintro ⟨-, hfull, -⟩
    exact hfull (dirSlot smallVolume longState.disk 4 1) (mem_dirSlots (by decide)) (by decide)
  · rw [piecesOf_filePath] at hb
    cases hb with
    | here hkey' =>
        obtain rfl := Option.some.inj (hkey.symm.trans hkey')
        exact hends
    | later _ _ hb => cases hb
  · rw [piecesOf_filePath] at ht
    have hone := ht.unique (.step hkey hfound .here) fun _ _ _ _ hf hf' => hf.unique hf'
    obtain ⟨-, he⟩ := List.append_inj' (show es ++ [e] = [] ++ [fileEntry] from hone) rfl
    obtain rfl := List.singleton_inj.mp he
    exact read_longState

/-- The volume with a full root directory whose cluster leads back to itself. -/
def loopState : State := smallState (fun _ => 2) fun _ => 0x42

/-- The volume with a file whose cluster leads back to itself. -/
def loopFileState : State :=
  smallState (fun c => if c = 3 then 3 else endCluster32) fileEntry.bytes

/-- A cluster that leads back to itself keeps each of the walks going. -/
theorem not_walks_halt_loopState :
    smallVolume.IsImage ∧ smallVolume.totalClusters ≤ 2 ^ 28 ∧
      ¬ Halts (fun fuel => directorySearch reliable smallVolume
        (textOf (List.replicate 11 0x41)) fuel 2) loopState ∧
      ¬ Halts (fun fuel => directoryAdd reliable smallVolume (letterEntry 0x41) fuel 2)
        loopState ∧
      ¬ Halts (fun fuel => getFile reliable smallVolume fuel filePath 1) loopState ∧
      ¬ Halts (fun fuel => getFile reliable smallVolume fuel filePath 1) loopFileState := by
  have h := smallVolume_isImage
  have hself : ∀ {link : Nat → Option Nat}, link 2 = some 2 → Cycles link 2 :=
    fun hl => ⟨2, .refl, .single hl⟩
  obtain ⟨key, hkey, hk⟩ := searchName_letters (b := 0x41) (by decide) (by decide)
  have hcyc : Cycles (searchLink smallVolume loopState.disk (nameOf key)) 2 := by
    refine hself (searchLink_filled rfl ?_ (by decide))
    rw [hk]
    decide
  refine ⟨h, by decide, ?_, ?_, ?_, ?_⟩
  · rw [directorySearch_halts_iff h hkey]
    exact not_not.mpr hcyc
  · rw [directoryAdd_halts_iff h (by decide)]
    exact fun hno => hno (by decide) (hself (addLink_filled rfl (by decide)))
  · -- the search of the root directory does not end
    rw [getFile_halts_iff h]
    intro hno
    rw [piecesOf_filePath] at hno
    exact hno.1 2 _ (.here hkey) hcyc
  · -- the directory ends here, and the file that it leads to does not
    rw [getFile_halts_iff h]
    intro hno
    obtain ⟨N, c, s', hrun⟩ := resolves_fileEntry (s := loopFileState) (by decide) (by decide)
    obtain ⟨-, es, hes⟩ := walkPath_eq_some_iff.mp hrun
    have htrail := (Trail.of_run (searchSpec_reliable h _) rfl hes).1
    refine hno.2 es fileEntry htrail (by decide) (by decide) ⟨3, ?_, .single ?_⟩
    · rw [show getClusterFromEntry smallVolume fileEntry = 3 by decide]
    · show readLink smallVolume loopFileState.disk 3 = some 3
      decide

end PotatoOS
