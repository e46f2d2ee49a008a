/-
PotatoOS/Put.lean

The effect of `putFile` on a volume, on the reliable drive.

`writeLoop` extends a chain that ends at its cluster by clusters that were
free, and writes to clusters of this chain only (`writeLoop_written`).
Together with the insertion of the entry this is an insertion into the tree
of directories, provided that the entry finds a good place (`Place`): the
conditions that the code does not meet by itself.  Main result:
`putFile_effect`.
-/
import PotatoOS.Tree
import PotatoOS.Atomic

namespace PotatoOS

open Prog

/-! ### Writing the contents -/

/-- The chain that ended at `c` has become `lx`, by free clusters; no other
cluster has changed. -/
structure Written (g : Globals) (d d' : Disk) (c : Nat) (lx : List Nat) : Prop where
  chain : IsChain g d' c lx
  fresh : ∀ b ∈ lx, b = c ∨ fatValue g d b = 0
  fat : ∀ b, g.InRange b → b ∉ lx → fatValue g d' b = fatValue g d b
  data : ∀ b, g.InRange b → b ∉ lx → data g d' b = data g d b

section

variable {g : Globals} {d d' : Disk} {s s' : State} {c n : Nat} {lx : List Nat} {contents : Mem}
  {size fuel left : Nat} {code : Int} {src : Mem}

theorem Written.refl (hch : IsChain g d c [c]) : Written g d d c [c] where
  chain := hch
  fresh _ hb := .inl (List.mem_singleton.mp hb)
  fat _ _ _ := rfl
  data _ _ _ := rfl

/-- The contents of the cluster do not matter to the chain. -/
theorem Written.setData (h : g.IsVolume) (hch : IsChain g d c [c]) :
    Written g d (PotatoOS.setData g d c src) c [c] where
  chain := hch.congr fun a ha => fatValue_setData h hch.head_inRange (hch.inRange a ha)
  fresh _ hb := .inl (List.mem_singleton.mp hb)
  fat _ hb _ := fatValue_setData h hch.head_inRange hb
  data _ hb hne := data_setData_other h.toOneSector hch.head_inRange hb fun e =>
    hne (List.mem_singleton.mpr e)

/-- One more cluster behind the first. -/
theorem Written.cons (h : g.IsVolume) (hch : IsChain g d c [c]) (hn : IsFirstFree g d n)
    (hw : Written g (link g d c n) d' n lx) : Written g d d' c (c :: lx) ∧ c ∉ lx := by
  have hc := hch.head_inRange
  have hne : n ≠ c := fun e => hn.not_mem hch (List.mem_singleton.mpr e)
  have hval : ∀ b, g.InRange b → fatValue g (link g d c n) b
      = if b = c then n else if b = n then endCluster32 else fatValue g d b := fun b hb =>
    fatValue_link h.toOneSector hc hn.inRange hb hne
  have hcn : fatValue g (link g d c n) c = n := by rw [hval c hc, if_pos rfl]
  have hn₀ : n ≠ 0 := by
    have := hn.inRange.1
    omega
  -- the first cluster is in use by now, so it is not taken again
  have hnot : c ∉ lx := by
    intro hmem
    rcases hw.fresh c hmem with e | hfree
    · exact hne e.symm
    · exact hn₀ (hcn ▸ hfree)
  have hlink : nextCluster g d' c = some n := by
    have hlt := h.toOneSector.lt_of_inRange hn.inRange
    have hv : fatValue g d' c = n := (hw.fat c hc hnot).trans hcn
    refine nextCluster_eq_some_iff.mpr ⟨?_, hv⟩
    rw [hv]
    exact Nat.lt_succ_of_lt hlt
  refine ⟨⟨⟨.cons hlink hw.chain.chain, ?_⟩, ?_, ?_, ?_⟩, hnot⟩
  · intro b hb
    rcases List.mem_cons.mp hb with rfl | hb
    · exact hc
    · exact hw.chain.inRange b hb
  · intro b hb
    rcases List.mem_cons.mp hb with rfl | hb
    · exact .inl rfl
    · right
      rcases hw.fresh b hb with rfl | hfree
      · exact hn.free
      · rw [hval b (hw.chain.inRange b hb)] at hfree
        split at hfree
        · exact absurd hfree hn₀
        · split at hfree
          · exact absurd hfree (by decide)
          · exact hfree
  · intro b hb hmem
    obtain ⟨hbc, hbx⟩ := not_or.mp fun hor => hmem (List.mem_cons.mpr hor)
    have hbn : b ≠ n := fun e => hbx (e ▸ hw.chain.chain.head_mem)
    rw [hw.fat b hb hbx, hval b hb, if_neg hbc, if_neg hbn]
  · intro b hb hmem
    obtain ⟨hbc, hbx⟩ := not_or.mp fun hor => hmem (List.mem_cons.mpr hor)
    rw [hw.data b hb hbx, data_link h hc hn.inRange hb]

/-- Writing the sector of the first cluster comes first. -/
theorem Written.of_setData (h : g.IsVolume) (hc : g.InRange c)
    (hw : Written g (PotatoOS.setData g d c src) d' c lx) : Written g d d' c lx where
  chain := hw.chain
  fresh b hb := by
    rw [← fatValue_setData h hc (hw.chain.inRange b hb)]
    exact hw.fresh b hb
  fat b hb hne := by rw [hw.fat b hb hne, fatValue_setData h hc hb]
  data b hb hne := by
    rw [hw.data b hb hne, data_setData_other h.toOneSector hc hb]
    rintro rfl
    exact hne hw.chain.chain.head_mem

/-- One round of the write loop: the sector, then the end or a new cluster. -/
theorem writeLoop_round (contents : Mem) (size fuel : Nat) (h : g.OneSector) (hc : g.InRange c)
    (hp : g.OnPartition c) (hleft : left ≠ 0) :
    ∃ s₁ src left', s₁.disk = setData g s.disk c src ∧
      (∀ i < 512, i < left → src i = contents ((size + (2 ^ 32 - left)) % 2 ^ 32 + i)) ∧
      (left < 512 → left' = 0) ∧
      writeLoop reliable g contents size (fuel + 1) left c s =
        if left' = 0 then (.value 0, s₁)
        else (do
          let newCluster ← allocateFreeFAT reliable g
          if g.isBadMark newCluster then return -1
          if (← fatWrite reliable g c newCluster) ≠ 0 then return -1
          writeLoop reliable g contents size fuel left' newCluster : Prog State Int) s₁ := by
  obtain ⟨s₁, hw, hm, hd⟩ := clusterWrite_spec (s := s) h hc hp
    (fun i => contents ((size + (2 ^ 32 - left)) % 2 ^ 32 + i))
    (if left ≥ 512 then 512 + 1 else left) 1 (Nat.le_refl 1)
  refine ⟨s₁, _, (left + (2 ^ 32 - if left ≥ 512 then 512 + 1 else left)) % 2 ^ 32, hd, ?_, ?_, ?_⟩
  · -- 513 bytes are copied for a full sector, the last of them behind it
    intro i hi hlt
    have hsize : (if left ≥ 512 then 512 + 1 else left) ≤ 513 := by
      split <;> omega
    rw [hm, memcpy32_eq (by rw [diskLocation]; omega)]
    refine memcpy_apply_add ?_
    split <;> omega
  · -- below 512 exactly what is left is taken off
    intro hlt
    rw [if_neg (by omega), Nat.add_sub_cancel' (by omega), Nat.mod_self]
  · rw [writeLoop, if_neg hleft, h.clusterSize_eq_512]
    refine (bind_value hw).trans ?_
    simp only [ne_eq, not_true_eq_false, if_false]
    generalize (left + (2 ^ 32 - if left ≥ 512 then 512 + 1 else left)) % 2 ^ 32 = left'
    rw [Prog.ite_apply]
    rfl

/-- A sector behind the end of the partition is not written. -/
theorem writeLoop_offPartition (contents : Mem) (size fuel : Nat) (h : g.OneSector)
    (hp : ¬ g.OnPartition c) (hleft : left ≠ 0) :
    ∃ s', writeLoop reliable g contents size (fuel + 1) left c s = (.value (-1), s') ∧
      s'.disk = s.disk := by
  rw [writeLoop, if_neg hleft]
  obtain ⟨s', hw, hd⟩ := clusterWrite_offPartition (s := s) h hp
    (fun i => contents ((size + (2 ^ 32 - left)) % 2 ^ 32 + i))
    (if left ≥ g.clusterSize then g.clusterSize + 1 else left) 1
  exact ⟨s', bind_value hw, hd⟩

/-- What the write loop does, whether or not it finds enough clusters. -/
theorem writeLoop_written (h : g.IsVolume) (hch : IsChain g s.disk c [c])
    (hrun : writeLoop reliable g contents size fuel left c s = (.value code, s')) :
    ∃ lx, Written g s.disk s'.disk c lx ∧ (left ≠ 0 → g.OnPartition c → ∀ i < 512, i < left →
      data g s'.disk c i = contents ((size + (2 ^ 32 - left)) % 2 ^ 32 + i)) := by
  induction fuel generalizing s c left with
  | zero => cases hrun
  | succ fuel ih =>
      have hc := hch.head_inRange
      by_cases hleft : left = 0
      · rw [writeLoop, if_pos hleft] at hrun
        cases hrun
        exact ⟨[c], .refl hch, fun hne => absurd hleft hne⟩
      by_cases hp : g.OnPartition c
      swap
      · obtain ⟨s₁, hround, hd⟩ :=
          writeLoop_offPartition (s := s) contents size fuel h.toOneSector hp hleft
        rw [hround] at hrun
        cases hrun
        exact ⟨[c], hd.symm ▸ .refl hch, fun _ hpc => absurd hpc hp⟩
      obtain ⟨s₁, src, left', hd, hsrc, -, hround⟩ :=
        writeLoop_round (s := s) contents size fuel h.toOneSector hc hp hleft
      have hw₁ : Written g s.disk s₁.disk c [c] := hd ▸ .setData h hch
      have hbytes : ∀ i < 512, i < left →
          data g s₁.disk c i = contents ((size + (2 ^ 32 - left)) % 2 ^ 32 + i) := by
        intro i hi hlt
        rw [hd, data_setData_self _ _ _ hi, hsrc i hi hlt]
      rw [hround] at hrun
      split at hrun
      · cases hrun
        exact ⟨[c], hw₁, fun _ _ => hbytes⟩
      rcases exists_isFirstFree_or_noFree g s₁.disk with ⟨n, hn⟩ | hno
      · -- a new cluster is linked behind this one
        obtain ⟨s₂, ha, hd₂, -⟩ := allocate_found h.toOneSector hn
        obtain ⟨s₃, hf, hd₃, -⟩ := fatWrite_spec (s := s₂) h.toOneSector hc n
        rw [bind_value ha, if_neg (not_isBadMark h.toOneSector hn.inRange), bind_value hf] at hrun
        have hlink : s₃.disk = link g s₁.disk c n := by rw [hd₃, hd₂]; rfl
        have hne : n ≠ c := fun e => hn.not_mem hw₁.chain (List.mem_singleton.mpr e)
        obtain ⟨lx, hwx, -⟩ := ih (hlink ▸ isChain_link_new h.toOneSector hc hn.inRange hne) hrun
        rw [hlink] at hwx
        obtain ⟨hwc, hnot⟩ := hwx.cons h hw₁.chain hn
        refine ⟨c :: lx, .of_setData h hc (hd ▸ hwc), fun _ _ i hi hlt => ?_⟩
        rw [hwx.data c hc hnot, data_link h hc hn.inRange hc, hbytes i hi hlt]
      · obtain ⟨s₂, ha, hd₂⟩ := allocate_full h.toOneSector hno
        rw [bind_value ha, if_pos ((h.isBadMark_iff _).mpr rfl)] at hrun
        cases hrun
        rw [hd₂]
        exact ⟨[c], hw₁, fun _ _ => hbytes⟩

theorem writeLoop_zero
    (hrun : writeLoop reliable g contents size fuel 0 c s = (.value code, s')) : s' = s := by
  cases fuel with
  | zero => cases hrun
  | succ fuel =>
      rw [writeLoop, if_pos rfl] at hrun
      cases hrun
      rfl

/-- Less than a sector is written in one round. -/
theorem writeLoop_short (contents : Mem) (size fuel : Nat) (h : g.OneSector) (hc : g.InRange c)
    (hp : g.OnPartition c) (h₁ : left ≠ 0) (h₂ : left < 512) :
    ∃ s' src, writeLoop reliable g contents size (fuel + 1) left c s = (.value 0, s') ∧
      s'.disk = setData g s.disk c src ∧
      ∀ i < left, src i = contents ((size + (2 ^ 32 - left)) % 2 ^ 32 + i) := by
  obtain ⟨s₁, src, left', hd, hsrc, hend, hround⟩ :=
    writeLoop_round (s := s) contents size fuel h hc hp h₁
  rw [if_pos (hend h₂)] at hround
  exact ⟨s₁, src, hround, hd, fun i hi => hsrc i (by omega) hi⟩

end

/-! ### More steps -/

section

variable {env : Env} {g : Globals} {fuel fuel' : Nat} {e : DirectoryEntry}

theorem addSlots_mono {next next' : Nat → Prog State (Int × DirectoryEntry)}
    (hnext : ∀ b, Extends (next b) (next' b)) (c n count : Nat) :
    Extends (addSlots env g e c next n count) (addSlots env g e c next' n count) := by
  have hslot : ∀ count {m m' : Prog State (Int × DirectoryEntry)}, Extends m m' →
      Extends (addSlot env g e c count m) (addSlot env g e c count m') := fun count m m' hm =>
    .bind (.refl _) fun _ => .ite hm (.refl _)
  induction n generalizing count with
  | zero =>
      refine hslot count (.bind (.refl _) fun v => .ite ?_ (hnext _))
      exact .bind (.refl _) fun x => .ite (.refl _) (.bind (.refl _) fun _ =>
        .ite (.refl _) (hnext x))
  | succ n ih => exact hslot count (ih (count + 1))

theorem directoryAdd_mono (hle : fuel ≤ fuel') (c : Nat) :
    Extends (directoryAdd env g e fuel c) (directoryAdd env g e fuel' c) := by
  refine .budget (F := directoryAdd env g e) (fun _ => rfl) (fun ih c => ?_) hle c
  rw [directoryAdd, directoryAdd]
  exact .ite (.refl _) (.bind (.refl _) fun _ => .ite (.refl _) (addSlots_mono ih c _ 0))

theorem writeLoop_mono (hle : fuel ≤ fuel') (contents : Mem) (size left c : Nat) :
    Extends (writeLoop env g contents size fuel left c)
      (writeLoop env g contents size fuel' left c) := by
  refine .budget (F := fun fuel i => writeLoop env g contents size fuel i.1 i.2) (fun _ => rfl)
    (fun ih i => ?_) hle (left, c)
  rw [writeLoop, writeLoop]
  exact .ite (.refl _) (.bind (.refl _) fun _ => .ite (.refl _) (.ite (.refl _)
    (.bind (.refl _) fun n => .ite (.refl _) (.bind (.refl _) fun _ => .ite (.refl _)
      (ih (_, n))))))

theorem putTarget_mono (hle : fuel ≤ fuel') (path : CString) (output : Mem) :
    Extends (putTarget env g fuel path e output) (putTarget env g fuel' path e output) := by
  rw [putTarget, putTarget]
  refine .ite (.refl _) (.ite (.refl _) (.bind ?_ fun r => ?_))
  · exact .ite (.refl _) (walkPath_mono hle path)
  · rcases r with code | ⟨c, info⟩
    · exact .refl _
    · refine .bind (directorySearch_mono hle _ c) fun r => ?_
      rcases r with code | r <;> exact .refl _

theorem putStore_mono (hle : fuel ≤ fuel') (contents output : Mem) (c : Nat) :
    Extends (putStore env g fuel contents e output c)
      (putStore env g fuel' contents e output c) := by
  rw [putStore, putStore]
  refine .bind (directoryAdd_mono hle c) fun r => .ite (.refl _) ?_
  refine .bind (directorySearch_mono hle _ c) fun r => ?_
  rcases r with code | ⟨info, k⟩
  · exact .refl _
  · exact .bind (writeLoop_mono hle _ _ _ _) fun _ => .refl _

theorem putFile_mono (hle : fuel ≤ fuel') (path : CString) (contents output output' : Mem) :
    Extends (putFile env g fuel path contents e output output')
      (putFile env g fuel' path contents e output output') := by
  rw [putFile, putFile]
  refine .bind (putTarget_mono hle path output) fun r => ?_
  rcases r with code | c
  · exact .refl _
  · exact putStore_mono hle contents output' c

end

/-! ### The place of the entry -/

section

variable {g : Globals} {d d₁ : Disk} {c₀ c k x a : Nat} {l pre post : List Nat}

theorem Placed.subset (h : g.IsVolume) (hp : Placed g d l d₁ pre c post k)
    (hin : ∀ b ∈ l, g.InRange b) : l ⊆ pre ++ c :: post := by
  rcases hp.room_or_grown h hin with ⟨-, rfl⟩ | ⟨-, ⟨new, rfl⟩, -⟩
  · exact List.Subset.refl _
  · intro b hb
    simp [hb]

/-- Growth changes the table at the clusters of the directory only. -/
theorem Placed.fat_eq (h : g.IsVolume) (hp : Placed g d l d₁ pre c post k)
    (hch : IsChain g d c₀ l) (ha : g.InRange a) (hnot : a ∉ pre ++ c :: post) :
    fatValue g d₁ a = fatValue g d a := by
  induction hp with
  | here _ _ => rfl
  | @grow d d₁ l pre post b n c k _ hn _ hp ih =>
      have hb := hch.inRange b (by simp)
      have hne : n ≠ b := fun e => hn.not_mem hch (by simp [e])
      have hsub := hp.subset h (inRange_snoc hch.inRange hn.inRange)
      have hab : a ≠ b := fun e => hnot (hsub (by simp [e]))
      have han : a ≠ n := fun e => hnot (hsub (by simp [e]))
      rw [ih (isChain_link h.toOneSector hch hn) hnot,
        fatValue_link h.toOneSector hb hn.inRange ha hne, if_neg hab, if_neg han]

/-- It grows by free clusters. -/
theorem Placed.grown (h : g.IsVolume) (hp : Placed g d l d₁ pre c post k)
    (hch : IsChain g d c₀ l) (ha : a ∈ pre ++ c :: post) : a ∈ l ∨ fatValue g d a = 0 := by
  have har := (hp.isChain h.toOneSector hch).inRange a ha
  induction hp with
  | here _ _ => exact .inl ha
  | @grow d d₁ l pre post b n c k _ hn _ hp ih =>
      have hb := hch.inRange b (by simp)
      have hne : n ≠ b := fun e => hn.not_mem hch (by simp [e])
      rcases ih (isChain_link h.toOneSector hch hn) ha with hmem | hfree
      · rcases List.mem_append.mp hmem with hmem | hmem
        · exact .inl hmem
        · rw [List.mem_singleton.mp hmem]
          exact .inr hn.free
      · rw [fatValue_link h.toOneSector hb hn.inRange har hne] at hfree
        split at hfree
        · have := hn.inRange.1
          omega
        · split at hfree
          · exact absurd hfree (by decide)
          · exact .inr hfree

end

/-- The entry is stored in slot `k` of cluster `c`, with cluster `x` for the
file; `d₁` is the disk once the directory has grown, if it has to.  All clusters
lie on the partition. -/
structure Spot (g : Globals) (d : Disk) (l : List Nat) (d₁ : Disk) (pre : List Nat) (c : Nat)
    (post : List Nat) (k x : Nat) : Prop where
  placed : Placed g d l d₁ pre c post k
  free : IsFirstFree g d₁ x
  directory : ∀ b ∈ l, g.OnPartition b
  file : g.OnPartition x

/-- The entry `e` finds a good place in the directory with clusters `l`.  The
first-cluster fields can hold `x`; what the rewritten sector shows besides the
entry was there before; and a new directory starts with an end mark. -/
structure Place (g : Globals) (d : Disk) (e : DirectoryEntry) (contents : Mem) (l : List Nat)
    (d₁ : Disk) (pre : List Nat) (c : Nat) (post : List Nat) (k x : Nat) : Prop
    extends Spot g d l d₁ pre c post k x where
  code : x % 65536 < 16
  live : ∀ b j, LiveIn g (storedDisk g d₁ c k e x) (pre ++ c :: post) b j →
    (b = c ∧ j = k) ∨
      (LiveIn g d l b j ∧ slot g (storedDisk g d₁ c k e x) b j = slot g d b j)
  empty : e.isDirectory → (if e.fileSize = 0 then data g d x 0 else contents 0) = 0

section

variable {g : Globals} {d d' d₁ : Disk} {c₀ c k x : Nat} {l pre post lx : List Nat}
  {e : DirectoryEntry} {contents : Mem}

theorem Spot.cluster (h : g.IsVolume) (hp : Spot g d l d₁ pre c post k x)
    (hcode : x % 65536 < 16) : getClusterFromEntry g (filledIn g e x) = x := by
  have hlt := h.toOneSector.lt_of_inRange hp.free.inRange
  rw [badCluster32] at hlt
  rw [getClusterFromEntry_filledIn h.toIsFat32 (by omega)]
  omega

/-- The file's cluster is not one of the directory. -/
theorem Spot.not_mem (h : g.IsVolume) (hp : Spot g d l d₁ pre c post k x)
    (hch : IsChain g d c₀ l) : x ∉ pre ++ c :: post :=
  hp.free.not_mem (hp.placed.isChain h.toOneSector hch)

/-- The chain of the file, once the entry is stored. -/
theorem Spot.new (h : g.IsVolume) (hp : Spot g d l d₁ pre c post k x)
    (hch : IsChain g d c₀ l) : IsChain g (storedDisk g d₁ c k e x) x [x] where
  chain := .last (nextCluster_eq_none_iff.mpr (by
    have hc := (hp.placed.isChain h.toOneSector hch).inRange c (by simp)
    rw [fatValue_storedDisk h hc hp.free.inRange hp.free.inRange, if_pos rfl]))
  inRange a ha := by
    rw [List.mem_singleton.mp ha]
    exact hp.free.inRange

/-- Writing the contents touches no cluster of the directory. -/
theorem Spot.apart (h : g.IsVolume) (hp : Spot g d l d₁ pre c post k x)
    (hch : IsChain g d c₀ l) (hw : Written g (storedDisk g d₁ c k e x) d' x lx) :
    List.Disjoint (pre ++ c :: post) lx := by
  have hch₁ := hp.placed.isChain h.toOneSector hch
  intro b hb hbx
  rcases hw.fresh b hbx with rfl | hfree
  · exact hp.not_mem h hch hb
  · exact (isChain_storedDisk h (hch₁.inRange c (by simp)) hp.free hch₁).ne_free hb hfree

theorem Spot.data_eq (h : g.IsVolume) (hp : Spot g d l d₁ pre c post k x)
    (hch : IsChain g d c₀ l) (hw : Written g (storedDisk g d₁ c k e x) d' x lx) :
    ∀ b ∈ pre ++ c :: post, data g d' b = data g (storedDisk g d₁ c k e x) b := fun b hb =>
  hw.data b ((hp.placed.isChain h.toOneSector hch).inRange b hb) fun hbx =>
    hp.apart h hch hw hb hbx

theorem Spot.slot_eq (h : g.IsVolume) (hp : Spot g d l d₁ pre c post k x)
    (hch : IsChain g d c₀ l) (hw : Written g (storedDisk g d₁ c k e x) d' x lx) :
    slot g d' c k = filledIn g e x := by
  rw [slot_of_data (hp.data_eq h hch hw c (by simp)),
    slot_storedDisk_self hp.placed.firstVacant.lt]

/-- Storing the entry and writing the contents changes the clusters of the
directory and of the file only. -/
theorem Spot.changed (h : g.IsVolume) (hp : Spot g d l d₁ pre c post k x) (hdir : IsDir g d c₀)
    (hch : IsChain g d c₀ l) (hw : Written g (storedDisk g d₁ c k e x) d' x lx) :
    Changed g d d' c₀ l (pre ++ c :: post) x lx := by
  have hch₁ := hp.placed.isChain h.toOneSector hch
  have hc := hch₁.inRange c (by simp)
  have hx := hp.free.inRange
  have hfat₂ : ∀ b, g.InRange b → fatValue g (storedDisk g d₁ c k e x) b
      = if b = x then endCluster32 else fatValue g d₁ b := fun b hb =>
    fatValue_storedDisk h hc hx hb
  have hch₂ : IsChain g (storedDisk g d₁ c k e x) c₀ (pre ++ c :: post) :=
    isChain_storedDisk h hc hp.free hch₁
  have hapart := hp.apart h hch hw
  refine ⟨hch, hdir, hch₂.congr fun b hb => ?_, fun b hb => hp.placed.grown h hch hb, hw.chain, ?_,
    hapart, ?_, ?_⟩
  · exact hw.fat b (hch₁.inRange b hb) fun hbx => hapart hb hbx
  · -- the clusters of the file were free
    intro b hb
    have hbr := hw.chain.inRange b hb
    have hbnot : b ∉ pre ++ c :: post := fun hmem => hapart hmem hb
    rw [← hp.placed.fat_eq h hch hbr hbnot]
    rcases hw.fresh b hb with rfl | hfree
    · exact hp.free.free
    · rw [hfat₂ b hbr] at hfree
      split at hfree
      · exact absurd hfree (by decide)
      · exact hfree
  · intro b hb hbl hbx
    have hne : b ≠ x := fun e => hbx (e ▸ hw.chain.chain.head_mem)
    rw [hw.fat b hb hbx, hfat₂ b hb, if_neg hne, hp.placed.fat_eq h hch hb hbl]
  · intro b hb hbl hbx
    have hne : b ≠ c := fun e => hbl (by simp [e])
    rw [hw.data b hb hbx, data_storedDisk_other h hc hx hb hne,
      hp.placed.data_eq h hch.inRange hb]

/-- In a good place this is an insertion into the tree. -/
theorem Place.inserted (h : g.IsVolume) (hp : Place g d e contents l d₁ pre c post k x)
    (hdir : IsDir g d c₀) (hch : IsChain g d c₀ l)
    (hw : Written g (storedDisk g d₁ c k e x) d' x lx)
    (hfirst : LiveIn g d' (pre ++ c :: post) c k →
      e.fileSize = 0 ∧ data g d' x = data g (storedDisk g d₁ c k e x) x ∨
        e.fileSize ≠ 0 ∧ data g d' x 0 = contents 0) :
    Inserted g d d' c₀ l (pre ++ c :: post) c k x lx := by
  have hdata₂ := hp.data_eq h hch hw
  have hentry := hp.slot_eq h hch hw
  refine ⟨hp.changed h hdir hch hw, ?_, ?_, ?_⟩
  · intro b j hl
    rw [slot_of_data (hdata₂ b hl.mem)]
    exact hp.live b j (hl.congr fun b hb => (hdata₂ b hb).symm)
  · rw [hentry]
    exact hp.cluster h hp.code
  · rw [hentry, isDirectory_filledIn]
    intro hlive hisdir
    have hempty := hp.empty hisdir
    show data g d' x (32 * 0 + 0) = 0
    -- an empty directory keeps the first byte of its cluster, others get one
    rcases hfirst hlive with ⟨hsize, hsame⟩ | ⟨hsize, hbyte⟩
    · rw [if_pos hsize] at hempty
      have hx := hp.free.inRange
      have hc := (hp.placed.isChain h.toOneSector hch).inRange c (by simp)
      have hxc : x ≠ c := fun e => hp.not_mem h hch (by simp [e])
      rw [hsame, data_storedDisk_other h hc hx hx hxc, hp.placed.data_eq h hch.inRange hx]
      exact hempty
    · rw [if_neg hsize] at hempty
      rw [show 32 * 0 + 0 = 0 from rfl, hbyte, hempty]

/-- A search that finds the name of the entry has found the entry. -/
theorem Place.found {f : DirectoryEntry} {j : Nat} (hp : Place g d e contents l d₁ pre c post k x)
    (hl : LegalName e.fileName) (hno : ¬ Finds e.fileName (slots g d l))
    (hs : searchResult e.fileName (slots g (storedDisk g d₁ c k e x) (pre ++ c :: post))
      = .ok (f, j)) : f = filledIn g e x := by
  obtain ⟨b, hb, rfl, hname⟩ := live_of_searchResult hl hs
  rcases hp.live b j hb with ⟨rfl, rfl⟩ | ⟨hold, hsame⟩
  · exact slot_storedDisk_self hp.placed.firstVacant.lt
  · rw [hsame] at hname
    exact absurd (hold.finds hname) hno

end

/-! ### Runs that return -/

section

variable {g : Globals} {s s₁ s' : State} {c fuel : Nat} {l : List Nat} {e : DirectoryEntry}

theorem directorySearch_value (h : g.OneSector) {filepart key : Mem}
    {r : Except Int (DirectoryEntry × Nat)} (hkey : searchName filepart = some key)
    (hch : IsChain g s.disk c l) (hpart : ∀ a ∈ l, g.OnPartition a)
    (hrun : directorySearch reliable g filepart fuel c s = (.value r, s')) :
    r = searchResult (nameOf key) (slots g s.disk l) ∧ s'.disk = s.disk := by
  obtain ⟨s₁, hlong, hd⟩ := directorySearch_chain h hkey hch hpart (Nat.le_max_right fuel l.length)
  rw [(directorySearch_mono (Nat.le_max_left fuel l.length) filepart c).value hrun] at hlong
  cases hlong
  exact ⟨rfl, hd⟩

theorem directoryAdd_value (h : g.OneSector) (hl : testIfFATFormat e.bytes = 0) {d' : Disk}
    {r r' : Int × DirectoryEntry} (ha : Adds g e s.disk l r d') (hch : IsChain g s.disk c l)
    (hpart : ∀ a ∈ l, g.OnPartition a)
    (hrun : directoryAdd reliable g e fuel c s = (.value r', s')) : r' = r ∧ s'.disk = d' := by
  obtain ⟨N, hN⟩ := directoryAdd_adds h hl ha c hch hpart
  obtain ⟨s₁, hlong, hd⟩ := hN (max fuel N) (Nat.le_max_right _ _) s rfl
  rw [(directoryAdd_mono (Nat.le_max_left fuel N) c).value hrun] at hlong
  cases hlong
  exact ⟨rfl, hd⟩

/-- Without a free cluster nothing is inserted. -/
theorem adds_noFree {d : Disk} (hno : NoFree g d) (hne : l ≠ []) :
    ∃ r, r.1 ≠ 0 ∧ Adds g e d l r d := by
  induction l with
  | nil => exact absurd rfl hne
  | cons a l ih =>
      rcases full_or_firstVacant g d a with hf | ⟨k, hk⟩
      · rcases l with - | ⟨b, l⟩
        · exact ⟨_, show (-1 : Int) ≠ 0 by decide, .noRoom hf hno⟩
        · obtain ⟨r, hr, ha⟩ := ih (by simp)
          exact ⟨r, hr, .walk hf ha⟩
      · exact ⟨_, show (-1 : Int) ≠ 0 by decide, .noCluster hk hno⟩

/-- What the checks of `putFile` have found out when they are passed. -/
theorem putTarget_ok {path : CString} {output : Mem}
    (hrun : putTarget reliable g fuel path e output s = (.value (.ok c), s₁)) :
    testIfFATFormat e.bytes = 0 ∧ ∃ info s₂ code s₃,
      findDirectory reliable g fuel path s = (.value (.ok (c, some info)), s₂) ∧
      info.isDirectory ∧ directorySearch reliable g (convertFromFATFormat e.bytes output) fuel c s₂
        = (.value (.error code), s₃) := by
  -- one split for each check; every failed one returns a code, not a cluster
  rw [putTarget] at hrun
  split at hrun
  · cases hrun
  next hl =>
    split at hrun
    · cases hrun
    · refine ⟨not_not.mp hl, ?_⟩
      obtain ⟨found, s₂, hfind, hrun⟩ := bind_eq_value hrun
      rcases found with code | ⟨b, info⟩
      · cases hrun
      · obtain ⟨r, s₃, hsearch, hrun⟩ := bind_eq_value hrun
        rcases r with code | r
        · dsimp only at hrun
          split at hrun
          · cases hrun
          · rcases info with - | info
            · cases hrun
            · dsimp only at hrun
              split at hrun
              · cases hrun
                exact ⟨info, s₂, code, _, hfind, by assumption, hsearch⟩
              · cases hrun
        · cases hrun

end

/-! ### The effect of a call -/

/-- The arguments of a `putFile`, with the old contents of its two local
arrays. -/
structure PutCall where
  path : CString
  contents : Mem
  fileMeta : DirectoryEntry
  output : Mem
  output' : Mem

/-- The call returns `code` and leaves the state `s'`. -/
def PutCall.Returns (call : PutCall) (g : Globals) (s : State) (code : Int) (s' : State) : Prop :=
  ∃ fuel e', putFile reliable g fuel call.path call.contents call.fileMeta call.output
    call.output' s = (.value (code, e'), s')

/-- The path leads to the directory at cluster `c`. -/
def Target (g : Globals) (s : State) (path : CString) (c : Nat) : Prop :=
  ∃ fuel info s', findDirectory reliable g fuel path s = (.value (.ok (c, some info)), s')

/-- The dotted form of the name is converted back to the name. -/
def KeyOk (e : DirectoryEntry) (output : Mem) : Prop :=
  ∃ key, searchName (convertFromFATFormat e.bytes output) = some key ∧ nameOf key = e.fileName

/-- What a call needs in order to be an insertion: its path leads to a
directory of the volume, which lies on the partition, its name survives the
conversions, and if the name is new there, then no cluster is free at all or the
entry finds a good place. -/
def PutOk (g : Globals) (s : State) (call : PutCall) : Prop :=
  testIfFATFormat call.fileMeta.bytes = 0 → ∀ c, Target g s call.path c → IsDir g s.disk c ∧
    ∀ l, IsChain g s.disk c l → (∀ a ∈ l, g.OnPartition a) ∧ KeyOk call.fileMeta call.output ∧
      (¬ Finds call.fileMeta.fileName (slots g s.disk l) → KeyOk call.fileMeta call.output' ∧
        (NoFree g s.disk ∨ ∃ d₁ pre a post k x,
          Place g s.disk call.fileMeta call.contents l d₁ pre a post k x))

section

variable {g : Globals} {s s' : State} {c fuel k x : Nat} {l pre post : List Nat}
  {e e' : DirectoryEntry} {contents : Mem} {output output' : Mem} {code : Int} {d₁ : Disk} {a : Nat}

/-- A legal name without inner spaces is in order, unless the old contents of
the array show up behind a short extension. -/
theorem keyOk_of_padded (hl : testIfFATFormat e.bytes = 0) (hp : Padded e.bytes)
    (hr : ResidueOk e.bytes output) : KeyOk e output := by
  obtain ⟨key, hkey, hk⟩ := searchName_convertFromFATFormat hl hp hr
  refine ⟨key, hkey, ?_⟩
  rw [← nameOf_bytes]
  funext j
  exact hk j j.isLt

theorem keyOk_filledIn (g : Globals) (hk : KeyOk e output) (x : Nat) :
    ∃ key, searchName (convertFromFATFormat (filledIn g e x).bytes output) = some key ∧
      nameOf key = e.fileName := by
  have hbytes : ∀ i < 11, (filledIn g e x).bytes i = e.bytes i := fun i hi => by
    rw [DirectoryEntry.bytes_of_lt _ (by omega), DirectoryEntry.bytes_of_lt _ (by omega)]
    exact filledIn_apply g e x (.inl (show i < 13 by omega))
  rw [convertFromFATFormat_congr output hbytes]
  exact hk

/-- The first round writes from the start of the contents. -/
theorem offset_start (e : DirectoryEntry) :
    (e.fileSize + (2 ^ 32 - e.fileSize)) % 2 ^ 32 + 0 = 0 := by
  have : e.fileSize < 256 ^ 4 := le_lt _ _ _
  omega

/-- With a place for the entry: it is stored, and the contents are written if the search behind
the insertion finds it. -/
theorem putStore_stored (h : g.IsVolume) (hl : testIfFATFormat e.bytes = 0)
    (hch : IsChain g s.disk c l) (hk : KeyOk e output) (hp : Spot g s.disk l d₁ pre a post k x)
    (hrun : putStore reliable g fuel contents e output c s = (.value (code, e'), s')) :
    ∃ s₂, s₂.disk = storedDisk g d₁ a k e x ∧
      ((∃ err, searchResult e.fileName (slots g s₂.disk (pre ++ a :: post)) = .error err ∧
          s' = s₂) ∨
        ∃ f j r, searchResult e.fileName (slots g s₂.disk (pre ++ a :: post)) = .ok (f, j) ∧
          writeLoop reliable g contents e.fileSize fuel e.fileSize (getClusterFromEntry g f) s₂
            = (.value r, s')) := by
  have hch₁ := hp.placed.isChain h.toOneSector hch
  have ha := hch₁.inRange a (by simp)
  rw [putStore] at hrun
  obtain ⟨r, s₁, hadd, hrun⟩ := bind_eq_value hrun
  obtain ⟨rfl, hd₁⟩ := directoryAdd_value h.toOneSector hl
    (hp.placed.adds h hch.inRange hp.free) hch hp.directory hadd
  dsimp only at hrun
  rw [if_neg (not_not.mpr rfl)] at hrun
  obtain ⟨found, s₂, hsearch, hrun⟩ := bind_eq_value hrun
  -- the search runs with the name that has been stored, on the chain with the new entry
  obtain ⟨key, hkey, hname⟩ := keyOk_filledIn g hk x
  have hch₂ : IsChain g s₁.disk c (pre ++ a :: post) := by
    rw [hd₁]
    exact isChain_storedDisk h ha hp.free hch₁
  obtain ⟨rfl, hd₂⟩ := directorySearch_value h.toOneSector hkey hch₂
    (hp.placed.onPartition hp.directory) hsearch
  rw [hname, ← hd₂] at hrun
  refine ⟨s₂, hd₂.trans hd₁, ?_⟩
  rcases hs : searchResult e.fileName (slots g s₂.disk (pre ++ a :: post)) with err | ⟨f, j⟩
  · rw [hs] at hrun
    cases hrun
    exact .inl ⟨err, rfl, rfl⟩
  · rw [hs] at hrun
    dsimp only at hrun
    obtain ⟨r, s₃, hwrite, hrun⟩ := bind_eq_value hrun
    cases hrun
    rw [fileSize_filledIn] at hwrite
    exact .inr ⟨f, j, _, rfl, hwrite⟩

/-- Storing in a good place, then writing the contents. -/
theorem putStore_effect (h : g.IsVolume) (hl : testIfFATFormat e.bytes = 0)
    (hdir : IsDir g s.disk c) (hch : IsChain g s.disk c l)
    (hno : ¬ Finds e.fileName (slots g s.disk l)) (hk : KeyOk e output)
    (hp : Place g s.disk e contents l d₁ pre a post k x)
    (hrun : putStore reliable g fuel contents e output c s = (.value (code, e'), s')) :
    ∃ lx, Inserted g s.disk s'.disk c l (pre ++ a :: post) a k x lx ∧
      (slot g s'.disk a k).fileName = e.fileName := by
  have hnew : IsChain g (storedDisk g d₁ a k e x) x [x] := hp.new h hch
  obtain ⟨s₂, hd₂, ⟨err, hs, rfl⟩ | ⟨f, j, r, hs, hwrite⟩⟩ :=
    putStore_stored h hl hch hk hp.toSpot hrun
  · -- the entry is not seen, so it is not live
    have hw : Written g (storedDisk g d₁ a k e x) s'.disk x [x] := by
      rw [hd₂]
      exact .refl hnew
    have hself : (slot g s'.disk a k).fileName = e.fileName := by
      rw [hp.slot_eq h hch hw, fileName_filledIn]
    refine ⟨[x], hp.inserted h hdir hch hw fun hlive => ?_, hself⟩
    obtain ⟨i, hi⟩ := hlive.finds hself
    rw [searchResult, hi] at hs
    cases hs
  · -- the entry that is found is the new one, so the contents go to its cluster
    rw [hd₂] at hs
    obtain rfl := hp.found (legalName_of_test hl) hno hs
    rw [hp.cluster h hp.code] at hwrite
    obtain ⟨lx, hw, hbytes⟩ := writeLoop_written h (hd₂ ▸ hnew) hwrite
    rw [hd₂] at hw
    refine ⟨lx, hp.inserted h hdir hch hw fun _ => ?_,
      by rw [hp.slot_eq h hch hw, fileName_filledIn]⟩
    by_cases hsize : e.fileSize = 0
    · rw [hsize] at hwrite
      rw [writeLoop_zero hwrite, hd₂]
      exact .inl ⟨hsize, rfl⟩
    · right
      refine ⟨hsize, ?_⟩
      rw [hbytes hsize hp.file 0 (by decide) (Nat.pos_of_ne_zero hsize), offset_start e]

/-- Without a free cluster the directory stays as it is. -/
theorem putStore_noFree (h : g.IsVolume) (hl : testIfFATFormat e.bytes = 0)
    (hch : IsChain g s.disk c l) (hpart : ∀ a ∈ l, g.OnPartition a) (hno : NoFree g s.disk)
    (hrun : putStore reliable g fuel contents e output c s = (.value (code, e'), s')) :
    s'.disk = s.disk := by
  obtain ⟨r, hr, ha⟩ := adds_noFree (e := e) hno hch.chain.ne_nil
  rw [putStore] at hrun
  obtain ⟨r', s₁, hadd, hrun⟩ := bind_eq_value hrun
  obtain ⟨rfl, hd⟩ := directoryAdd_value h.toOneSector hl ha hch hpart hadd
  dsimp only at hrun
  rw [if_pos hr] at hrun
  cases hrun
  exact hd

/-- A call that is in order inserts an entry under a new name in the directory
that its path leads to, or changes nothing. -/
theorem putFile_effect_at {call : PutCall} (h : g.IsVolume) (ht : Tidy g s.disk)
    (hok : PutOk g s call) (hret : call.Returns g s code s') :
    s'.disk = s.disk ∨ ∃ c l l' a k x lx, Inserted g s.disk s'.disk c l l' a k x lx ∧
      (∀ b j, LiveIn g s.disk l b j →
        (slot g s.disk b j).fileName ≠ (slot g s'.disk a k).fileName) ∧
      Target g s call.path c := by
  obtain ⟨fuel, e', hrun⟩ := hret
  rw [putFile] at hrun
  obtain ⟨r, s₁, htarget, hrun⟩ := bind_eq_value hrun
  have hd₁ : s₁.disk = s.disk := (putTarget_keeps readInv_disk fuel _ _ _).run htarget
  rcases r with err | c
  · cases hrun
    exact .inl hd₁
  obtain ⟨hl, info, s₂, err, s₃, hfind, -, hsearch⟩ := putTarget_ok htarget
  obtain ⟨hdir, hrest⟩ := hok hl c ⟨fuel, info, s₂, hfind⟩
  obtain ⟨o, ho⟩ := hdir.owned
  obtain ⟨l, hch⟩ := ht.ends ho
  obtain ⟨hpart, ⟨key, hkey, hname⟩, hrest⟩ := hrest l hch
  have hd₂ : s₂.disk = s.disk := (findDirectory_keeps readInv_disk fuel _).run hfind
  -- the search in front of the insertion has not found the name
  have hno : ¬ Finds call.fileMeta.fileName (slots g s.disk l) := by
    rw [← hd₂] at hch ⊢
    obtain ⟨hr, -⟩ := directorySearch_value h.toOneSector hkey hch hpart hsearch
    rw [hname] at hr
    rintro ⟨i, hi⟩
    rw [searchResult, hi] at hr
    cases hr
  obtain ⟨hk, hfree | ⟨d₁, pre, a, post, k, x, hp⟩⟩ := hrest hno
  · exact .inl ((putStore_noFree h hl (hd₁ ▸ hch) hpart (hd₁ ▸ hfree) hrun).trans hd₁)
  · rw [← hd₁] at hdir hch hp
    obtain ⟨lx, hi, hself⟩ := putStore_effect h hl hdir hch (hd₁ ▸ hno) hk hp hrun
    rw [hd₁] at hi
    refine .inr ⟨c, l, _, a, k, x, lx, hi, fun b j hlive hsame => hno (hlive.finds ?_),
      fuel, info, s₂, hfind⟩
    rw [hsame, hself]

theorem putFile_effect {call : PutCall} (h : g.IsVolume) (ht : Tidy g s.disk)
    (hok : PutOk g s call) (hret : call.Returns g s code s') :
    s'.disk = s.disk ∨ ∃ c l l' a k x lx, Inserted g s.disk s'.disk c l l' a k x lx ∧
      ∀ b j, LiveIn g s.disk l b j →
        (slot g s.disk b j).fileName ≠ (slot g s'.disk a k).fileName := by
  rcases putFile_effect_at h ht hok hret with hsame | ⟨c, l, l', a, k, x, lx, hi, hname, -⟩
  · exact .inl hsame
  · exact .inr ⟨c, l, l', a, k, x, lx, hi, hname⟩

end

end PotatoOS
