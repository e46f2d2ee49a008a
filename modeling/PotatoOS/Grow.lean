/-
PotatoOS/Grow.lean

The allocator, and a chain that grows.

With one sector per cluster the word of every entry lies in the sector that
`FATRead` and `FATWrite` transfer, so both say the same of every cluster in
range, and what a call of `allocateFreeFAT` does is one word of the table
(`allocateFreeFAT_spec`).

Linking the cluster it returns behind the last cluster of a chain is the
extension rule of Chain.lean.  The rule needs two things that the size of a table
does not give: that the number fits a link of 28 bits and is not one of the end
marks, and that no other chain has an entry in the word of the last cluster,
since `FATRead` computes the offset of a word in 32 bits
(`tableChains_grow_iff`).
-/
import PotatoOS.Insert
import PotatoOS.Failing

namespace PotatoOS

open Prog

variable {g : Globals} {c n t : Nat} {d : Disk} {s s₁ s₂ : State}

/-! ### One allocation -/

/-- What the allocator leaves behind when it hands out a cluster. -/
structure Allocates (g : Globals) (c : Nat) (s s' : State) : Prop where
  marked : (fatRead reliable g c s').1 = .value (endCluster32 : Nat)
  others : ∀ b, g.InRange b → b ≠ c → (fatRead reliable g b s').1 = (fatRead reliable g b s).1
  bytes : ∀ i < 512, (i < g.entOffset 4 c ∨ g.entOffset 4 c + 4 ≤ i) →
    s'.disk.sector (g.fatSector 4 c) i = s.disk.sector (g.fatSector 4 c) i
  sectors : ∀ lba, lba ≠ partStartLba + g.fatSector 4 c → s'.disk lba = s.disk lba

/-- The least cluster whose entry reads as zero. -/
def LeastFree (g : Globals) (s : State) (c : Nat) : Prop :=
  g.InRange c ∧ (fatRead reliable g c s).1 = .value 0 ∧
    ∀ b, 2 ≤ b → b < c → (fatRead reliable g b s).1 ≠ .value 0

theorem Globals.Single.inSector (h : g.Single) (c : Nat) : g.InSector 4 c :=
  h.toBlocks512.inSector_of_one h.one 4 c

theorem Globals.Single.fatRead_eq (h : g.Single) (hc : g.InRange c) (s : State) :
    (fatRead reliable g c s).1 = .value (fatValue g s.disk c : Nat) := by
  rw [fatRead_fat32 h.toIsFat32 hc (h.entOffset_lt c)]

theorem Globals.Single.fatRead_eq_zero_iff (h : g.Single) (hc : g.InRange c) (s : State) :
    (fatRead reliable g c s).1 = .value 0 ↔ fatValue g s.disk c = 0 := by
  rw [h.fatRead_eq hc]
  exact ⟨fun e => Int.ofNat.inj (Outcome.value.inj e), fun e => by rw [e]; rfl⟩

theorem leastFree_iff (h : g.Single) : LeastFree g s c ↔ IsFirstFree g s.disk c := by
  constructor
  · rintro ⟨hc, hfree, hleast⟩
    refine ⟨hc, (h.fatRead_eq_zero_iff hc s).mp hfree, fun b hb hbc hb₀ => hleast b hb hbc ?_⟩
    exact (h.fatRead_eq_zero_iff ⟨hb, hbc.trans hc.2⟩ s).mpr hb₀
  · rintro ⟨hc, hfree, hleast⟩
    refine ⟨hc, (h.fatRead_eq_zero_iff hc s).mpr hfree, fun b hb hbc hb₀ => hleast b hb hbc ?_⟩
    exact (h.fatRead_eq_zero_iff ⟨hb, hbc.trans hc.2⟩ s).mp hb₀

/-- Below 2^30 every entry has a word of its own. -/
theorem fatOffset_ne (hT : g.totalClusters ≤ 2 ^ 30) {b : Nat} (hb : g.InRange b)
    (hc : g.InRange c) (hne : b ≠ c) : g.fatOffset 4 b ≠ g.fatOffset 4 c := by
  have hb₂ := hb.2
  have hc₂ := hc.2
  rw [Globals.fatOffset, Globals.fatOffset]
  omega

theorem allocates_of_setFat (h : g.Single) (hT : g.totalClusters ≤ 2 ^ 30) (hc : g.InRange c)
    (hd : s₁.disk = setFat g s.disk c endCluster32) : Allocates g c s s₁ where
  marked := by
    rw [h.fatRead_eq hc, hd, fatValue_setFat_self h.toIsFat32 (h.inSector c)]
    rfl
  others b hb hne := by
    rw [h.fatRead_eq hb, h.fatRead_eq hb, hd,
      fatValue_setFat_other h.toIsFat32 (fatOffset_ne hT hb hc hne)]
  bytes i hi hout := by
    rw [hd, setFat, setEntry, Disk.sector, writeSector_self, memcpy_apply_of_mem (Nat.zero_le _) hi,
      Nat.sub_zero, memcpy_apply_of_notMem hout]
  sectors lba hne := by
    rw [hd, setFat, setEntry, writeSector_other _ _ hne]

/-- The allocator hands out the least free cluster.  What it returns tells whether there was
one. -/
theorem allocateFreeFAT_spec (h : g.Single) (hT : g.totalClusters ≤ badCluster32) (s : State) :
    ((∃ c, g.InRange c ∧ (fatRead reliable g c s).1 = .value 0) →
      ∃ c s', LeastFree g s c ∧ c ≠ badCluster32 ∧
        allocateFreeFAT reliable g s = (.value c, s') ∧ Allocates g c s s') ∧
    ((∀ c, g.InRange c → (fatRead reliable g c s).1 ≠ .value 0) →
      ∃ s', allocateFreeFAT reliable g s = (.value badCluster32, s') ∧ s'.disk = s.disk) := by
  constructor
  · rintro ⟨b, hb, hb₀⟩
    obtain ⟨c, hfree⟩ := (exists_isFirstFree_or_noFree g s.disk).resolve_right fun hno =>
      hno b hb ((h.fatRead_eq_zero_iff hb s).mp hb₀)
    have hc := hfree.inRange
    obtain ⟨s', hrun, hdisk, -⟩ :=
      allocateFreeFAT_found h.toIsFat32 hfree fun b _ _ => h.entOffset_lt b
    refine ⟨c, s', (leastFree_iff h).mpr hfree, (Nat.lt_of_lt_of_le hc.2 hT).ne, hrun,
      allocates_of_setFat h ?_ hc hdisk⟩
    exact hT.trans (by decide)
  · intro hno
    refine allocateFreeFAT_full h.toIsFat32 (fun c hc hfree => hno c hc ?_) fun b _ =>
      h.entOffset_lt b
    exact (h.fatRead_eq_zero_iff hc s).mpr hfree

/-! ### Chains that grow -/

/-- The lists of `S` are chains of the table, and no two of them meet. -/
structure TableChains (g : Globals) (d : Disk) (S : Set (List Nat)) : Prop
    extends Chains (nextCluster g d) S where
  inRange : ∀ l ∈ S, ∀ a ∈ l, g.InRange a

section

variable {S : Set (List Nat)} {l : List Nat}

theorem TableChains.isChain (hS : TableChains g d S) (hl : l ∈ S) : ∃ a, IsChain g d a l := by
  obtain ⟨a, hch⟩ := hS.chain l hl
  exact ⟨a, hch, hS.inRange l hl⟩

theorem TableChains.ne_free (hS : TableChains g d S) (hl : l ∈ S) (hc : c ∈ l) :
    fatValue g d c ≠ 0 := by
  obtain ⟨a, hch⟩ := hS.isChain hl
  exact hch.ne_free hc

/-- The words of the table after a cluster is linked. -/
theorem fatValue_link_single (h : g.Single) (hne : g.fatOffset 4 n ≠ g.fatOffset 4 t) (b : Nat) :
    fatValue g (link g d t n) b =
      if g.fatOffset 4 b = g.fatOffset 4 t then n % 2 ^ 28
      else if g.fatOffset 4 b = g.fatOffset 4 n then endCluster32 else fatValue g d b := by
  rw [link]
  split_ifs with hbt hbn
  · rw [fatValue_congr hbt, fatValue_setFat_self h.toIsFat32 (h.inSector t)]
  · rw [fatValue_congr hbn, fatValue_setFat_other h.toIsFat32 hne,
      fatValue_setFat_self h.toIsFat32 (h.inSector n)]
    rfl
  · rw [fatValue_setFat_other h.toIsFat32 hbt, fatValue_setFat_other h.toIsFat32 hbn]

theorem nextCluster_congr {b c : Nat} (he : g.fatOffset 4 b = g.fatOffset 4 c) :
    nextCluster g d b = nextCluster g d c := by
  rw [nextCluster, nextCluster, fatValue_congr he]

/-- The word that was linked leads to the new cluster if that number can be a link. -/
theorem nextCluster_link_iff (h : g.Single) (hne : g.fatOffset 4 n ≠ g.fatOffset 4 t) :
    nextCluster g (link g d t n) t = some n ↔ n < endCluster32 := by
  rw [nextCluster_eq_some_iff, fatValue_link_single h hne, if_pos rfl]
  constructor
  · rintro ⟨hlt, he⟩
    rwa [he] at hlt
  · intro hlt
    have hmod : n % 2 ^ 28 = n := Nat.mod_eq_of_lt (hlt.trans (by decide))
    rw [hmod]
    exact ⟨hlt, rfl⟩

theorem nextCluster_link_new (h : g.Single) (hne : g.fatOffset 4 n ≠ g.fatOffset 4 t) :
    nextCluster g (link g d t n) n = none := by
  rw [nextCluster_eq_none_iff, fatValue_link_single h hne, if_neg hne, if_pos rfl]

theorem nextCluster_link_other (h : g.Single) (hne : g.fatOffset 4 n ≠ g.fatOffset 4 t) {b : Nat}
    (hbt : g.fatOffset 4 b ≠ g.fatOffset 4 t) (hbn : g.fatOffset 4 b ≠ g.fatOffset 4 n) :
    nextCluster g (link g d t n) b = nextCluster g d b := by
  rw [nextCluster, nextCluster, fatValue_link_single h hne, if_neg hbt, if_neg hbn]

/-- A free cluster linked behind the last one of a chain extends it if and only if its number can
be a link and no other chain has an entry in the same word. -/
theorem tableChains_link_iff (h : g.Single) (hS : TableChains g d S) (hl : l ∈ S) (hne : l ≠ [])
    (hn : g.InRange n) (hfree : fatValue g d n = 0) :
    TableChains g (link g d (l.getLast hne) n) (insert (l ++ [n]) (S \ {l})) ↔
      n < endCluster32 ∧
        ∀ l' ∈ S, l' ≠ l → ∀ b ∈ l', g.fatOffset 4 b ≠ g.fatOffset 4 (l.getLast hne) := by
  obtain ⟨a, hch⟩ := hS.chain l hl
  have hlast := List.dropLast_append_getLast hne
  have htl := List.getLast_mem hne
  have hend := hch.next_getLast
  have huniq : ∀ b ∈ l, nextCluster g d b = none → b = l.getLast hne := fun b => hch.eq_getLast
  have hextend := @Chains.extend Nat (nextCluster g d) (nextCluster g (link g d (l.getLast hne) n))
    S l n hS.toChains hl hne
  generalize l.getLast hne = t at *
  -- a free word is the word of no chain
  have hoff : ∀ l' ∈ S, ∀ b ∈ l', g.fatOffset 4 b ≠ g.fatOffset 4 n := fun l' hl' b hb he =>
    hS.ne_free hl' hb ((fatValue_congr he).trans hfree)
  have hnt := (hoff l hl t htl).symm
  have hlink := nextCluster_link_iff (d := d) h hnt
  constructor
  · intro hnew
    have hlt : n < endCluster32 := by
      obtain ⟨a', hch'⟩ := hnew.chain (l ++ [n]) (Set.mem_insert _ _)
      rw [← hlast, List.append_assoc] at hch'
      exact hlink.mp hch'.next_eq
    refine ⟨hlt, fun l' hl' hne' b hb he => ?_⟩
    -- such a chain would go on at the new cluster
    obtain ⟨a', hch'⟩ := hnew.chain l' (Set.mem_insert_of_mem _ ⟨hl', hne'⟩)
    have hnext := (nextCluster_congr he).trans (hlink.mpr hlt)
    exact hoff l' hl' n (hch'.next_mem hb hnext) rfl
  · rintro ⟨hlt, hother⟩
    have hold : ∀ l' ∈ S, ∀ b ∈ l', b ≠ t →
        nextCluster g (link g d t n) b = nextCluster g d b := fun l' hl' b hb hbt => by
      refine nextCluster_link_other h hnt ?_ (hoff l' hl' b hb)
      by_cases hll : l' = l
      · subst hll
        exact fun he => hbt (huniq b hb ((nextCluster_congr he).trans hend))
      · exact hother l' hl' hll b hb
    have hnone := nextCluster_link_new (d := d) h hnt
    refine ⟨hextend (fun l' hl' hmem => hoff l' hl' n hmem rfl) hold (hlink.mpr hlt) hnone, ?_⟩
    rintro l' (rfl | ⟨hl', -⟩) b hb
    · rcases List.mem_append.mp hb with hb | hb
      · exact hS.inRange l hl b hb
      · rw [List.mem_singleton.mp hb]
        exact hn
    · exact hS.inRange l' hl' b hb

/-- The cluster that `allocateFreeFAT` returns, linked behind the last cluster of a chain: the
chain grows by it and all others stay, if and only if its number is below the end marks and no
other chain has an entry in the word of the last cluster. -/
theorem tableChains_grow_iff (h : g.Single) (hS : TableChains g s.disk S) (hl : l ∈ S)
    (hne : l ≠ []) (halloc : allocateFreeFAT reliable g s = (.value n, s₁))
    (hbad : n ≠ badCluster32)
    (hwrite : fatWrite reliable g (l.getLast hne) n s₁ = (.value 0, s₂)) :
    TableChains g s₂.disk (insert (l ++ [n]) (S \ {l})) ↔
      n < endCluster32 ∧
        ∀ l' ∈ S, l' ≠ l → ∀ b ∈ l', g.fatOffset 4 b ≠ g.fatOffset 4 (l.getLast hne) := by
  rcases exists_isFirstFree_or_noFree g s.disk with ⟨x, hx⟩ | hno
  · obtain ⟨s', hrun, hdisk, -⟩ :=
      allocateFreeFAT_found h.toIsFat32 hx fun b _ _ => h.entOffset_lt b
    obtain ⟨hxn, rfl⟩ := Prod.mk.inj (hrun.symm.trans halloc)
    obtain rfl := Outcome.value.inj hxn
    obtain ⟨s'', hrun', hdisk', -⟩ := fatWrite_fat32 (v := x) (s := s') h.toIsFat32
      (hS.inRange l hl _ (List.getLast_mem hne)) (h.entOffset_lt _)
    obtain ⟨-, rfl⟩ := Prod.mk.inj (hrun'.symm.trans hwrite)
    rw [hdisk', hdisk]
    exact tableChains_link_iff h hS hl hne hx.inRange hx.free
  · obtain ⟨s', hrun, -⟩ := allocateFreeFAT_full h.toIsFat32 hno fun b _ => h.entOffset_lt b
    rw [hrun] at halloc
    exact absurd (Outcome.value.inj (Prod.mk.inj halloc).1).symm hbad

/-- On a volume with at most as many clusters as a link can name both conditions hold. -/
theorem links_of_totalClusters (hT : g.totalClusters ≤ endCluster32) (hS : TableChains g d S)
    (hl : l ∈ S) (hne : l ≠ []) (hn : g.InRange n) :
    n < endCluster32 ∧
      ∀ l' ∈ S, l' ≠ l → ∀ b ∈ l', g.fatOffset 4 b ≠ g.fatOffset 4 (l.getLast hne) := by
  refine ⟨Nat.lt_of_lt_of_le hn.2 hT, fun l' hl' hne' b hb => ?_⟩
  have hlast := List.getLast_mem hne
  refine fatOffset_ne (hT.trans (by decide)) (hS.inRange l' hl' b hb) (hS.inRange l hl _ hlast)
    fun he => ?_
  exact hS.disjoint hl' hl hne' hb (he ▸ hlast)

end

/-! ### Two volumes -/

theorem allocateFreeFAT_emptyState :
    smallVolume.totalClusters ≤ badCluster32 ∧
      ∃ c s', LeastFree smallVolume emptyState c ∧ c ≠ badCluster32 ∧
        allocateFreeFAT reliable smallVolume emptyState = (.value c, s') ∧
        Allocates smallVolume c emptyState s' :=
  ⟨by decide, (allocateFreeFAT_spec smallVolume_single (by decide) emptyState).1
    ⟨3, by decide, (smallVolume_single.fatRead_eq_zero_iff (by decide) _).mpr (by decide)⟩⟩

theorem tableChains_singleton {a : Nat} (h : IsChain g d a [a]) : TableChains g d {[a]} := by
  refine ⟨⟨?_, Set.pairwise_singleton _ _⟩, ?_⟩
  · rintro l rfl
    exact ⟨a, h.chain⟩
  · rintro l rfl
    exact h.inRange

/-- The small volume with two chains, through the clusters 2, 3, 5 and 4, 6. -/
def twoChainState : State :=
  smallState (fun c => if c = 2 then 3 else if c = 3 then 5 else if c = 4 then 6
    else if c ≤ 6 then endCluster32 else 0) fun _ => 0

theorem tableChains_twoChainState :
    TableChains smallVolume twoChainState.disk {[2, 3, 5], [4, 6]} := by
  have h₂ : nextCluster smallVolume twoChainState.disk 2 = some 3 := by decide
  have h₃ : nextCluster smallVolume twoChainState.disk 3 = some 5 := by decide
  have h₄ : nextCluster smallVolume twoChainState.disk 4 = some 6 := by decide
  refine ⟨⟨?_, ?_⟩, ?_⟩
  · rintro l (rfl | rfl)
    · exact ⟨2, .cons h₂ (.cons h₃ (.last (by decide)))⟩
    · exact ⟨4, .cons h₄ (.last (by decide))⟩
  · exact Set.pairwise_pair.mpr fun _ =>
      ⟨List.disjoint_of_nodup_append (by decide), List.disjoint_of_nodup_append (by decide)⟩
  · rintro l (rfl | rfl) <;> decide

/-- The longer one grows by the next free cluster. -/
theorem tableChains_grow_twoChainState :
    ∃ s₁ s₂, allocateFreeFAT reliable smallVolume twoChainState = (.value 7, s₁) ∧
      fatWrite reliable smallVolume 5 7 s₁ = (.value 0, s₂) ∧
      TableChains smallVolume s₂.disk
        (insert [2, 3, 5, 7] ({[2, 3, 5], [4, 6]} \ {[2, 3, 5]})) := by
  have hS := tableChains_twoChainState
  have hl : [2, 3, 5] ∈ ({[2, 3, 5], [4, 6]} : Set (List Nat)) := Set.mem_insert _ _
  have hfree : IsFirstFree smallVolume twoChainState.disk 7 :=
    ⟨by decide, by decide, fun c h₁ h₂ => by interval_cases c <;> decide⟩
  obtain ⟨s₁, halloc, -⟩ := allocateFreeFAT_found smallVolume_single.toIsFat32 hfree
    fun b _ _ => smallVolume_single.entOffset_lt b
  obtain ⟨s₂, hwrite, -⟩ := fatWrite_fat32 (c := 5) (v := 7) (s := s₁) smallVolume_single.toIsFat32
    (by decide) (smallVolume_single.entOffset_lt _)
  refine ⟨s₁, s₂, halloc, hwrite, ?_⟩
  exact (tableChains_grow_iff smallVolume_single hS hl (List.cons_ne_nil _ _) halloc (by decide)
    hwrite).mpr (links_of_totalClusters (by decide) hS hl _ (by decide))

/-- A volume with more clusters than a link can name. -/
def hugeVolume : Globals :=
  { smallVolume with totalClusters := 0x0FFFFFF9, totalClusters_lt := by decide }

/-- All its clusters are taken but the last one. -/
def hugeState : State :=
  { takenState with disk := setFat hugeVolume takenState.disk endCluster32 0 }

theorem hugeVolume_single : hugeVolume.Single where
  toIsFat32 := { smallVolume_single.toIsFat32 with }
  one := rfl

/-- A chain that is continued at cluster 0x0FFFFFF8 ends in front of it. -/
theorem not_tableChains_hugeState :
    hugeVolume.Single ∧ TableChains hugeVolume hugeState.disk {[2]} ∧
      ∃ s₁ s₂, allocateFreeFAT reliable hugeVolume hugeState = (.value endCluster32, s₁) ∧
        fatWrite reliable hugeVolume 2 endCluster32 s₁ = (.value 0, s₂) ∧
        ¬TableChains hugeVolume s₂.disk (insert [2, endCluster32] ({[2]} \ {[2]})) := by
  have hg := hugeVolume_single
  have hval (c : Nat) (hc : 2 ≤ c) (hlt : c < endCluster32) :
      fatValue hugeVolume hugeState.disk c = endCluster32 := by
    rw [hugeState, fatValue_setFat_other hg.toIsFat32, fatValue_takenState hg.toBlocks512
      (hg.inSector c)]
    exact fatOffset_ne (by decide) ⟨hc, hlt.trans (by decide)⟩ (by decide) hlt.ne
  -- the first free cluster is the one whose number is the end mark
  have hfree : IsFirstFree hugeVolume hugeState.disk endCluster32 := by
    refine ⟨by decide, ?_, fun c h₂ hlt => ?_⟩
    · exact fatValue_setFat_self hg.toIsFat32 (hg.inSector _)
    · rw [hval c h₂ hlt]
      decide
  have hS : TableChains hugeVolume hugeState.disk {[2]} := by
    refine tableChains_singleton ⟨.last ?_, by decide⟩
    rw [nextCluster, hval 2 le_rfl (by decide), if_pos le_rfl]
  obtain ⟨s₁, halloc, hdisk, -⟩ := allocateFreeFAT_found hg.toIsFat32 hfree
    fun b _ _ => hg.entOffset_lt b
  obtain ⟨s₂, hwrite, hdisk', -⟩ := fatWrite_fat32 (c := 2) (v := endCluster32) (s := s₁)
    hg.toIsFat32 (by decide) (hg.entOffset_lt _)
  refine ⟨hg, hS, s₁, s₂, halloc, hwrite, fun hnew => ?_⟩
  rw [hdisk', hdisk] at hnew
  have hlt := ((tableChains_link_iff hg hS rfl (List.cons_ne_nil _ _) hfree.inRange
    hfree.free).mp hnew).1
  exact absurd hlt (Nat.lt_irrefl _)

end PotatoOS
