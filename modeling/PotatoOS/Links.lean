/-
PotatoOS/Links.lean

Runs of `putFile` calls.

A call that is in order (`PutOk`) keeps the volume tidy and the names of each
directory distinct, whatever it returns; so do runs of such calls.  The code
does not check what being in order asks for: two small volumes on which one
call mixes up the chains or the names stand behind the theorems.

Main results: `wellFormed_of_run` and `uniqueNames_of_run`.
-/
import PotatoOS.Put
import Mathlib.Logic.Relation

namespace PotatoOS

open Prog

/-- One call in order has taken the machine from `s` to `s'`. -/
def PutStep (g : Globals) (s s' : State) : Prop :=
  ∃ call code, PutOk g s call ∧ PutCall.Returns call g s code s'

/-- The same for a successful call. -/
def PutSuccess (g : Globals) (s s' : State) : Prop :=
  ∃ call, PutOk g s call ∧ PutCall.Returns call g s 0 s'

section

variable {g : Globals} {s s' : State}

theorem PutSuccess.step (h : PutSuccess g s s') : PutStep g s s' := by
  obtain ⟨call, hok, hret⟩ := h
  exact ⟨call, 0, hok, hret⟩

theorem PutStep.tidy (h : g.IsVolume) (hstep : PutStep g s s') (ht : Tidy g s.disk) :
    Tidy g s'.disk := by
  obtain ⟨call, code, hok, hret⟩ := hstep
  rcases putFile_effect h ht hok hret with hsame | ⟨c, l, l', a, k, x, lx, hi, -⟩
  · rwa [hsame]
  · exact hi.tidy ht

theorem PutStep.uniqueNames (h : g.IsVolume) (hstep : PutStep g s s') (ht : Tidy g s.disk)
    (hu : UniqueNames g s.disk) : UniqueNames g s'.disk := by
  obtain ⟨call, code, hok, hret⟩ := hstep
  rcases putFile_effect h ht hok hret with hsame | ⟨c, l, l', a, k, x, lx, hi, hname⟩
  · rwa [hsame]
  · exact hi.uniqueNames ht hu hname

theorem tidy_of_run (h : g.IsVolume) (ht : Tidy g s.disk)
    (hrun : Relation.ReflTransGen (PutStep g) s s') : Tidy g s'.disk := by
  induction hrun with
  | refl => exact ht
  | tail _ hstep ih => exact hstep.tidy h ih

/-- Along a run of successful calls in order no chains are mixed up. -/
theorem wellFormed_of_run (h : g.IsVolume) (hwf : WellFormed g s.disk)
    (hroot : RootApart g s.disk) (hrun : Relation.ReflTransGen (PutSuccess g) s s') :
    WellFormed g s'.disk := by
  have hrun' : Relation.ReflTransGen (PutStep g) s s' :=
    Relation.ReflTransGen.mono (fun _ _ hstep => PutSuccess.step hstep) _ _ hrun
  exact (tidy_iff.mp (tidy_of_run h (tidy_iff.mpr ⟨hwf, hroot⟩) hrun')).1

/-- Along a run of calls in order, whatever they return, the names of each
directory stay distinct. -/
theorem uniqueNames_of_run (h : g.IsVolume) (hu : UniqueNames g s.disk)
    (hwf : WellFormed g s.disk) (hroot : RootApart g s.disk)
    (hrun : Relation.ReflTransGen (PutStep g) s s') : UniqueNames g s'.disk := by
  have ht := tidy_iff.mpr ⟨hwf, hroot⟩
  induction hrun with
  | refl => exact hu
  | tail hpre hstep ih => exact hstep.uniqueNames h (tidy_of_run h ht hpre) ih

end

/-! ### Root directories of one cluster -/

section

variable {g : Globals} {d : Disk} {r a k : Nat} {l : List Nat}

theorem liveIn_first (hend : IsEnd (slot g d r 1)) (h : LiveIn g d [r] a k) : a = r ∧ k = 0 := by
  have ha := List.mem_singleton.mp h.mem
  subst ha
  refine ⟨rfl, ?_⟩
  by_contra hk
  rcases Nat.lt_or_ge 1 k with hlt | hge
  · exact h.before 1 hlt hend
  · obtain rfl : k = 1 := by omega
    exact h.used (.inr hend)

/-- With one entry that is not a directory there is only the root directory. -/
theorem liveAt_first (hroot : IsChain g d g.rootCluster [r]) (hend : IsEnd (slot g d r 1))
    (hfile : ¬ (slot g d r 0).isDirectory) (h : LiveAt g d a k) : a = r ∧ k = 0 := by
  have honly : ∀ b, IsDir g d b → b = g.rootCluster := by
    intro b hb
    induction hb with
    | root => rfl
    | sub _ hch hl hdir ih =>
        subst ih
        obtain rfl := hch.chain.unique hroot.chain
        obtain ⟨rfl, rfl⟩ := liveIn_first hend hl
        exact absurd hdir hfile
  obtain ⟨b, lb, hb, hch, hl⟩ := h
  obtain rfl := honly b hb
  obtain rfl := hch.chain.unique hroot.chain
  exact liveIn_first hend hl

theorem tidy_first (hroot : IsChain g d g.rootCluster [r]) (hend : IsEnd (slot g d r 1))
    (hfile : ¬ (slot g d r 0).isDirectory)
    (hch : IsChain g d (getClusterFromEntry g (slot g d r 0)) l) (hnot : r ∉ l) :
    WellFormed g d ∧ RootApart g d := by
  refine ⟨⟨fun a k hl => ?_, fun a k a' k' l l' hl hl' hne => ?_⟩,
    ⟨⟨[r], hroot⟩, fun a k l₁ l₂ hl h₁ h₂ => ?_⟩⟩
  · obtain ⟨rfl, rfl⟩ := liveAt_first hroot hend hfile hl
    exact ⟨l, hch⟩
  · obtain ⟨rfl, rfl⟩ := liveAt_first hroot hend hfile hl
    obtain ⟨rfl, rfl⟩ := liveAt_first hroot hend hfile hl'
    exact absurd rfl hne
  · obtain ⟨rfl, rfl⟩ := liveAt_first hroot hend hfile hl
    obtain rfl := h₁.chain.unique hroot.chain
    obtain rfl := h₂.chain.unique hch.chain
    exact List.singleton_disjoint.mpr hnot

/-- A root directory that starts with an end mark has no live entry. -/
theorem not_liveAt_empty (hroot : IsChain g d g.rootCluster [r]) (hend : IsEnd (slot g d r 0)) :
    ¬ LiveAt g d a k := by
  rintro ⟨b, lb, hb, hch, hl⟩
  have hb' : b = g.rootCluster := by
    induction hb generalizing lb a k with
    | root => rfl
    | sub _ hch' hl' _ ih =>
        obtain rfl := ih _ hch' hl'
        obtain rfl := hch'.chain.unique hroot.chain
        exact absurd hl' (not_liveIn_of_end hend)
  subst hb'
  obtain rfl := hch.chain.unique hroot.chain
  exact not_liveIn_of_end hend hl

theorem tidy_empty (hroot : IsChain g d g.rootCluster [r]) (hend : IsEnd (slot g d r 0)) :
    WellFormed g d ∧ RootApart g d :=
  ⟨⟨fun _ _ hl => absurd hl (not_liveAt_empty hroot hend),
    fun _ _ _ _ _ _ hl => absurd hl (not_liveAt_empty hroot hend)⟩,
    ⟨[r], hroot⟩, fun _ _ _ _ hl => absurd hl (not_liveAt_empty hroot hend)⟩

theorem uniqueNames_empty (hroot : IsChain g d g.rootCluster [r]) (hend : IsEnd (slot g d r 0)) :
    UniqueNames g d := fun c l hc hch a k _ _ hl =>
  absurd (⟨c, l, hc, hch, hl⟩ : LiveAt g d a k) (not_liveAt_empty hroot hend)

end

/-! ### The first file of an empty volume -/

/-- A file of one byte. -/
def byteEntry : DirectoryEntry := (letterEntry 0x42).setField 28 4 1

/-- Store it in the root directory. -/
def byteCall : PutCall := ⟨rootPath, fun _ => 0x55, byteEntry, fun _ => 0, fun _ => 0⟩

/-- The state behind the call. -/
def afterByteCall (s : State) : State :=
  (putFile reliable smallVolume 3 rootPath (fun _ => 0x55) byteEntry (fun _ => 0) (fun _ => 0) s).2

theorem byteCall_returns {s : State} {code : Int}
    (h : returnCode (putFile reliable smallVolume 3 rootPath (fun _ => 0x55) byteEntry
      (fun _ => 0) (fun _ => 0) s).1 = some code) :
    byteCall.Returns smallVolume s code (afterByteCall s) := by
  rcases hrun : putFile reliable smallVolume 3 rootPath (fun _ => 0x55) byteEntry (fun _ => 0)
    (fun _ => 0) s with ⟨⟨code', e'⟩ | stop, s'⟩
  · rw [hrun] at h
    cases h
    exact ⟨3, e', by rw [afterByteCall, hrun]; exact hrun⟩
  · rw [hrun] at h
    cases h

theorem keyOk_byteEntry : KeyOk byteEntry fun _ => 0 := by
  have hbase : ∀ i < 8, byteEntry.bytes (0 + i) ≠ 0x20 := by decide
  have hext : ∀ i < 3, byteEntry.bytes (8 + i) ≠ 0x20 := by decide
  refine keyOk_of_padded (by decide) ⟨?_, ?_⟩ (.inr (.inl (by decide)))
  · exact fun i j hij hj hsp => absurd hsp (hbase i (Nat.lt_trans hij hj))
  · exact fun i j hij hj hsp => absurd hsp (hext i (Nat.lt_trans hij hj))

theorem target_rootPath {s : State} {c : Nat} (h : Target smallVolume s rootPath c) : c = 2 := by
  obtain ⟨fuel, info, s', hfind⟩ := h
  cases hfind
  rfl

/-- In the rewritten root directory the entry is followed by an end mark. -/
theorem isEnd_afterFirst (e : DirectoryEntry) :
    IsEnd (slot smallVolume (storedDisk smallVolume emptyState.disk 2 0 e 3) 2 1) := by
  rw [IsEnd, slot_storedDisk_other (by decide) (by decide)]
  exact markedSector_emptyState (by decide) (by decide)

theorem spot_emptyState :
    Spot smallVolume emptyState.disk ([] ++ 2 :: []) emptyState.disk [] 2 [] 0 3 :=
  ⟨.here (by simp) firstVacant_emptyState, isFirstFree_emptyState, by decide, by decide⟩

theorem putOk_emptyState : PutOk smallVolume emptyState byteCall := by
  intro _ c hc
  obtain rfl := target_rootPath hc
  have hroot : IsChain smallVolume emptyState.disk 2 [2] := smallState_isChain (by decide)
  refine ⟨.root, fun l hch => ?_⟩
  obtain rfl := hch.chain.unique hroot.chain
  refine ⟨by decide, keyOk_byteEntry, fun _ => ⟨keyOk_byteEntry, .inr ⟨emptyState.disk, [], 2, [],
    0, 3, spot_emptyState, by decide, ?_, ?_⟩⟩⟩
  · exact fun b j hl => .inl (liveIn_first (isEnd_afterFirst byteEntry) hl)
  · exact fun hdir => absurd hdir (by decide)

theorem returns_emptyState : byteCall.Returns smallVolume emptyState 0 (afterByteCall emptyState) :=
  byteCall_returns (by decide +kernel)

/-- The first file leaves the volume well-formed. -/
theorem wellFormed_afterFirst : WellFormed smallVolume (afterByteCall emptyState).disk := by
  obtain ⟨hwf, hroot⟩ := tidy_empty (d := emptyState.disk)
    (show IsChain smallVolume _ 2 [2] from smallState_isChain (by decide)) (by decide)
  exact wellFormed_of_run smallVolume_isVolume hwf hroot
    (.single ⟨byteCall, putOk_emptyState, returns_emptyState⟩)

/-- And its names distinct. -/
theorem uniqueNames_afterFirst : UniqueNames smallVolume (afterByteCall emptyState).disk := by
  have hch : IsChain smallVolume emptyState.disk 2 [2] := smallState_isChain (by decide)
  obtain ⟨hwf, hroot⟩ := tidy_empty (show IsChain smallVolume emptyState.disk 2 [2] from hch)
    (by decide)
  exact uniqueNames_of_run smallVolume_isVolume (uniqueNames_empty hch (by decide)) hwf hroot
    (.single ⟨byteCall, 0, putOk_emptyState, returns_emptyState⟩)

/-! ### Two volumes that one more file spoils -/

/-- One file, and the two reserved table entries as they are on real volumes. -/
def reservedState : State :=
  smallState (fun c => if c ≤ 3 then endCluster32 else 0) fileEntry.bytes

theorem isChain_afterReserved :
    IsChain smallVolume (afterByteCall reservedState).disk 2 [2] :=
  smallState_isChain (by decide +kernel)

/-- The second file is stored, but the entry of the first has become a table
entry, whose first cluster is out of range. -/
theorem not_wellFormed_afterReserved :
    smallVolume.IsVolume ∧ WellFormed smallVolume reservedState.disk ∧
      RootApart smallVolume reservedState.disk ∧
      byteCall.Returns smallVolume reservedState 0 (afterByteCall reservedState) ∧
      ¬ WellFormed smallVolume (afterByteCall reservedState).disk := by
  have hroot : IsChain smallVolume reservedState.disk 2 [2] := smallState_isChain (by decide)
  have hfile : IsChain smallVolume reservedState.disk
      (getClusterFromEntry smallVolume (slot smallVolume reservedState.disk 2 0)) [3] :=
    ⟨.last (by decide), by decide⟩
  obtain ⟨hwf, hapart⟩ := tidy_first (show IsChain smallVolume _ 2 [2] from hroot) (by decide)
    (by decide) hfile (by decide)
  refine ⟨smallVolume_isVolume, hwf, hapart, byteCall_returns (by decide +kernel), fun hwf' => ?_⟩
  have hlive : LiveAt smallVolume (afterByteCall reservedState).disk 2 0 :=
    ⟨2, [2], .root, isChain_afterReserved, ⟨[], [], rfl, by simp⟩,
      fun _ hj => absurd hj (Nat.not_lt_zero _), by decide, by decide +kernel⟩
  obtain ⟨l, hl⟩ := hwf'.ends 2 0 hlive
  exact absurd hl.head_inRange (by decide +kernel)

/-- An empty root directory, and all clusters in use but one. -/
def crowdedState : State :=
  smallState (fun c => if c = 3 then 0 else endCluster32) fun _ => 0

/-- The root directory now shows the same table entries twice. -/
theorem not_uniqueNames_afterCrowded :
    smallVolume.IsVolume ∧ UniqueNames smallVolume crowdedState.disk ∧
      testIfFATFormat byteEntry.bytes = 0 ∧
      byteCall.Returns smallVolume crowdedState 0 (afterByteCall crowdedState) ∧
      ¬ UniqueNames smallVolume (afterByteCall crowdedState).disk := by
  have hroot : IsChain smallVolume crowdedState.disk 2 [2] := smallState_isChain (by decide)
  have hroot' : IsChain smallVolume (afterByteCall crowdedState).disk 2 [2] :=
    smallState_isChain (by decide +kernel)
  refine ⟨smallVolume_isVolume, uniqueNames_empty hroot (by decide), by decide,
    byteCall_returns (by decide +kernel), fun hu => ?_⟩
  have hlive₁ : LiveIn smallVolume (afterByteCall crowdedState).disk [2] 2 1 :=
    ⟨⟨[], [], rfl, by simp⟩, by decide +kernel, by decide, by decide +kernel⟩
  have hlive₂ : LiveIn smallVolume (afterByteCall crowdedState).disk [2] 2 2 :=
    ⟨⟨[], [], rfl, by simp⟩, by decide +kernel, by decide, by decide +kernel⟩
  have := hu 2 [2] .root hroot' 2 1 2 2 hlive₁ hlive₂ (by decide +kernel)
  exact absurd this (by decide)

end PotatoOS
