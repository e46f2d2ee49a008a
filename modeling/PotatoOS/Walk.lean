/-
PotatoOS/Walk.lean

Searches and paths on arbitrary images: FAT32 volumes about whose table and
directories nothing is assumed.

Every walk is along links that the disk alone determines.  A search goes on
behind a cluster that holds neither the name nor an end mark (`searchLink`),
and a path is a list of pieces, each searched in the directory of the entry
before it.  `FoundIn` and `Trail` say on the disk what a search and a path
come to, and for each there is a theorem that the code comes to just that:
`directorySearch_ok_iff` and `resolvePieces_ok_iff`.

`resolvePieces` is the path loop of Path.lean, for paths of any length, that
remembers all entries it has found (`walkPath_eq_resolvePieces`).
-/
import PotatoOS.Loop
import PotatoOS.Cluster
import PotatoOS.Read

namespace PotatoOS

open Prog

/-! ### Images -/

theorem Globals.IsImage.isFat32 {g : Globals} (h : g.IsImage) (hle : g.sectorsPerCluster ≤ 0x7F) :
    g.IsFat32 where
  fatType := h.fatType
  bytesPerSector := h.bytesPerSector
  one_le := h.one_le
  le := hle

theorem smallVolume_isImage : smallVolume.IsImage := smallVolume_isVolume.toIsFat32.isImage

/-- Slot `k` of a cluster on disk, of whatever size. -/
def dirSlot (g : Globals) (d : Disk) (c k : Nat) : DirectoryEntry :=
  DirectoryEntry.at_ (clusterBytes g d c) (32 * k)

/-- All slots of a cluster. -/
def dirSlots (g : Globals) (d : Disk) (c : Nat) : List DirectoryEntry :=
  (List.range (16 * g.sectorsPerCluster)).map (dirSlot g d c)

/-- The entries of a directory, in chain order. -/
def dirEntries (g : Globals) (d : Disk) (l : List Nat) : List DirectoryEntry :=
  l.flatMap (dirSlots g d)

theorem dirEntries_cons (g : Globals) (d : Disk) (c : Nat) (l : List Nat) :
    dirEntries g d (c :: l) = dirSlots g d c ++ dirEntries g d l := rfl

section

variable {g : Globals} {c k : Nat} {s : State}

theorem Globals.IsFat32.lastSlot_eq (h : g.IsFat32) :
    g.lastSlot = 16 * g.sectorsPerCluster - 1 := by
  have h₁ := h.one_le
  have h₂ := h.le
  rw [Globals.lastSlot, h.clusterSize_eq]
  omega

/-- A cluster that was read to the start of the buffer shows its slots. -/
theorem slotAt_loadCluster (h : g.IsFat32) (hk : k < 16 * g.sectorsPerCluster) :
    (s.loadCluster g c 0).slotAt k = dirSlot g s.disk c k := by
  funext j
  have hj := j.isLt
  show (s.loadCluster g c 0).mem (diskLocation + 32 * k + j) = clusterBytes g s.disk c (32 * k + j)
  rw [loadCluster_mem_zero s c h.le, Nat.add_assoc, memcpy_apply_add (by omega)]

end

/-! ### Searches -/

/-- Where the search of a cluster goes on: at the link of a cluster that can
be read and holds neither the name nor an end mark. -/
def searchLink (g : Globals) (d : Disk) (name : Name) (c : Nat) : Option Nat :=
  if g.Transfers c ∧ lookup name (dirSlots g d c) = .pass ∧ g.entOffset 4 c < fatTableSize then
    nextCluster g d c
  else none

/-- The search of the directory at `c` finds the entry. -/
inductive FoundIn (g : Globals) (d : Disk) (name : Name) : Nat → DirectoryEntry → Prop
  | here {c i : Nat} : g.Transfers c → lookup name (dirSlots g d c) = .hit i →
      FoundIn g d name c (dirSlot g d c i)
  | next {c b : Nat} {e : DirectoryEntry} : searchLink g d name c = some b →
      FoundIn g d name b e → FoundIn g d name c e

section

variable {g : Globals} {d : Disk} {name : Name} {c b fuel : Nat} {s : State} {key filepart : Mem}
  {e : DirectoryEntry}

theorem searchLink_eq_some_iff :
    searchLink g d name c = some b ↔ (g.Transfers c ∧ lookup name (dirSlots g d c) = .pass ∧
      g.entOffset 4 c < fatTableSize) ∧ nextCluster g d c = some b := by
  rw [searchLink]
  split
  next h => exact (and_iff_right h).symm
  next h => exact iff_of_false (Option.some_ne_none b).symm fun h' => h h'.1

/-- Searches have links at the clusters of the volume only. -/
theorem searchLink_inRange (h : searchLink g d name c = some b) : g.InRange c :=
  (searchLink_eq_some_iff.mp h).1.1.1

theorem finite_inRange (g : Globals) : { c | g.InRange c }.Finite :=
  (Set.finite_lt_nat g.totalClusters).subset fun _ hc => hc.2

/-- The search of a cluster that was read. -/
theorem directorySearch_loaded {env : Env} (h : g.IsFat32) (hkey : searchName filepart = some key)
    (hc : g.InRange c) (hread : clusterRead env g c 0 s = (.value 0, s.loadCluster g c 0)) :
    directorySearch env g filepart (fuel + 1) c s =
      match lookup (nameOf key) (dirSlots g s.disk c) with
      | .hit i => (.value (.ok (dirSlot g s.disk c i, i)), s.loadCluster g c 0)
      | .stop => (.value (.error (-2)), s.loadCluster g c 0)
      | .pass => searchNext env g c (directorySearch env g filepart fuel)
          (s.loadCluster g c 0) := by
  have hone := h.one_le
  rw [directorySearch, if_neg (not_outOfRange hc)]
  simp only [hkey]
  rw [bind_value hread]
  simp only [ne_eq, not_true_eq_false, if_false]
  rw [h.lastSlot_eq, searchSlots_run env (dirSlot g s.disk c)
    (fun k hk => slotAt_loadCluster h (by omega)) (fun i hi => searchName_ne_zero hkey hi),
    Nat.sub_add_cancel (by omega), dirSlots, List.range_eq_range']
  rcases lookup (nameOf key) ((List.range' 0 (16 * g.sectorsPerCluster)).map (dirSlot g s.disk c))
    with i | - | -
  · simp only [Nat.zero_add]
  · rfl
  · rfl

/-- The search of a cluster that cannot be read. -/
theorem directorySearch_unread {env : Env} {s' : State} (hkey : searchName filepart = some key)
    (hread : clusterRead env g c 0 s = (.value (-1), s')) :
    (directorySearch env g filepart (fuel + 1) c s).1 = .value (.error (-1)) := by
  rw [directorySearch]
  split
  · rfl
  · simp only [hkey]
    rw [bind_value hread]
    rfl

/-- One cluster of a search, on an arbitrary image. -/
theorem directorySearch_cluster (h : g.IsImage) (hkey : searchName filepart = some key)
    (ht : g.Transfers c) :
    directorySearch reliable g filepart (fuel + 1) c s =
      match lookup (nameOf key) (dirSlots g s.disk c) with
      | .hit i => (.value (.ok (dirSlot g s.disk c i, i)), s.loadCluster g c 0)
      | .stop => (.value (.error (-2)), s.loadCluster g c 0)
      | .pass => searchNext reliable g c (directorySearch reliable g filepart fuel)
          (s.loadCluster g c 0) :=
  directorySearch_loaded (h.isFat32 ht.2.2) hkey ht.1
    ((clusterRead_run h.bytesPerSector).trans (if_pos ht))

/-- The search follows its links. -/
theorem directorySearch_link (h : g.IsImage) (hkey : searchName filepart = some key)
    (hb : searchLink g s.disk (nameOf key) c = some b) (fuel : Nat) :
    directorySearch reliable g filepart (fuel + 1) c s
      = directorySearch reliable g filepart fuel b ((s.loadCluster g c 0).loadFat g 4 c) := by
  obtain ⟨⟨ht, hpass, hoff⟩, hn⟩ := searchLink_eq_some_iff.mp hb
  rw [directorySearch_cluster h hkey ht, hpass]
  simp only
  have h32 := h.isFat32 ht.2.2
  rw [searchNext_run h32 (fatRead_fat32 h32 ht.1 hoff), loadCluster_disk, hn]

/-- Without a link it ends, and finds only what the cluster holds. -/
theorem directorySearch_last (h : g.IsImage) (hkey : searchName filepart = some key)
    (hb : searchLink g s.disk (nameOf key) c = none) (fuel : Nat) :
    (directorySearch reliable g filepart (fuel + 1) c s).1 ≠ .stop .exhausted ∧
      ∀ e k, (directorySearch reliable g filepart (fuel + 1) c s).1 = .value (.ok (e, k)) →
        g.Transfers c ∧ lookup (nameOf key) (dirSlots g s.disk c) = .hit k ∧
          dirSlot g s.disk c k = e := by
  by_cases ht : g.Transfers c
  swap
  · rw [directorySearch_unread hkey ((clusterRead_run h.bytesPerSector).trans (if_neg ht))]
    simp
  rw [directorySearch_cluster h hkey ht]
  rcases hl : lookup (nameOf key) (dirSlots g s.disk c) with i | - | -
  · refine ⟨by simp, ?_⟩
    intro e k he
    cases he
    exact ⟨ht, rfl, rfl⟩
  · simp
  · -- nothing found: the table decides
    have h32 := h.isFat32 ht.2.2
    by_cases hoff : g.entOffset 4 c < fatTableSize
    · have hn : nextCluster g s.disk c = none := by
        rwa [searchLink, if_pos ⟨ht, hl, hoff⟩] at hb
      simp only
      rw [searchNext_run h32 (fatRead_fat32 h32 ht.1 hoff), loadCluster_disk, hn]
      simp
    · simp only [searchNext]
      rw [bind_stop (fatRead_fat32_undefined h32 ht.1 hoff)]
      simp

theorem directorySearch_loop (h : g.IsImage) (hkey : searchName filepart = some key) (d : Disk) :
    Loop (directorySearch reliable g filepart) id (searchLink g d (nameOf key))
      (fun s => s.disk = d) where
  none_left _ _ := rfl
  round := by
    rintro c s b rfl hb
    exact ⟨b, (s.loadCluster g c 0).loadFat g 4 c, rfl, loadCluster_disk s g c 0,
      directorySearch_link h hkey hb⟩
  last := by
    rintro c s rfl hb
    exact ⟨1, (directorySearch_last h hkey hb 0).1⟩

/-- A search ends exactly when its links do not lead back. -/
theorem directorySearch_halts_iff (h : g.IsImage) (hkey : searchName filepart = some key) :
    Halts (fun fuel => directorySearch reliable g filepart fuel c) s
      ↔ ¬ Cycles (searchLink g s.disk (nameOf key)) c :=
  (directorySearch_loop h hkey s.disk).halts_iff (i := c) rfl (finite_inRange g)
    fun _ _ => searchLink_inRange

/-- Without a name to look for it ends at once. -/
theorem directorySearch_noName {env : Env} (hkey : searchName filepart = none) :
    (directorySearch env g filepart (fuel + 1) c s).1 ≠ .stop .exhausted ∧
      ∀ r, (directorySearch env g filepart (fuel + 1) c s).1 ≠ .value (.ok r) := by
  rw [directorySearch, hkey]
  split
  · simp
  · simp

theorem FoundIn.run (h : g.IsImage) (hkey : searchName filepart = some key)
    (hf : FoundIn g d (nameOf key) c e) :
    ∃ N k, ∀ fuel ≥ N, ∀ s : State, s.disk = d →
      (directorySearch reliable g filepart fuel c s).1 = .value (.ok (e, k)) := by
  induction hf with
  | @here c i ht hl =>
      refine ⟨1, i, ?_⟩
      rintro (_ | fuel) hfuel s rfl
      · cases hfuel
      · rw [directorySearch_cluster h hkey ht, hl]
  | @next c b e hb _ ih =>
      obtain ⟨N, k, hN⟩ := ih
      refine ⟨N + 1, k, ?_⟩
      rintro (_ | fuel) hfuel s rfl
      · cases hfuel
      · rw [directorySearch_link h hkey hb]
        exact hN fuel (Nat.le_of_succ_le_succ hfuel) _ (loadCluster_disk s g c 0)

theorem FoundIn.of_run (h : g.IsImage) (hkey : searchName filepart = some key) {k : Nat}
    (hrun : (directorySearch reliable g filepart fuel c s).1 = .value (.ok (e, k))) :
    FoundIn g s.disk (nameOf key) c e := by
  induction fuel generalizing c s with
  | zero => cases hrun
  | succ fuel ih =>
      rcases hb : searchLink g s.disk (nameOf key) c with - | b
      · obtain ⟨ht, hl, rfl⟩ := (directorySearch_last h hkey hb fuel).2 e k hrun
        exact .here ht hl
      · rw [directorySearch_link h hkey hb] at hrun
        refine .next hb ?_
        have := ih hrun
        rwa [show ((s.loadCluster g c 0).loadFat g 4 c).disk = s.disk from
          loadCluster_disk s g c 0] at this

/-- What a search returns is what there is to find. -/
theorem directorySearch_ok_iff (h : g.IsImage) (hkey : searchName filepart = some key) :
    (∃ fuel k, (directorySearch reliable g filepart fuel c s).1 = .value (.ok (e, k)))
      ↔ FoundIn g s.disk (nameOf key) c e := by
  constructor
  · rintro ⟨fuel, k, hrun⟩
    exact .of_run h hkey hrun
  · intro hf
    obtain ⟨N, k, hN⟩ := hf.run h hkey
    exact ⟨N, k, hN N (Nat.le_refl N) s rfl⟩

theorem FoundIn.unique {e' : DirectoryEntry} (hf : FoundIn g d name c e)
    (hf' : FoundIn g d name c e') : e = e' := by
  -- a cluster in which the name is found is not left, so both ways end in the same one
  induction hf with
  | @here c i ht hl =>
      cases hf' with
      | here _ hl' =>
          rw [hl] at hl'
          cases hl'
          rfl
      | next hb _ =>
          have := (searchLink_eq_some_iff.mp hb).1.2.1
          rw [hl] at this
          cases this
  | @next c b e hb _ ih =>
      cases hf' with
      | here _ hl' =>
          have := (searchLink_eq_some_iff.mp hb).1.2.1
          rw [hl'] at this
          cases this
      | next hb' hf' =>
          rw [hb] at hb'
          cases hb'
          exact ih hf'

end

/-! ### Paths -/

/-- The components of a path as the loop cuts them out; none for one that does
not fit its buffer.  Behind 65535 characters the start of a component is too
small and none fits. -/
def pieces (path : CString) : Nat → Nat → Nat → List (Option Mem)
  | 0, _, _ => []
  | n + 1, iterator, start =>
      if path.at_ iterator = 0x5C ∨ path.at_ iterator = 0 then
        (if iterator - start > 256 then none
          else some (fileNamePart path start (iterator - start)))
          :: pieces path n (iterator + 1) ((iterator + 1) % 2 ^ 16)
      else pieces path n (iterator + 1) start

/-- The components of a path behind its drive; a path of less than two characters has none that
fits. -/
def piecesOf (path : CString) : List (Option Mem) :=
  if path.1.length < 2 then [none] else pieces path (path.1.length - 2) 3 3

/-- What follows the search of a piece: the entry goes in front of those that
`rest` finds from its cluster on. -/
def afterSearch (g : Globals) (rest : Nat → Prog State (Except Int (List DirectoryEntry))) :
    Except Int (DirectoryEntry × Nat) → Prog State (Except Int (List DirectoryEntry))
  | .error code => pure (.error code)
  | .ok (entry, _) => do
      let es ← rest (getClusterFromEntry g entry)
      return es.map (entry :: ·)

/-- Search one piece after the other, and remember all entries found. -/
def resolvePieces (env : Env) (g : Globals) (fuel : Nat) :
    List (Option Mem) → Nat → Prog State (Except Int (List DirectoryEntry))
  | [], _ => pure (.ok [])
  | none :: _, _ => halt .undefined
  | some part :: ps, c =>
      directorySearch env g part fuel c >>= afterSearch g (resolvePieces env g fuel ps)

/-- What is left of the entries found: the last one and its cluster. -/
def lastFound (g : Globals) (c : Nat) (info : Option DirectoryEntry) (es : List DirectoryEntry) :
    Nat × Option DirectoryEntry :=
  es.foldl (fun _ e => (getClusterFromEntry g e, some e)) (c, info)

/-- When a search finds what `found` says, the pieces lead from the directory
at `c` along these entries. -/
inductive Trail (g : Globals) (found : Name → Nat → DirectoryEntry → Prop) :
    List (Option Mem) → Nat → List DirectoryEntry → Prop
  | here {c : Nat} : Trail g found [] c []
  | step {c : Nat} {part key : Mem} {ps : List (Option Mem)} {e : DirectoryEntry}
      {es : List DirectoryEntry} : searchName part = some key → found (nameOf key) c e →
      Trail g found ps (getClusterFromEntry g e) es → Trail g found (some part :: ps) c (e :: es)

/-- What searches find on a drive, in states that satisfy an invariant. -/
structure SearchSpec (env : Env) (g : Globals) (found : Name → Nat → DirectoryEntry → Prop)
    (Inv : State → Prop) : Prop where
  run : ∀ {part key c e}, searchName part = some key → found (nameOf key) c e →
    ∃ N k, ∀ fuel ≥ N, ∀ s, Inv s →
      (directorySearch env g part fuel c s).1 = .value (.ok (e, k))
  of_run : ∀ {part key fuel c s e k s'}, Inv s → searchName part = some key →
    directorySearch env g part fuel c s = (.value (.ok (e, k)), s') →
      found (nameOf key) c e ∧ Inv s'

/-- On the way along the pieces the directory at `b` is searched for the name. -/
inductive Searched (g : Globals) (d : Disk) : List (Option Mem) → Nat → Nat → Name → Prop
  | here {c : Nat} {part key : Mem} {ps : List (Option Mem)} : searchName part = some key →
      Searched g d (some part :: ps) c c (nameOf key)
  | later {c b : Nat} {part key : Mem} {ps : List (Option Mem)} {e : DirectoryEntry} {name : Name} :
      searchName part = some key → FoundIn g d (nameOf key) c e →
      Searched g d ps (getClusterFromEntry g e) b name → Searched g d (some part :: ps) c b name

section

variable {env : Env} {g : Globals} {d : Disk} {c fuel fuel' : Nat} {s s' : State}
  {ps : List (Option Mem)} {es : List DirectoryEntry}

theorem resolvePieces_error {part : Mem} {code : Int}
    (hr : directorySearch env g part fuel c s = (.value (.error code), s')) :
    resolvePieces env g fuel (some part :: ps) c s = (.value (.error code), s') := bind_value hr

theorem resolvePieces_ok {part : Mem} {e : DirectoryEntry} {k : Nat}
    (hr : directorySearch env g part fuel c s = (.value (.ok (e, k)), s')) :
    resolvePieces env g fuel (some part :: ps) c s
      = (resolvePieces env g fuel ps (getClusterFromEntry g e) >>= fun es =>
        pure (es.map (e :: ·))) s' := bind_value hr

theorem resolvePieces_stop {part : Mem} {stop : Stop}
    (hr : directorySearch env g part fuel c s = (.stop stop, s')) :
    resolvePieces env g fuel (some part :: ps) c s = (.stop stop, s') := bind_stop hr

/-- The loop over the path walks along its pieces. -/
theorem walkLoop_eq_resolvePieces (env : Env) (g : Globals) (fuel : Nat) (path : CString)
    (n iterator start c : Nat) (info : Option DirectoryEntry) (s : State) :
    walkLoop env g fuel path n iterator start c info s =
      (resolvePieces env g fuel (pieces path n iterator start) c >>= fun r =>
        pure (r.map (lastFound g c info))) s := by
  induction n generalizing iterator start c info s with
  | zero => rfl
  | succ n ih =>
      rw [walkLoop, pieces]
      by_cases hsep : path.at_ iterator = 0x5C ∨ path.at_ iterator = 0
      swap
      · rw [if_neg hsep, if_neg hsep]
        exact ih _ _ _ _ s
      rw [if_pos hsep, if_pos hsep]
      by_cases hlong : iterator - start > 256
      · rw [if_pos hlong, if_pos hlong]
        rfl
      rw [if_neg hlong, if_neg hlong]
      rcases hr : directorySearch env g (fileNamePart path start (iterator - start)) fuel c s
        with ⟨(code | ⟨e, k⟩) | stop, s₁⟩
      · rw [bind_value (resolvePieces_error hr)]
        exact bind_value hr
      · -- the entry found is the last one so far
        refine (bind_value hr).trans ((ih _ _ _ (some e) s₁).trans ?_)
        rcases hrest : resolvePieces env g fuel (pieces path n (iterator + 1)
          ((iterator + 1) % 2 ^ 16)) (getClusterFromEntry g e) s₁ with ⟨(code | es) | stop, s₂⟩
        · rw [bind_value hrest, bind_value ((resolvePieces_ok hr).trans (bind_value hrest))]
          rfl
        · rw [bind_value hrest, bind_value ((resolvePieces_ok hr).trans (bind_value hrest))]
          rfl
        · rw [bind_stop hrest, bind_stop ((resolvePieces_ok hr).trans (bind_stop hrest))]
      · rw [bind_stop (resolvePieces_stop hr)]
        exact bind_stop hr

theorem walkPath_eq_resolvePieces (env : Env) (g : Globals) (fuel : Nat) (path : CString)
    (s : State) :
    walkPath env g fuel path s =
      (resolvePieces env g fuel (piecesOf path) g.rootCluster >>= fun r =>
        pure (r.map (lastFound g g.rootCluster none))) s := by
  rw [walkPath, piecesOf]
  by_cases hlen : path.1.length < 2
  · rw [if_pos hlen, if_pos hlen]
    rfl
  · rw [if_neg hlen, if_neg hlen]
    exact walkLoop_eq_resolvePieces env g fuel path _ _ _ _ _ s

theorem afterSearch_mono {rest rest' : Nat → Prog State (Except Int (List DirectoryEntry))}
    (hrest : ∀ b, Extends (rest b) (rest' b)) (r : Except Int (DirectoryEntry × Nat)) :
    Extends (afterSearch g rest r) (afterSearch g rest' r) := by
  rcases r with code | ⟨e, k⟩
  · exact .refl _
  · exact .bind (hrest _) fun _ => .refl _

theorem resolvePieces_mono (hle : fuel ≤ fuel') (ps : List (Option Mem)) (c : Nat) :
    Extends (resolvePieces env g fuel ps c) (resolvePieces env g fuel' ps c) := by
  induction ps generalizing c with
  | nil => exact .refl _
  | cons p ps ih =>
      rcases p with - | part
      · exact .refl _
      · exact .bind (directorySearch_mono hle part c) (afterSearch_mono ih)

theorem directorySearch_disk {part : Mem} {o : Outcome (Except Int (DirectoryEntry × Nat))}
    (hr : directorySearch reliable g part fuel c s = (o, s')) : s'.disk = s.disk :=
  (directorySearch_keeps readInv_disk part fuel c).run hr

theorem searchSpec_reliable (h : g.IsImage) (d : Disk) :
    SearchSpec reliable g (FoundIn g d) (fun s => s.disk = d) where
  run hkey hf := hf.run h hkey
  of_run := by
    rintro part key fuel c s e k s' rfl hkey hr
    exact ⟨.of_run h hkey (congrArg Prod.fst hr), directorySearch_disk hr⟩

section

variable {found : Name → Nat → DirectoryEntry → Prop} {Inv : State → Prop}

/-- With enough steps a trail is what the code finds. -/
theorem Trail.run (h : SearchSpec env g found Inv) (ht : Trail g found ps c es) :
    ∃ N, ∀ fuel ≥ N, ∀ s : State, Inv s →
      ∃ s', resolvePieces env g fuel ps c s = (.value (.ok es), s') ∧ Inv s' := by
  induction ht with
  | here => exact ⟨0, fun fuel _ s hs => ⟨s, rfl, hs⟩⟩
  | @step c part key ps e es hkey hf _ ih =>
      obtain ⟨N₁, k, hN₁⟩ := h.run hkey hf
      obtain ⟨N₂, hN₂⟩ := ih
      refine ⟨max N₁ N₂, fun fuel hfuel s hs => ?_⟩
      have hv := hN₁ fuel (Nat.le_trans (Nat.le_max_left _ _) hfuel) s hs
      rcases hr : directorySearch env g part fuel c s with ⟨o, s₁⟩
      rw [hr] at hv
      obtain rfl : o = .value (.ok (e, k)) := hv
      obtain ⟨s₂, hrest, hs₂⟩ := hN₂ fuel (Nat.le_trans (Nat.le_max_right _ _) hfuel) s₁
        (h.of_run hs hkey hr).2
      exact ⟨s₂, (resolvePieces_ok hr).trans (bind_value hrest), hs₂⟩

/-- What the code finds is a trail. -/
theorem Trail.of_run (h : SearchSpec env g found Inv) (hs : Inv s)
    (hrun : resolvePieces env g fuel ps c s = (.value (.ok es), s')) :
    Trail g found ps c es ∧ Inv s' := by
  induction ps generalizing c s es with
  | nil =>
      cases hrun
      exact ⟨.here, hs⟩
  | cons p ps ih =>
      rcases p with - | part
      · cases hrun
      obtain ⟨r, s₁, hr, hcont⟩ := bind_eq_value hrun
      rcases r with code | ⟨e, k⟩
      · cases hcont
      obtain ⟨r', s₂, hr', hcont'⟩ := bind_eq_value hcont
      rcases r' with code | es'
      · cases hcont'
      cases hcont'
      rcases hkey : searchName part with - | key
      · -- a search without a name finds nothing
        rcases fuel with - | fuel
        · cases hr
        · exact absurd (congrArg Prod.fst hr) ((directorySearch_noName hkey).2 _)
      · obtain ⟨hf, hs₁⟩ := h.of_run hs hkey hr
        obtain ⟨ht, hs'⟩ := ih hs₁ hr'
        exact ⟨.step hkey hf ht, hs'⟩

theorem Trail.mono {found' : Name → Nat → DirectoryEntry → Prop} (ht : Trail g found ps c es)
    (hfound : ∀ name c e, found name c e → found' name c e) : Trail g found' ps c es := by
  induction ht with
  | here => exact .here
  | step hkey hf _ ih => exact .step hkey (hfound _ _ _ hf) ih

/-- The entries that a search finds determine a trail. -/
theorem Trail.unique {es' : List DirectoryEntry} (ht : Trail g found ps c es)
    (ht' : Trail g found ps c es')
    (hfound : ∀ name c e e', found name c e → found name c e' → e = e') : es = es' := by
  induction ht generalizing es' with
  | here =>
      cases ht'
      rfl
  | step hkey hf _ ih =>
      cases ht' with
      | step hkey' hf' htail' =>
          rw [hkey] at hkey'
          cases hkey'
          cases hfound _ _ _ _ hf hf'
          rw [ih htail']

end

theorem resolvePieces_ok_iff (h : g.IsImage) :
    (∃ fuel s', resolvePieces reliable g fuel ps c s = (.value (.ok es), s'))
      ↔ Trail g (FoundIn g s.disk) ps c es := by
  constructor
  · rintro ⟨fuel, s', hrun⟩
    exact (Trail.of_run (searchSpec_reliable h s.disk) rfl hrun).1
  · intro ht
    obtain ⟨N, hN⟩ := ht.run (searchSpec_reliable h s.disk)
    obtain ⟨s', hrun, -⟩ := hN N (Nat.le_refl N) s rfl
    exact ⟨N, s', hrun⟩

/-- The directories that are searched, for a piece that is a name and for one
that is not. -/
theorem searched_cons_iff {part key : Mem} {b : Nat} {name : Name}
    (hkey : searchName part = some key) :
    Searched g d (some part :: ps) c b name ↔ (b = c ∧ name = nameOf key) ∨
      ∃ e, FoundIn g d (nameOf key) c e ∧ Searched g d ps (getClusterFromEntry g e) b name := by
  constructor
  · intro hb
    cases hb with
    | here hkey' =>
        rw [hkey] at hkey'
        cases hkey'
        exact .inl ⟨rfl, rfl⟩
    | later hkey' hf hb =>
        rw [hkey] at hkey'
        cases hkey'
        exact .inr ⟨_, hf, hb⟩
  · rintro (⟨rfl, rfl⟩ | ⟨e, hf, hb⟩)
    · exact .here hkey
    · exact .later hkey hf hb

theorem not_searched_noName {part : Mem} {b : Nat} {name : Name} (hkey : searchName part = none) :
    ¬ Searched g d (some part :: ps) c b name := by
  intro hb
  cases hb with
  | here hkey' =>
      rw [hkey] at hkey'
      cases hkey'
  | later hkey' =>
      rw [hkey] at hkey'
      cases hkey'

/-- A walk ends when its first search does and the walk from every entry that
the search may find. -/
theorem resolvePieces_cons_halts_iff (part : Mem) :
    Halts (fun fuel => resolvePieces reliable g fuel (some part :: ps) c) s ↔
      Halts (fun fuel => directorySearch reliable g part fuel c) s ∧
        ∀ N e k s', directorySearch reliable g part N c s = (.value (.ok (e, k)), s') →
          Halts (fun fuel => resolvePieces reliable g fuel ps (getClusterFromEntry g e)) s' := by
  -- putting the entry in front of the others needs no step
  have hmap : ∀ e k s', Halts (fun fuel => afterSearch g (resolvePieces reliable g fuel ps)
      (.ok (e, k))) s' ↔
        Halts (fun fuel => resolvePieces reliable g fuel ps (getClusterFromEntry g e)) s' :=
    fun e k s' => (halts_bind_iff (fun hle => resolvePieces_mono hle ps _) fun _ _ => .refl _).trans
      (and_iff_left fun _ _ _ _ => .of_total 0 (.pure _))
  refine (halts_bind_iff (fun hle => directorySearch_mono hle part c) fun r hle =>
    afterSearch_mono (fun b => resolvePieces_mono hle ps b) r).trans (and_congr_right fun _ => ?_)
  constructor
  · intro hall N e k s' hr
    exact (hmap e k s').mp (hall N _ s' hr)
  · rintro hall N (code | ⟨e, k⟩) s' hr
    · exact .of_total 0 (.pure _)
    · exact (hmap e k s').mpr (hall N e k s' hr)

/-- The walk along the pieces ends exactly when each of its searches does. -/
theorem resolvePieces_halts_iff (h : g.IsImage) :
    Halts (fun fuel => resolvePieces reliable g fuel ps c) s
      ↔ ∀ b name, Searched g s.disk ps c b name → ¬ Cycles (searchLink g s.disk name) b := by
  induction ps generalizing c s with
  | nil => exact iff_of_true (.of_total 0 (.pure _)) nofun
  | cons p ps ih =>
      rcases p with - | part
      · exact iff_of_true (.of_total 0 .undefined) nofun
      rw [resolvePieces_cons_halts_iff]
      rcases hkey : searchName part with - | key
      · -- without a name there is no search
        refine iff_of_true ⟨⟨1, (directorySearch_noName hkey).1⟩, ?_⟩
          fun b name hb => absurd hb (not_searched_noName hkey)
        rintro (- | N) e k s' hr
        · cases hr
        · exact absurd (congrArg Prod.fst hr) ((directorySearch_noName hkey).2 _)
      simp only [searched_cons_iff hkey]
      rw [directorySearch_halts_iff h hkey]
      constructor
      · rintro ⟨hfirst, hall⟩ b name (⟨rfl, rfl⟩ | ⟨e, hf, hb⟩)
        · exact hfirst
        · obtain ⟨N, k, hN⟩ := hf.run h hkey
          have hr : directorySearch reliable g part N c s = (.value (.ok (e, k)), _) :=
            Prod.ext (hN N (Nat.le_refl N) s rfl) rfl
          have hrest := ih.mp (hall N e k _ hr)
          rw [directorySearch_disk hr] at hrest
          exact hrest b name hb
      · intro hall
        refine ⟨hall c _ (.inl ⟨rfl, rfl⟩), fun N e k s' hr => ih.mpr ?_⟩
        rw [directorySearch_disk hr]
        exact fun b name hb =>
          hall b name (.inr ⟨e, .of_run h hkey (congrArg Prod.fst hr), hb⟩)

end

/-! ### Codes -/

/-- The codes of a search that finds nothing. -/
def IsErrorCode {α : Type} : Except Int α → Prop
  | .error code => code = -1 ∨ code = -2
  | .ok _ => True

section

variable (env : Env) (g : Globals)

theorem searchSlots_yields (key : Mem) (c : Nat)
    {next : Nat → Prog State (Except Int (DirectoryEntry × Nat))}
    (hnext : ∀ b, Yields IsErrorCode (next b)) (n count : Nat) :
    Yields IsErrorCode (searchSlots env g key c next n count) := by
  have hslot : ∀ count {m : Prog State (Except Int (DirectoryEntry × Nat))},
      Yields IsErrorCode m → Yields IsErrorCode (searchSlot key count m) := fun count m hm =>
    .bind fun e => .ite (.pure (.inr rfl)) (.ite hm (.pure trivial))
  induction n generalizing count with
  | zero =>
      refine hslot count (.bind fun v => ?_)
      cases v with
      | ofNat v => exact .ite (.pure (.inr rfl)) (hnext v)
      | negSucc v => exact .pure (.inl rfl)
  | succ n ih => exact hslot count (ih (count + 1))

theorem directorySearch_yields (filepart : Mem) (fuel c : Nat) :
    Yields IsErrorCode (directorySearch env g filepart fuel c) := by
  induction fuel generalizing c with
  | zero => exact .halt _
  | succ fuel ih =>
      rw [directorySearch]
      refine .ite (.pure (.inl rfl)) ?_
      split
      · exact .halt _
      · exact .bind fun r => .ite (.pure (.inl rfl)) (searchSlots_yields env g _ c ih _ 0)

theorem resolvePieces_yields (fuel : Nat) (ps : List (Option Mem)) (c : Nat) :
    Yields IsErrorCode (resolvePieces env g fuel ps c) := by
  induction ps generalizing c with
  | nil => exact .pure trivial
  | cons p ps ih =>
      rcases p with - | part
      · exact .halt _
      · refine .bind_of (directorySearch_yields env g part fuel c) fun r hr => ?_
        rcases r with code | ⟨e, k⟩
        · exact .pure hr
        · refine .bind_of (ih _) fun es hes => .pure ?_
          rcases es with code | es
          · exact hes
          · trivial

theorem walkPath_yields (fuel : Nat) (path : CString) :
    Yields IsErrorCode (walkPath env g fuel path) := by
  intro s r hr
  rw [walkPath_eq_resolvePieces] at hr
  refine Yields.bind_of (resolvePieces_yields env g fuel _ _) (fun es hes => .pure ?_) s r hr
  rcases es with code | es
  · exact hes
  · trivial

end

end PotatoOS
