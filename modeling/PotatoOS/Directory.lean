/-
PotatoOS/Directory.lean

Directories: `directorySearch` and `directoryAdd`.

A directory is a chain of clusters, each an array of 32-byte slots, and both
functions walk the slots in chain order.  Both keep the cluster they look at
in the transfer buffer and call themselves on the next cluster, so they take
a step budget: a cyclic chain never ends.

For a chain that ends, the abstract directory is the list `slots` of its
entries, and a search is a scan of that list: `directorySearch_chain` says
that on the reliable drive the search of a chain returns `searchResult` of
its slots and leaves the disk alone.  Insertion is in Insert.lean.
-/
import PotatoOS.Image
import PotatoOS.Name
import PotatoOS.Scan
import Mathlib.Data.List.GetD
import Mathlib.Data.UInt

namespace PotatoOS

open Prog

/-! ### The two functions -/

/-- Index of the last slot of a cluster, as the two functions compute it. -/
def Globals.lastSlot (g : Globals) : Nat := (g.clusterSize / 32 + (2 ^ 32 - 1)) % 2 ^ 32

/-- The entry under `file_metadata` after `count` increments. -/
def State.slotAt (s : State) (count : Nat) : DirectoryEntry :=
  DirectoryEntry.at_ s.mem (diskLocation + 32 * count)

/-- An end mark: no entry follows. -/
def IsEnd (e : DirectoryEntry) : Prop := e 0 = entryEnd

instance : DecidablePred IsEnd := fun _ => inferInstanceAs (Decidable (_ = _))

/-- What `directorySearch` does behind the last slot of a cluster; `next`
searches another cluster. -/
def searchNext (env : Env) (g : Globals) (cluster : Nat)
    (next : Nat → Prog State (Except Int (DirectoryEntry × Nat))) :
    Prog State (Except Int (DirectoryEntry × Nat)) := do
  match ← fatRead env g cluster with
  | .ofNat nextCluster =>
      if g.isEndMark nextCluster then return .error (-2)
      next nextCluster
  | .negSucc _ => return .error (-1)

/-- One round of the loop of `directorySearch`; `mismatch` follows when the
slot has another name. -/
def searchSlot (key : Mem) (count : Nat)
    (mismatch : Prog State (Except Int (DirectoryEntry × Nat))) :
    Prog State (Except Int (DirectoryEntry × Nat)) := do
  let fileMetadata ← gets fun s => s.slotAt count
  if IsEnd fileMetadata then return .error (-2)
  if strncmp fileMetadata.bytes key 11 ≠ 0 then mismatch
  else return .ok (fileMetadata, count)

/-- The loop of `directorySearch`; `n` slots follow the one at `count`. -/
def searchSlots (env : Env) (g : Globals) (key : Mem) (cluster : Nat)
    (next : Nat → Prog State (Except Int (DirectoryEntry × Nat))) :
    Nat → Nat → Prog State (Except Int (DirectoryEntry × Nat))
  | 0, count => searchSlot key count (searchNext env g cluster next)
  | n + 1, count => searchSlot key count (searchSlots env g key cluster next n (count + 1))

/-- `directorySearch`: the entry and its slot, or the negative code. -/
def directorySearch (env : Env) (g : Globals) (filepart : Mem) :
    Nat → Nat → Prog State (Except Int (DirectoryEntry × Nat))
  | 0, _ => halt .exhausted
  | fuel + 1, cluster =>
      if cluster < 2 ∨ cluster ≥ g.totalClusters then pure (.error (-1))
      else
        match searchName filepart with
        | none => halt .undefined
        | some key => do
            if (← clusterRead env g cluster 0) ≠ 0 then return .error (-1)
            searchSlots env g key cluster (directorySearch env g filepart fuel) g.lastSlot 0

/-- Is a slot free to be taken? -/
def Vacant (e : DirectoryEntry) : Prop := e 0 = entryFree ∨ e 0 = entryEnd

instance (e : DirectoryEntry) : Decidable (Vacant e) := inferInstanceAs (Decidable (_ ∨ _))

section

variable {σ : Type} [Driver σ]

/-- How `directoryAdd` extends a directory without a vacant slot. -/
def addGrow (env : Env) (g : Globals) (fileToAdd : DirectoryEntry) (cluster : Nat)
    (next : Nat → Prog σ (Int × DirectoryEntry)) : Prog σ (Int × DirectoryEntry) := do
  let nextCluster ← allocateFreeFAT env g
  if g.isBadMark nextCluster then return (-1, fileToAdd)
  if (← Driver.write (fatWrite env g cluster nextCluster)) ≠ 0 then return (-1, fileToAdd)
  next nextCluster

/-- What `directoryAdd` does behind the last slot of a full cluster. -/
def addNext (env : Env) (g : Globals) (fileToAdd : DirectoryEntry) (cluster : Nat)
    (next : Nat → Prog σ (Int × DirectoryEntry)) : Prog σ (Int × DirectoryEntry) := do
  let nextCluster := toUnsigned (← Driver.follow (fatRead env g cluster))
  if g.isEndMark nextCluster then addGrow env g fileToAdd cluster next
  else next nextCluster

/-- What `directoryAdd` does at the slot it takes.  The entry is the caller's
struct and comes back with the fields that were filled in. -/
def storeEntry (env : Env) (g : Globals) (fileToAdd : DirectoryEntry) (cluster count : Nat) :
    Prog σ (Int × DirectoryEntry) := do
  if ∃ j, fileToAdd.fileName j = 0x2E then return (-1, fileToAdd)
  let fileToAdd := stampEntry fileToAdd
  let newCluster ← allocateFreeFAT env g
  if g.isBadMark newCluster then return (-1, fileToAdd)
  let fileToAdd := placeEntry g fileToAdd newCluster
  -- the transfer buffer holds the table sector that the allocator has written by now
  Driver.run (modify fun s =>
    { s with mem := memcpy s.mem (diskLocation + 32 * count) fileToAdd.bytes 32 })
  let mem ← Driver.run (gets State.mem)
  let result ← Driver.write
    (clusterWrite env g (fun i => mem (diskLocation + i)) g.clusterSize 0 cluster)
  if result ≠ 0 then return (-1, fileToAdd)
  return (0, fileToAdd)

/-- One round of the loop of `directoryAdd`; `taken` follows when the slot is
in use. -/
def addSlot (env : Env) (g : Globals) (fileToAdd : DirectoryEntry) (cluster count : Nat)
    (taken : Prog σ (Int × DirectoryEntry)) : Prog σ (Int × DirectoryEntry) := do
  let fileMetadata ← Driver.run (gets fun s => s.slotAt count)
  if ¬ Vacant fileMetadata then taken
  else storeEntry env g fileToAdd cluster count

/-- The loop of `directoryAdd`; `n` slots follow the one at `count`. -/
def addSlots (env : Env) (g : Globals) (fileToAdd : DirectoryEntry) (cluster : Nat)
    (next : Nat → Prog σ (Int × DirectoryEntry)) :
    Nat → Nat → Prog σ (Int × DirectoryEntry)
  | 0, count => addSlot env g fileToAdd cluster count (addNext env g fileToAdd cluster next)
  | n + 1, count => addSlot env g fileToAdd cluster count
      (addSlots env g fileToAdd cluster next n (count + 1))

/-- `directoryAdd`: the code and the entry as the caller finds it afterwards. -/
def directoryAdd (env : Env) (g : Globals) (fileToAdd : DirectoryEntry) :
    Nat → Nat → Prog σ (Int × DirectoryEntry)
  | 0, _ => halt .exhausted
  | fuel + 1, cluster => do
      if testIfFATFormat fileToAdd.bytes ≠ 0 then return (-1, fileToAdd)
      if (← Driver.run (clusterRead env g cluster 0)) ≠ 0 then return (-1, fileToAdd)
      addSlots env g fileToAdd cluster (directoryAdd env g fileToAdd fuel) g.lastSlot 0

end

/-! ### Slots -/

/-- Slot `k` of a cluster on disk. -/
def slot (g : Globals) (d : Disk) (c k : Nat) : DirectoryEntry :=
  DirectoryEntry.at_ (data g d c) (32 * k)

/-- The slots of one cluster. -/
def clusterSlots (g : Globals) (d : Disk) (c : Nat) : List DirectoryEntry :=
  (List.range 16).map (slot g d c)

/-- The slots of a directory, in chain order. -/
def slots (g : Globals) (d : Disk) (l : List Nat) : List DirectoryEntry :=
  l.flatMap (clusterSlots g d)

/-- The entry has this name. -/
def HasName (name : Name) (e : DirectoryEntry) : Prop := e.fileName = name

instance (name : Name) : DecidablePred (HasName name) := fun _ =>
  inferInstanceAs (Decidable (_ = _))

/-- The name that 11 bytes of memory hold. -/
def nameOf (m : Mem) : Name := fun j => m j

/-- Look a name up in a directory. -/
def lookup (name : Name) (l : List DirectoryEntry) : Scan := scan IsEnd (HasName name) l

/-- What a search returns: the entry and its slot within its cluster. -/
def searchResult (name : Name) (l : List DirectoryEntry) : Except Int (DirectoryEntry × Nat) :=
  match lookup name l with
  | .hit i => .ok (l.getD i 0, i % 16)
  | .stop => .error (-2)
  | .pass => .error (-2)

section

variable {g : Globals} {d d' : Disk} {c k : Nat} {l l' : List Nat}

@[simp] theorem clusterSlots_length (g : Globals) (d : Disk) (c : Nat) :
    (clusterSlots g d c).length = 16 := by simp [clusterSlots]

@[simp] theorem slots_nil (g : Globals) (d : Disk) : slots g d [] = [] := rfl

@[simp] theorem slots_cons (g : Globals) (d : Disk) (c : Nat) (l : List Nat) :
    slots g d (c :: l) = clusterSlots g d c ++ slots g d l := rfl

theorem slots_append (g : Globals) (d : Disk) (l l' : List Nat) :
    slots g d (l ++ l') = slots g d l ++ slots g d l' := List.flatMap_append

theorem slots_length (g : Globals) (d : Disk) (l : List Nat) :
    (slots g d l).length = 16 * l.length := by
  induction l with
  | nil => rfl
  | cons c l ih => rw [slots_cons, List.length_append, clusterSlots_length, ih,
      List.length_cons]; omega

theorem slot_congr (h : ∀ i < 512, data g d' c i = data g d c i) (hk : k < 16) :
    slot g d' c k = slot g d c k := by
  funext j
  have := j.isLt
  exact h _ (by omega)

theorem clusterSlots_congr (h : ∀ i < 512, data g d' c i = data g d c i) :
    clusterSlots g d' c = clusterSlots g d c :=
  List.map_congr_left fun _ hk => slot_congr h (List.mem_range.mp hk)

/-- Only the sectors of the directory's own clusters matter. -/
theorem slots_congr (h : ∀ c ∈ l, data g d' c = data g d c) : slots g d' l = slots g d l := by
  induction l with
  | nil => rfl
  | cons c l ih =>
      have hc : clusterSlots g d' c = clusterSlots g d c :=
        clusterSlots_congr fun i _ => by rw [h c List.mem_cons_self]
      rw [slots_cons, slots_cons, hc, ih fun a ha => h a (List.mem_cons_of_mem _ ha)]

end

/-! ### Searching a chain -/

section

variable {g : Globals} {c n count off fuel : Nat} {s : State} {key filepart : Mem} {l : List Nat}

theorem Globals.OneSector.lastSlot_eq (h : g.OneSector) : g.lastSlot = 15 := by
  rw [Globals.lastSlot, h.clusterSize_eq_512]
  rfl

/-- The buffer holds the slots of a cluster. -/
def Holds (g : Globals) (s : State) (c : Nat) : Prop :=
  ∀ k < 16, s.slotAt k = slot g s.disk c k

theorem holds_loadData (s : State) (g : Globals) (c : Nat) : Holds g (s.loadData g c 0) c := by
  intro k hk
  funext j
  have := j.isLt
  show memcpy s.mem diskLocation (data g s.disk c) 512 (diskLocation + 32 * k + j) = _
  rw [Nat.add_assoc, memcpy_apply_add (by omega)]
  rfl

theorem strncmp_fileName (hkey : ∀ i < 11, key i ≠ 0) (e : DirectoryEntry) :
    strncmp e.bytes key 11 = 0 ↔ HasName (nameOf key) e := by
  rw [strncmp_eq_zero_iff hkey, HasName, funext_iff]
  constructor
  · intro h j
    have := h j j.isLt
    rwa [DirectoryEntry.bytes_of_lt e (by omega)] at this
  · intro h i hi
    rw [DirectoryEntry.bytes_of_lt e (by omega)]
    exact h ⟨i, hi⟩

theorem searchSlot_run (hkey : ∀ i < 11, key i ≠ 0)
    (mismatch : Prog State (Except Int (DirectoryEntry × Nat))) :
    searchSlot key count mismatch s =
      if IsEnd (s.slotAt count) then (.value (.error (-2)), s)
      else if HasName (nameOf key) (s.slotAt count) then
        (.value (.ok (s.slotAt count, count)), s)
      else mismatch s := by
  have hcmp := strncmp_fileName hkey (s.slotAt count)
  rw [searchSlot, gets_bind]
  by_cases he : IsEnd (s.slotAt count)
  · rw [if_pos he, if_pos he]
    rfl
  · rw [if_neg he, if_neg he]
    by_cases hn : HasName (nameOf key) (s.slotAt count)
    · rw [if_neg (not_not.mpr (hcmp.mpr hn)), if_pos hn]
      rfl
    · rw [if_pos fun h => hn (hcmp.mp h), if_neg hn]

/-- The loop scans the rest of the cluster and goes on only when it finds
neither the name nor an end mark. -/
theorem searchSlots_run (env : Env) (f : Nat → DirectoryEntry)
    (hs : ∀ k ≤ count + n, s.slotAt k = f k) (hkey : ∀ i < 11, key i ≠ 0)
    (next : Nat → Prog State (Except Int (DirectoryEntry × Nat))) :
    searchSlots env g key c next n count s =
      match lookup (nameOf key) ((List.range' count (n + 1)).map f) with
      | .hit i => (.value (.ok (f (count + i), count + i)), s)
      | .stop => (.value (.error (-2)), s)
      | .pass => searchNext env g c next s := by
  induction n generalizing count with
  | zero =>
      rw [searchSlots, searchSlot_run hkey, hs count (by omega), lookup, List.range'_succ,
        List.map_cons, scan]
      split
      · rfl
      · split <;> rfl
  | succ n ih =>
      rw [searchSlots, searchSlot_run hkey, hs count (by omega),
        ih fun k hk => hs k (by omega), lookup, lookup, List.range'_succ (n := n + 1),
        List.map_cons, scan]
      split
      · rfl
      · split
        · rfl
        · -- neither name nor end mark: the position moves by one
          rcases scan IsEnd (HasName (nameOf key))
            ((List.range' (count + 1) (n + 1)).map f) with i | - | -
          · simp only [Scan.shift, Nat.add_assoc]
          · rfl
          · rfl

/-- Behind the last slot the search goes on where the table leads. -/
theorem searchNext_run {env : Env} (h : g.IsFat32)
    (hread : fatRead env g c s = (.value (fatValue g s.disk c : Nat), s.loadFat g 4 c))
    (next : Nat → Prog State (Except Int (DirectoryEntry × Nat))) :
    searchNext env g c next s =
      match nextCluster g s.disk c with
      | none => (.value (.error (-2)), s.loadFat g 4 c)
      | some n => next n (s.loadFat g 4 c) := by
  rw [searchNext, bind_value hread]
  show (if g.isEndMark (fatValue g s.disk c) then pure (.error (-2))
    else next (fatValue g s.disk c) : Prog State _) (s.loadFat g 4 c) = _
  rw [nextCluster]
  by_cases he : endCluster32 ≤ fatValue g s.disk c
  · rw [if_pos ((h.isEndMark_iff _).mpr he), if_pos he]
    rfl
  · rw [if_neg fun hm => he ((h.isEndMark_iff _).mp hm), if_neg he]

/-- One cluster of a search: a result, or the search of the next cluster. -/
theorem directorySearch_step (h : g.OneSector) (hkey : searchName filepart = some key)
    (hc : g.InRange c) (hp : g.OnPartition c) :
    directorySearch reliable g filepart (fuel + 1) c s =
      match lookup (nameOf key) (clusterSlots g s.disk c) with
      | .hit i => (.value (.ok (slot g s.disk c i, i)), s.loadData g c 0)
      | .stop => (.value (.error (-2)), s.loadData g c 0)
      | .pass =>
          match nextCluster g s.disk c with
          | none => (.value (.error (-2)), (s.loadData g c 0).loadFat g 4 c)
          | some n => directorySearch reliable g filepart fuel n
              ((s.loadData g c 0).loadFat g 4 c) := by
  rw [directorySearch, if_neg (not_outOfRange hc)]
  simp only [hkey]
  rw [bind_value (clusterRead_eq h hc hp)]
  simp only [ne_eq, not_true_eq_false, if_false]
  rw [h.lastSlot_eq, searchSlots_run reliable (slot g s.disk c)
    (fun k hk => holds_loadData s g c k (by omega)) (fun i hi => searchName_ne_zero hkey hi),
    clusterSlots, List.range_eq_range']
  rcases lookup (nameOf key) ((List.range' 0 16).map (slot g s.disk c)) with i | - | -
  · simp only [Nat.zero_add]
  · rfl
  · exact searchNext_run h.toIsFat32 (fatRead_fat32 h.toIsFat32 hc (h.entOffset_lt c)) _

/-- The search of a directory, from its first 16 slots on. -/
theorem searchResult_append {name : Name} {L : List DirectoryEntry} (hL : L.length = 16)
    (R : List DirectoryEntry) :
    searchResult name (L ++ R) =
      match lookup name L with
      | .hit i => .ok (L.getD i 0, i)
      | .stop => .error (-2)
      | .pass => searchResult name R := by
  have happ : lookup name (L ++ R) = (lookup name L).andThen 16 (lookup name R) := by
    rw [lookup, scan_append, hL]
    rfl
  rw [searchResult, happ]
  rcases hf : lookup name L with i | - | -
  · have hi : i < 16 := hL ▸ (scan_hit_get hf).1
    simp only [Scan.andThen]
    rw [List.getD_append _ _ _ _ (by omega), Nat.mod_eq_of_lt hi]
  · rfl
  · simp only [Scan.andThen]
    rw [searchResult]
    rcases lookup name R with j | - | -
    · simp only [Scan.shift]
      rw [List.getD_append_right _ _ _ _ (by omega), hL, Nat.add_sub_cancel_left,
        Nat.add_mod_left]
    · rfl
    · rfl

theorem searchResult_cons {d : Disk} {name : Name} :
    searchResult name (slots g d (c :: l)) =
      match lookup name (clusterSlots g d c) with
      | .hit i => .ok (slot g d c i, i)
      | .stop => .error (-2)
      | .pass => searchResult name (slots g d l) := by
  rw [slots_cons, searchResult_append (clusterSlots_length g d c)]
  rcases hf : lookup name (clusterSlots g d c) with i | - | -
  · have hi : i < 16 := by simpa using (scan_hit_get hf).1
    simp only [clusterSlots]
    rw [List.getD_eq_getElem _ _ (by simpa using hi)]
    simp
  · rfl
  · rfl

/-- Searching a chain that ends, on the partition, gives the search of its slots. -/
theorem directorySearch_chain (h : g.OneSector) (hkey : searchName filepart = some key)
    (hch : IsChain g s.disk c l) (hpart : ∀ a ∈ l, g.OnPartition a) (hfuel : l.length ≤ fuel) :
    ∃ s', directorySearch reliable g filepart fuel c s
        = (.value (searchResult (nameOf key) (slots g s.disk l)), s') ∧
      s'.disk = s.disk := by
  obtain ⟨hch, hin⟩ := hch
  generalize hd : s.disk = d at hch ⊢
  -- one cluster of the chain is one step
  induction hch generalizing fuel s with
  | @last c hn =>
      obtain ⟨fuel, rfl⟩ : ∃ m, fuel = m + 1 := Nat.exists_eq_add_of_le' hfuel
      rw [directorySearch_step h hkey (hin c List.mem_cons_self) (hpart c List.mem_cons_self),
        searchResult_cons, hd, hn]
      rcases lookup (nameOf key) (clusterSlots g d c) with i | - | -
      · exact ⟨_, rfl, hd⟩
      · exact ⟨_, rfl, hd⟩
      · exact ⟨_, rfl, hd⟩
  | @cons c b l hn _ ih =>
      obtain ⟨fuel, rfl⟩ : ∃ m, fuel = m + 1 :=
        Nat.exists_eq_add_of_le' (Nat.le_trans (Nat.le_add_left 1 _) hfuel)
      rw [directorySearch_step h hkey (hin c List.mem_cons_self) (hpart c List.mem_cons_self),
        searchResult_cons, hd, hn]
      rcases lookup (nameOf key) (clusterSlots g d c) with i | - | -
      · exact ⟨_, rfl, hd⟩
      · exact ⟨_, rfl, hd⟩
      · rw [List.length_cons] at hfuel
        exact ih (fun a ha => hpart a (List.mem_cons_of_mem _ ha)) (by omega)
          (fun a ha => hin a (List.mem_cons_of_mem _ ha)) hd

end

end PotatoOS
