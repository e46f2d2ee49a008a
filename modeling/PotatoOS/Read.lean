/-
PotatoOS/Read.lean

Reading a file: what `getFile` puts into memory.

The loop of `getFile` reads cluster after cluster to the transfer buffer and
looks up the next cluster in between.  A lookup uses the first sector of the
buffer, a data read the sectors behind it, so what has been read stays
(`readLoop_chain`).  Main result: `getFile_eq_chain`, a file whose chain ends,
lies on the partition and fits the buffer is read completely, in chain order.
The loop does not look at what `clusterRead` returns, so behind the end of the
partition it reads nothing and reports success: `not_getFile_beyondState`.
-/
import PotatoOS.File
import PotatoOS.Frame

namespace PotatoOS

open Prog

/-- The path leads to the entry. -/
def Resolves (g : Globals) (s : State) (path : CString) (e : DirectoryEntry) : Prop :=
  ∃ fuel c s', walkPath reliable g fuel path s = (.value (.ok (c, some e)), s')

section

variable {g : Globals} {s : State} {path : CString} {e e' : DirectoryEntry}

/-- Once the path leads to the entry it does so with any larger budget. -/
theorem Resolves.eventually (h : Resolves g s path e) :
    ∃ N, ∀ fuel ≥ N, ∃ c s', walkPath reliable g fuel path s = (.value (.ok (c, some e)), s') := by
  obtain ⟨N, c, s', hN⟩ := h
  exact ⟨N, fun fuel hfuel => ⟨c, s', (walkPath_mono hfuel path).value hN⟩⟩

theorem Resolves.unique (h : Resolves g s path e) (h' : Resolves g s path e') : e = e' := by
  obtain ⟨N, hN⟩ := h.eventually
  obtain ⟨N', hN'⟩ := h'.eventually
  obtain ⟨c, s₁, h₁⟩ := hN (max N N') (Nat.le_max_left _ _)
  obtain ⟨c', s₂, h₂⟩ := hN' (max N N') (Nat.le_max_right _ _)
  rw [h₁] at h₂
  cases h₂
  rfl

end

/-! ### More steps -/

section

variable {env : Env} {g : Globals} {fuel fuel' : Nat}

theorem readLoop_mono (hle : fuel ≤ fuel') (off : Nat) (c : Int) (count : Nat) :
    Extends (readLoop env g off fuel c count) (readLoop env g off fuel' c count) := by
  refine .budget (F := fun fuel i => readLoop env g off fuel i.1 i.2) (fun _ => rfl)
    (fun ih i => ?_) hle (c, count)
  rw [readLoop, readLoop]
  exact .ite (.bind (.refl _) fun _ => .bind (.refl _) fun next => .ite (.refl _)
    (.ite (.refl _) (ih (next, _)))) (.refl _)

theorem getFile_mono (hle : fuel ≤ fuel') (path : CString) (off : Nat) :
    Extends (getFile env g fuel path off) (getFile env g fuel' path off) := by
  rw [getFile, getFile]
  refine .ite (.refl _) (.bind (walkPath_mono hle path) fun r => ?_)
  rcases r with code | ⟨c, - | e⟩
  · exact .refl _
  · exact .refl _
  · exact .ite (.refl _) (.ite (.refl _) (.bind (readLoop_mono hle off _ 0) fun _ => .refl _))

end

/-! ### A chain that ends -/

section

variable {g : Globals} {s : State} {c off count fuel : Nat} {l : List Nat}

/-- The state after one round of the loop: the data behind what was read
before, the table sector at the start of the buffer. -/
def State.readRound (s : State) (g : Globals) (c pos : Nat) : State :=
  (s.loadData g c pos).loadFat g 4 c

theorem readRound_mem {pos a : Nat} (hpos : pos ≤ 512) (ha : diskLocation + 512 ≤ a) :
    (s.readRound g c pos).mem a
      = memcpy s.mem (diskLocation + pos * 512) (data g s.disk c) 512 a := by
  have hb : (diskLocation + pos * 512 % 2 ^ 32) % 2 ^ 32 = diskLocation + pos * 512 := by
    rw [diskLocation]
    omega
  show memcpy (s.loadData g c pos).mem diskLocation _ 512 a = _
  rw [memcpy_apply_of_notMem (.inr ha), State.loadData, hb]
  rfl

/-- The sector just read. -/
theorem readRound_bytesAt {pos : Nat} (hpos₁ : 1 ≤ pos) (hpos : pos ≤ 512) :
    bytesAt (s.readRound g c pos).mem (diskLocation + pos * 512) 512
      = bytesAt (data g s.disk c) 0 512 := by
  refine bytesAt_congr fun i hi => ?_
  rw [readRound_mem hpos (by omega), memcpy_apply_add hi, Nat.zero_add]

/-- The bytes in front of it. -/
theorem readRound_front {pos a : Nat} (hpos : pos ≤ 512) (h₁ : diskLocation + 512 ≤ a)
    (h₂ : a < diskLocation + pos * 512) : (s.readRound g c pos).mem a = s.mem a := by
  rw [readRound_mem hpos h₁, memcpy_apply_of_notMem (.inl h₂)]

/-- One round of the loop on the reliable drive. -/
theorem readLoop_step (h : g.OneSector) (hc : g.InRange c) (hp : g.OnPartition c)
    (hbad : fatValue g s.disk c ≠ badCluster32) :
    readLoop reliable g off (fuel + 1) (c : Nat) count s =
      readLoop reliable g off fuel (fatValue g s.disk c : Nat) (count + 1)
        (s.readRound g c ((count + off) % 2 ^ 32)) := by
  have hlt := h.lt_of_inRange hc
  rw [badCluster32] at hlt
  have hu : toUnsigned (c : Nat) = c := toUnsigned_natCast (by omega)
  rw [readLoop, if_pos (by rw [endCluster32]; omega), hu, bind_value (clusterRead_eq h hc hp),
    bind_value (fatRead_eq h hc)]
  have h₁ : ¬ ((fatValue g s.disk c : Nat) : Int) = badCluster32 := by omega
  have h₂ : ¬ ((fatValue g s.disk c : Nat) : Int) = -1 := by omega
  show (if ((fatValue g s.disk c : Nat) : Int) = badCluster32 then _ else
    if ((fatValue g s.disk c : Nat) : Int) = -1 then _ else _ : Prog State Int) _ = _
  rw [if_neg h₁, if_neg h₂]
  rfl

/-- The loop reads a chain to the end, in its order, and leaves what it has
read before. -/
theorem readLoop_chain (count : Nat) (h : g.OneSector) (hoff : 1 ≤ off)
    (hch : IsChain g s.disk c l) (hpart : ∀ a ∈ l, g.OnPartition a)
    (hfit : count + off + l.length ≤ 512) (hfuel : l.length < fuel) :
    ∃ s', readLoop reliable g off fuel (c : Nat) count s = (.value 0, s') ∧
      bytesAt s'.mem (diskLocation + (count + off) * 512) (l.length * 512)
        = l.flatMap (fun a => bytesAt (data g s.disk a) 0 512) ∧
      ∀ a, diskLocation + 512 ≤ a → a < diskLocation + (count + off) * 512 →
        s'.mem a = s.mem a := by
  -- by induction on the chain; the frame on what was read before carries the earlier sectors
  induction l generalizing c count s fuel with
  | nil => exact absurd rfl hch.chain.ne_nil
  | cons b l ih =>
      obtain rfl := hch.head_eq
      obtain ⟨hpb, hptail⟩ := List.forall_mem_cons.mp hpart
      obtain ⟨fuel, rfl⟩ : ∃ m, fuel = m + 1 := Nat.exists_eq_add_of_le' (by omega)
      rw [List.length_cons] at hfit hfuel
      have hpos : (count + off) % 2 ^ 32 = count + off := Nat.mod_eq_of_lt (by omega)
      have hpos₁ : 1 ≤ count + off := by omega
      have hpos₂ : count + off ≤ 512 := by omega
      have hnew := readRound_bytesAt (g := g) (s := s) (c := b) hpos₁ hpos₂
      have hold := fun a => readRound_front (g := g) (s := s) (c := b) (a := a) hpos₂
      -- the last sector ends the loop, another one leaves the rest to the hypothesis
      rcases l with - | ⟨b', l⟩
      · obtain ⟨fuel, rfl⟩ : ∃ m, fuel = m + 1 := Nat.exists_eq_add_of_le' (by omega)
        have hend := nextCluster_eq_none_iff.mp hch.next_singleton
        refine ⟨_, ?_, ?_, hold⟩
        · rw [readLoop_step h hch.head_inRange hpb (Nat.ne_of_gt (Nat.lt_of_succ_le hend)), hpos,
            readLoop, if_neg (by omega)]
          rfl
        · rw [List.flatMap_singleton, List.length_singleton, Nat.one_mul]
          exact hnew
      · obtain ⟨hn, htail⟩ := hch.tail
        obtain ⟨-, hv⟩ := nextCluster_eq_some_iff.mp hn
        have hlt := h.lt_of_inRange htail.head_inRange
        rw [List.length_cons] at hfit hfuel
        have hpos' : (count + 1 + off) * 512 = (count + off) * 512 + 512 := by omega
        obtain ⟨s', hrun, hrest, hkept⟩ := @ih (s.readRound g b (count + off)) b' fuel
          (count + 1) htail hptail (by rw [List.length_cons]; omega)
          (by rw [List.length_cons]; omega)
        rw [hpos', ← Nat.add_assoc] at hrest hkept
        refine ⟨s', ?_, ?_, fun a h₁ h₂ => ?_⟩
        · rw [readLoop_step h hch.head_inRange hpb (hv ▸ hlt.ne), hpos, hv]
          exact hrun
        · rw [List.length_cons (a := b), Nat.succ_mul, Nat.add_comm (_ * 512) 512, bytesAt_add,
            List.flatMap_cons]
          -- the rounds behind this one leave its sector where it is
          refine congrArg₂ (· ++ ·) ?_ ?_
          · refine (bytesAt_congr fun i hi => ?_).trans hnew
            exact hkept _ (by omega) (Nat.add_lt_add_left hi _)
          · exact hrest
        · rw [hkept a h₁ (Nat.lt_add_right _ h₂), hold a h₁ h₂]

/-- A file whose chain ends, on the partition, and fits the buffer is read to the
given sector of the buffer. -/
theorem getFile_chain {path : CString} {e : DirectoryEntry} (h : g.OneSector)
    (he : Resolves g s path e) (hfile : ¬ e.isDirectory)
    (hch : IsChain g s.disk (getClusterFromEntry g e) l) (hpart : ∀ a ∈ l, g.OnPartition a)
    (hoff : 1 ≤ off) (hfit : (off + l.length) * 512 ≤ 262144)
    (hsize : off * 512 + e.fileSize ≤ 262144) :
    ∃ N, ∀ fuel ≥ N, ∃ s', getFile reliable g fuel path off s
        = (.value ⟨0, some e, some (diskLocation + off * 512)⟩, s') ∧
      bytesAt s'.mem (diskLocation + off * 512) (l.length * 512)
        = l.flatMap fun c => bytesAt (data g s.disk c) 0 512 := by
  obtain ⟨N, hN⟩ := he.eventually
  refine ⟨max N (l.length + 1), fun fuel hfuel => ?_⟩
  obtain ⟨c, s₁, hwalk⟩ := hN fuel (Nat.le_trans (Nat.le_max_left _ _) hfuel)
  have hd : s₁.disk = s.disk := (walkPath_keeps readInv_disk fuel path).run hwalk
  have hsect : off + l.length ≤ 512 :=
    Nat.le_of_mul_le_mul_right (Nat.le_trans hfit (by decide)) (by decide)
  have hlt := h.lt_of_inRange hch.head_inRange
  rw [badCluster32] at hlt
  rw [← hd] at hch
  obtain ⟨s', hloop, hbytes, -⟩ := readLoop_chain 0 h hoff hch hpart
    (by rwa [Nat.zero_add]) (Nat.le_trans (Nat.le_max_right _ _) hfuel)
  rw [Nat.zero_add, hd] at hbytes
  refine ⟨s', ?_, hbytes⟩
  -- the file passes the size check
  have hcheck : ¬ (off < 1 ∨ (off * 512 * 1 + e.fileSize) % 2 ^ 32 > 262144) := by omega
  have hp : (diskLocation + 1 * 512 * off) % 2 ^ 32 = diskLocation + off * 512 := by
    rw [diskLocation]
    omega
  rw [getFile, if_neg (by rw [h.fatType]; decide), bind_value hwalk]
  show (if e.isDirectory then _ else
    if off < 1 ∨ (off * g.bytesPerSector * g.sectorsPerCluster + e.fileSize) % 2 ^ 32 > 262144
    then _ else _ : Prog State FileResult) s₁ = _
  rw [if_neg hfile, h.bytesPerSector, h.one, if_neg hcheck, toSigned, if_pos (by omega),
    bind_value hloop, hp]
  rfl

/-- The bytes at the returned address are the clusters of the chain, in order. -/
theorem getFile_eq_chain {path : CString} {e : DirectoryEntry} (h : g.OneSector)
    (he : Resolves g s path e) (hfile : ¬ e.isDirectory)
    (hch : IsChain g s.disk (getClusterFromEntry g e) l) (hpart : ∀ a ∈ l, g.OnPartition a)
    (hoff : 1 ≤ off) (hfit : (off + l.length) * 512 ≤ 262144)
    (hsize : off * 512 + e.fileSize ≤ 262144) :
    ∃ N, ∀ fuel ≥ N, ∃ p s',
      getFile reliable g fuel path off s = (.value ⟨0, some e, some p⟩, s') ∧
      bytesAt s'.mem p (l.length * 512)
        = l.flatMap fun c => bytesAt (data g s.disk c) 0 512 := by
  obtain ⟨N, hN⟩ := getFile_chain h he hfile hch hpart hoff hfit hsize
  exact ⟨N, fun fuel hfuel => ⟨_, hN fuel hfuel⟩⟩

end

/-! ### A file of the small volume -/

/-- Directories that end lead to the entry. -/
theorem Leads.resolves {g : Globals} {s : State} {path : CString} {c : Nat} {e : DirectoryEntry}
    (h : g.OneSector) (h₃ : 3 ≤ path.1.length) (hlen : path.1.length < 2 ^ 16 - 1)
    (hl : Leads g s.disk g.rootCluster none (components path) c (some e)) :
    Resolves g s path e := by
  obtain ⟨N, hN⟩ := walkComponents_leads h hl
  obtain ⟨s', hrun, -⟩ := hN N (Nat.le_refl N) s rfl
  exact ⟨N, c, s', by rw [walkPath_eq h₃ hlen, hrun]⟩

/-- "C:\AAAAAAAAAAA" -/
def filePath : CString := ⟨[0x43, 0x3A, 0x5C] ++ List.replicate 11 0x41, by decide⟩

/-- The entry of a file with this name, without contents, in cluster 3. -/
def fileEntry : DirectoryEntry := (letterEntry 0x41).setField 26 2 3

/-- Eleven times the same letter is the name that it spells. -/
theorem searchName_letters {b : UInt8}
    (hlegal : ∀ i < 11, LegalByte (textOf (List.replicate 11 b) i))
    (hlen : strnlen (textOf (List.replicate 11 b)) 13 = some 11) :
    ∃ key, searchName (textOf (List.replicate 11 b)) = some key ∧ nameOf key = fun _ => b := by
  obtain ⟨key, hkey, hk⟩ := searchName_of_legal hlegal hlen
  refine ⟨key, hkey, ?_⟩
  funext j
  show key j = b
  rw [hk j j.isLt, textOf, List.getD_replicate _ j.isLt]

/-- A root directory of one cluster is searched from its first slot on. -/
theorem resolves_filePath {g : Globals} {s : State} {r : Nat} {e : DirectoryEntry}
    (h : g.OneSector) (hch : IsChain g s.disk g.rootCluster [r]) (hpart : g.OnPartition r)
    (hslot : slot g s.disk r 0 = e) (hname : e.fileName = fun _ => 0x41) :
    Resolves g s filePath e := by
  obtain ⟨key, hkey, hk⟩ := searchName_letters (b := 0x41) (by decide) (by decide)
  have hhit : HasName (nameOf key) e := hname.trans hk.symm
  have hend : ¬ IsEnd e := by
    intro hend
    have h₀ : e.fileName 0 = entryEnd := hend
    rw [hname] at h₀
    exact absurd h₀ (by decide)
  refine Leads.resolves h (by decide) (by decide)
    (Leads.step (k := 0) (by decide) hkey hch ?_ ?_ .here)
  · exact List.forall_mem_singleton.mpr hpart
  · have hslots : slots g s.disk [r] = e :: (clusterSlots g s.disk r).drop 1 := by
      rw [slots, List.flatMap_singleton, ← hslot]
      rfl
    rw [searchResult, hslots, lookup, scan, if_neg hend, if_pos hhit]
    rfl

theorem resolves_fileEntry {s : State} (hnext : nextCluster smallVolume s.disk 2 = none)
    (hslot : slot smallVolume s.disk 2 0 = fileEntry) :
    Resolves smallVolume s filePath fileEntry :=
  resolves_filePath smallVolume_isVolume.toOneSector (smallState_isChain hnext) (by decide) hslot
    (by decide)

/-- The one file of the volume is its cluster 3. -/
theorem getFile_oneFileState :
    ∃ N, ∀ fuel ≥ N, ∃ p s',
      getFile reliable smallVolume fuel filePath 1 oneFileState
        = (.value ⟨0, some fileEntry, some p⟩, s') ∧
      bytesAt s'.mem p 512 = bytesAt (data smallVolume oneFileState.disk 3) 0 512 := by
  have hch : IsChain smallVolume oneFileState.disk (getClusterFromEntry smallVolume fileEntry)
      [3] := ⟨.last (by decide), by decide⟩
  have := getFile_eq_chain smallVolume_isVolume.toOneSector
    (resolves_fileEntry (s := oneFileState) (by decide) (by decide)) (by decide) hch (by decide)
    (show 1 ≤ 1 by decide) (by decide) (by decide)
  rwa [List.flatMap_singleton] at this

/-! ### A file behind the end of the partition -/

/-- The address that a run returns. -/
def returnPointer : Outcome FileResult → Option Nat
  | .value r => r.fileContents
  | .stop _ => none

/-- One run that returns determines what the longer ones return. -/
theorem getFile_value {g : Globals} {s s' : State} {path : CString} {off fuel fuel' p : Nat}
    {r : FileResult} (hle : fuel ≤ fuel')
    (hp : returnPointer (getFile reliable g fuel path off s).1 = some p)
    (hrun : getFile reliable g fuel' path off s = (.value r, s')) :
    r.fileContents = some p ∧ s' = (getFile reliable g fuel path off s).2 := by
  rcases h₀ : getFile reliable g fuel path off s with ⟨r₀ | stop, s₀⟩
  · rw [h₀] at hp
    rw [(getFile_mono hle path off).value h₀] at hrun
    cases hrun
    exact ⟨hp, rfl⟩
  · rw [h₀] at hp
    cases hp

/-- A volume that fills the partition, with one table: its clusters from number
16640799 on are in range, but behind the end of the partition. -/
def fullVolume : Globals where
  fatType := 32
  firstFatSector := 32
  firstDataSector := 32 + 131031
  totalClusters := 2 * 8385930
  bytesPerSector := 512
  sectorsPerCluster := 1
  rootCluster := 2
  firstFatSector_lt := smallVolume.firstFatSector_lt
  bytesPerSector_lt := smallVolume.bytesPerSector_lt
  sectorsPerCluster_lt := smallVolume.sectorsPerCluster_lt
  rootCluster_lt := smallVolume.rootCluster_lt

theorem fullVolume_isVolume : fullVolume.IsVolume where
  bytesPerSector := rfl
  one_le := by decide
  le := by decide
  fatType := rfl
  one := rfl
  numbered := by decide
  addressed := by decide
  table := by decide

/-- A file of one byte, in cluster 16640800. -/
def beyondEntry : DirectoryEntry :=
  (((letterEntry 0x41).setField 20 2 0xFD).setField 26 2 0xEB20).setField 28 4 1

/-- The sectors of the table that matter, the root directory and the sector that
the cluster of the file would have. -/
def beyondState : State where
  disk := fun lba =>
    if lba = partStartLba + 32 then fun i => leBytes (if i / 4 = 2 then endCluster32 else 0) (i % 4)
    else if lba = partStartLba + 32 + 130006 then fun i => leBytes endCluster32 (i % 4)
    else if lba = partStartLba + (32 + 131031) then beyondEntry.bytes
    else if lba = partStartLba + (32 + 131031) + 16640798 then fun _ => 0x55
    else fun _ => 0
  mem := fun _ => 0
  tick := 0
  log := []

theorem returnPointer_beyondState :
    returnPointer (getFile reliable fullVolume 3 filePath 1 beyondState).1
      = some (diskLocation + 512) := by decide +kernel

/-- Nothing has been read to the address that is returned. -/
theorem mem_beyondState :
    (getFile reliable fullVolume 3 filePath 1 beyondState).2.mem (diskLocation + 512) = 0 := by
  decide +kernel

/-- The read of the one cluster is refused, and `getFile` reports success. -/
theorem not_getFile_beyondState :
    fullVolume.IsVolume ∧ Resolves fullVolume beyondState filePath beyondEntry ∧
      ¬ beyondEntry.isDirectory ∧
      IsChain fullVolume beyondState.disk (getClusterFromEntry fullVolume beyondEntry)
        [16640800] ∧
      beyondEntry.fileSize = 1 ∧
      ¬ ∃ N, ∀ fuel ≥ N, ∃ p s',
        getFile reliable fullVolume fuel filePath 1 beyondState
          = (.value ⟨0, some beyondEntry, some p⟩, s') ∧
        bytesAt s'.mem p ([16640800].length * 512)
          = [16640800].flatMap fun c => bytesAt (data fullVolume beyondState.disk c) 0 512 := by
  have hroot : IsChain fullVolume beyondState.disk 2 [2] := ⟨.last (by decide), by decide⟩
  refine ⟨fullVolume_isVolume, resolves_filePath fullVolume_isVolume.toOneSector hroot (by decide)
    (by decide) (by decide), by decide, ⟨.last (by decide), by decide⟩, by decide, ?_⟩
  rintro ⟨N, hN⟩
  obtain ⟨p, s', hrun, hbytes⟩ := hN (max N 3) (Nat.le_max_left _ _)
  obtain ⟨hp, rfl⟩ := getFile_value (Nat.le_max_right N 3) returnPointer_beyondState hrun
  cases hp
  rw [List.flatMap_singleton] at hbytes
  have hbyte := bytesAt_eq_iff.mp hbytes 0 (by decide)
  rw [Nat.add_zero, mem_beyondState] at hbyte
  exact absurd hbyte (by decide)

end PotatoOS
