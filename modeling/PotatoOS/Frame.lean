/-
PotatoOS/Frame.lean

What an insertion leaves alone.

Storing an entry changes the table entry of the file's cluster and the
sector of one directory cluster.  In that sector the slot taken holds the
entry; every other slot holds what the table sector in the buffer had there
(`slot_storedDisk_other`).  So the slots of the directory survive exactly
when the two sectors agree outside the slot, and a name becomes visible when
the slot was the end mark in front of it, or when it stands in the old bytes
of a cluster that the directory grew by.

Main result: `insertionKeeps_iff`, the exact condition on the volume under
which `directoryAdd` keeps the rest of the directory and all other searches,
for directories whose clusters lie on the partition.
-/
import PotatoOS.Insert

namespace PotatoOS

open Prog

/-! ### The disk after the entry is stored -/

section

variable {g : Globals} {d : Disk} {c c₀ k x a : Nat} {e : DirectoryEntry} {l : List Nat}

theorem fatValue_storedDisk (h : g.IsVolume) (hc : g.InRange c) (hx : g.InRange x)
    (ha : g.InRange a) :
    fatValue g (storedDisk g d c k e x) a = if a = x then endCluster32 else fatValue g d a := by
  rw [storedDisk, fatValue_setData h hc ha]
  split
  · rename_i hax
    rw [hax]
    exact fatValue_setFat_same h.toOneSector (by decide)
  · exact fatValue_setFat_ne h.toOneSector hx ha (by assumption)

/-- The chain of a directory does not run through the file's cluster. -/
theorem isChain_storedDisk (h : g.IsVolume) (hc : g.InRange c) (hx : IsFirstFree g d x)
    (hch : IsChain g d c₀ l) : IsChain g (storedDisk g d c k e x) c₀ l := by
  refine hch.congr fun a ha => ?_
  rw [fatValue_storedDisk h hc hx.inRange (hch.inRange a ha), if_neg]
  rintro rfl
  exact hx.not_mem hch ha

theorem data_storedDisk_other (h : g.IsVolume) (hc : g.InRange c) (hx : g.InRange x)
    (ha : g.InRange a) (hne : a ≠ c) : data g (storedDisk g d c k e x) a = data g d a := by
  rw [storedDisk, data_setData_other h.toOneSector hc ha hne, data_setFat h hx ha]

theorem slot_storedDisk_self (hk : k < 16) :
    slot g (storedDisk g d c k e x) c k = filledIn g e x := by
  funext j
  have hj := j.isLt
  show data g (storedDisk g d c k e x) c (32 * k + j) = _
  rw [storedDisk, data_setData_self _ _ _ (by omega), memcpy_apply_add hj,
    DirectoryEntry.bytes_of_lt _ hj]

/-- The other slots of the cluster become table entries. -/
theorem slot_storedDisk_other {j : Nat} (hj : j < 16) (hne : j ≠ k) :
    slot g (storedDisk g d c k e x) c j = DirectoryEntry.at_ (markedSector g d x) (32 * j) := by
  funext i
  have hi := i.isLt
  show data g (storedDisk g d c k e x) c (32 * j + i) = _
  rw [storedDisk, data_setData_self _ _ _ (by omega), memcpy_apply_of_notMem (by omega)]
  rfl

/-- The name, the attributes and the size are the caller's. -/
theorem filledIn_apply (g : Globals) (e : DirectoryEntry) (x : Nat) {j : Fin 32}
    (hj : (j : Nat) < 13 ∨ 28 ≤ (j : Nat)) : filledIn g e x j = e j := by
  simp only [filledIn, placeEntry, stampEntry]
  repeat rw [DirectoryEntry.setField_apply_of_lt _ (by omega)]

theorem fileName_filledIn (g : Globals) (e : DirectoryEntry) (x : Nat) :
    (filledIn g e x).fileName = e.fileName := by
  funext j
  have hj := j.isLt
  exact filledIn_apply g e x (.inl (Nat.lt_of_lt_of_le hj (by decide)))

theorem isDirectory_filledIn (g : Globals) (e : DirectoryEntry) (x : Nat) :
    (filledIn g e x).isDirectory ↔ e.isDirectory := by
  rw [DirectoryEntry.isDirectory, DirectoryEntry.attributes,
    filledIn_apply g e x (.inl (by decide))]
  rfl

theorem fileSize_filledIn (g : Globals) (e : DirectoryEntry) (x : Nat) :
    (filledIn g e x).fileSize = e.fileSize := by
  refine le_congr fun i hi => ?_
  rw [DirectoryEntry.bytes_of_lt _ (by omega), DirectoryEntry.bytes_of_lt _ (by omega)]
  exact filledIn_apply g e x (.inr (Nat.le_add_right 28 i))

/-- What the entry says about the first cluster: of its low 16 bits, only four
are kept. -/
theorem getClusterFromEntry_placeEntry (h : g.fatType = 32) (e : DirectoryEntry)
    (hx : x < 2 ^ 32) :
    getClusterFromEntry g (placeEntry g e x) = x / 65536 * 65536 + x % 16 := by
  have hlow : (placeEntry g e x).lowBits = x % 16 := by
    rw [DirectoryEntry.lowBits, placeEntry,
      DirectoryEntry.le_setField_other _ (by decide) (by decide),
      DirectoryEntry.le_setField_self _ (by decide), getEntryLowBits, h,
      show 32 / 2 - 1 = 2 ^ 4 - 1 from rfl, Nat.and_two_pow_sub_one_eq_mod]
    omega
  have hhigh : (placeEntry g e x).highBits = x / 65536 := by
    rw [DirectoryEntry.highBits, placeEntry,
      DirectoryEntry.le_setField_self _ (by decide), getEntryHighBits, h,
      show 32 / 2 = 16 from rfl, Nat.shiftRight_eq_div_pow]
    omega
  rw [getClusterFromEntry, hlow, hhigh, h, show 32 / 2 = 16 from rfl, Nat.or_comm,
    ← Nat.shiftLeft_add_eq_or_of_lt (by omega), Nat.shiftLeft_eq]
  omega

theorem getClusterFromEntry_filledIn (h : g.IsFat32) (hx : x < 2 ^ 32) :
    getClusterFromEntry g (filledIn g e x) = x / 65536 * 65536 + x % 16 :=
  getClusterFromEntry_placeEntry h.fatType (stampEntry e) hx

end

/-! ### Names in a list of slots -/

/-- All bytes of the name are legal. -/
def LegalName (name : Name) : Prop := ∀ j, LegalByte (name j)

/-- The bytes of a name as a text. -/
def nameText (name : Name) : Mem := fun i => if hi : i < 11 then name ⟨i, hi⟩ else 0

/-- A search for the name ends at an entry. -/
def Finds (name : Name) (l : List DirectoryEntry) : Prop := ∃ i, lookup name l = .hit i

section

variable {name : Name} {v e : DirectoryEntry} {u w : List DirectoryEntry}

theorem testIfFATFormat_iff_legalName (m : Mem) : testIfFATFormat m = 0 ↔ LegalName (nameOf m) := by
  rw [testIfFATFormat_eq_zero_iff]
  exact ⟨fun h j => h j j.isLt, fun h i hi => h ⟨i, hi⟩⟩

theorem nameOf_bytes (e : DirectoryEntry) : nameOf e.bytes = e.fileName := by
  funext j
  exact DirectoryEntry.bytes_of_lt e (by omega)

theorem legalName_of_test (hl : testIfFATFormat e.bytes = 0) : LegalName e.fileName := by
  rw [← nameOf_bytes]
  exact (testIfFATFormat_iff_legalName _).mp hl

/-- An entry with another legal name is passed over. -/
theorem neutral_of_legal (hl : LegalName e.fileName) (hne : name ≠ e.fileName) :
    Neutral IsEnd (HasName name) e :=
  ⟨fun hend => (hl 0).ne_zero hend, fun hn => hne hn.symm⟩

/-- So is a free slot. -/
theorem neutral_of_free (hl : LegalName name) (hv : v 0 = entryFree) :
    Neutral IsEnd (HasName name) v := by
  constructor
  · intro hend
    rw [IsEnd, hv] at hend
    exact absurd hend (by decide)
  · intro hn
    have h₀ : name 0 = entryFree := by
      rw [← show v.fileName = name from hn]
      exact hv
    exact absurd (h₀ ▸ hl 0) (by decide)

theorem lookup_append (name : Name) (u w : List DirectoryEntry) :
    lookup name (u ++ w) = (lookup name u).andThen u.length (lookup name w) := scan_append

/-- A hit in the first part decides the search. -/
theorem searchResult_append_hit {i : Nat} (hu : lookup name u = .hit i)
    (w w' : List DirectoryEntry) : searchResult name (u ++ w) = searchResult name (u ++ w') := by
  obtain ⟨hi, -⟩ := scan_hit_get hu
  simp only [searchResult, lookup_append, hu, Scan.andThen]
  rw [List.getD_append _ _ _ _ hi, List.getD_append _ _ _ _ hi]

/-- The first slot with the name is what a search returns. -/
theorem searchResult_pass_hit (hu : lookup name u = .pass) (hend : ¬ IsEnd e)
    (hname : HasName name e) : searchResult name (u ++ e :: w) = .ok (e, u.length % 16) := by
  have hlook : lookup name (u ++ e :: w) = .hit u.length := by
    rw [lookup_append, hu, lookup, scan, if_neg hend, if_pos hname]
    rfl
  rw [searchResult, hlook]
  simp

theorem searchResult_eq_error_iff : searchResult name u = .error (-2) ↔ ¬ Finds name u := by
  rw [searchResult, Finds]
  rcases lookup name u with i | - | - <;> simp

theorem finds_append_iff (hu : lookup name u = .pass) : Finds name (u ++ w) ↔ Finds name w := by
  rw [Finds, Finds, lookup_append, hu]
  constructor
  · rintro ⟨i, hi⟩
    obtain ⟨j, hj, -⟩ := Scan.shift_eq_hit_iff.mp hi
    exact ⟨j, hj⟩
  · rintro ⟨j, hj⟩
    exact ⟨u.length + j, Scan.shift_eq_hit_iff.mpr ⟨j, hj, rfl⟩⟩

theorem finds_cons_iff (he : Neutral IsEnd (HasName name) e) :
    Finds name (e :: w) ↔ Finds name w := by
  have hpass : lookup name [e] = .pass := scan_eq_pass_iff.mpr fun a ha => by
    rwa [List.mem_singleton.mp ha]
  exact finds_append_iff (u := [e]) hpass

theorem not_finds_end (hv : IsEnd v) : ¬ Finds name (v :: w) := by
  rintro ⟨i, hi⟩
  rw [lookup, scan, if_pos hv] at hi
  cases hi

/-- Replacing a tail in which nothing was found changes a search exactly when
the new tail shows a name that was not found before. -/
theorem searchResult_tail_iff {y : List DirectoryEntry} (hu : lookup name u ≠ .stop)
    (hy : ¬ Finds name y) :
    searchResult name (u ++ w) = searchResult name (u ++ y) ↔ (Finds name w → Finds name u) := by
  rcases hl : lookup name u with i | - | -
  · exact iff_of_true (searchResult_append_hit hl w y) fun _ => ⟨i, hl⟩
  · exact absurd hl hu
  · have hnot : ¬ Finds name u := by
      rintro ⟨i, hi⟩
      rw [hl] at hi
      cases hi
    have hey : searchResult name (u ++ y) = .error (-2) :=
      searchResult_eq_error_iff.mpr fun h => hy ((finds_append_iff hl).mp h)
    rw [hey, searchResult_eq_error_iff, finds_append_iff hl]
    exact ⟨fun h hw => absurd hw h, fun h hw => hnot (h hw)⟩

/-- Exchanging slots that a search passes over changes no result. -/
theorem searchResult_set (hv : Neutral IsEnd (HasName name) v)
    (he : Neutral IsEnd (HasName name) e) :
    searchResult name (u ++ e :: w) = searchResult name (u ++ v :: w) := by
  have hlook : lookup name (u ++ e :: w) = lookup name (u ++ v :: w) := scan_set hv he
  rw [searchResult, searchResult, hlook]
  rcases hl : lookup name (u ++ v :: w) with i | - | -
  · have hne : i ≠ u.length := by
      rintro rfl
      obtain ⟨hi, hhit⟩ := scan_hit_get hl
      refine hv.2 ?_
      simpa using hhit
    simp only
    rcases Nat.lt_or_ge i u.length with hlt | hge
    · rw [List.getD_append _ _ _ _ hlt, List.getD_append _ _ _ _ hlt]
    · obtain ⟨j, hj⟩ : ∃ j, i - u.length = j + 1 := ⟨i - u.length - 1, by omega⟩
      rw [List.getD_append_right _ _ _ _ hge, List.getD_append_right _ _ _ _ hge, hj]
      rfl
  · rfl
  · rfl

end

/-! ### The slots of the directory afterwards -/

section

variable {g : Globals} {d d₁ : Disk} {c c₀ k x a : Nat} {e : DirectoryEntry}
  {l pre post new : List Nat} {name : Name}

/-- The slots that a sector holds. -/
def sectorSlots (m : Mem) : List DirectoryEntry :=
  (List.range 16).map fun j => DirectoryEntry.at_ m (32 * j)

theorem sectorSlots_congr {m m' : Mem} (h : ∀ i < 512, m i = m' i) :
    sectorSlots m = sectorSlots m' := by
  refine List.map_congr_left fun k hk => ?_
  have := List.mem_range.mp hk
  funext j
  have := j.isLt
  exact h _ (by omega)

theorem clusterSlots_storedDisk :
    clusterSlots g (storedDisk g d c k e x) c
      = sectorSlots (memcpy (markedSector g d x) (32 * k) (filledIn g e x).bytes 32) :=
  sectorSlots_congr fun i hi => by rw [storedDisk, data_setData_self _ _ _ hi]

theorem slots_storedDisk (h : g.IsVolume) (hc : g.InRange c) (hx : g.InRange x)
    (hin : ∀ b ∈ l, g.InRange b) (hnot : c ∉ l) :
    slots g (storedDisk g d c k e x) l = slots g d l :=
  slots_congr fun b hb => data_storedDisk_other h hc hx (hin b hb) fun e => hnot (e ▸ hb)

/-- The slots of a cluster around one of them. -/
theorem clusterSlots_split (g : Globals) (d : Disk) (c : Nat) (hk : k < 16) :
    clusterSlots g d c = (clusterSlots g d c).take k ++ slot g d c k ::
      (clusterSlots g d c).drop (k + 1) := by
  have hlen : k < (clusterSlots g d c).length := by rwa [clusterSlots_length]
  have hget : (clusterSlots g d c)[k] = slot g d c k := by simp [clusterSlots]
  rw [← hget, List.getElem_cons_drop, List.take_append_drop]

/-- The slots of a directory around one of them. -/
theorem slots_split (g : Globals) (d : Disk) (pre : List Nat) (c : Nat) (post : List Nat)
    (hk : k < 16) :
    slots g d (pre ++ c :: post)
      = (slots g d pre ++ (clusterSlots g d c).take k) ++ slot g d c k ::
        ((clusterSlots g d c).drop (k + 1) ++ slots g d post) := by
  rw [slots_append, slots_cons]
  conv_lhs => rw [clusterSlots_split g d c hk]
  simp only [List.append_assoc, List.cons_append]

/-- When the table sector agrees with the directory sector outside the slot,
storing the entry changes the slot only. -/
theorem clusterSlots_storedDisk_of_agree (hk : k < 16)
    (hag : ∀ j < 16, j ≠ k → DirectoryEntry.at_ (markedSector g d x) (32 * j) = slot g d c j) :
    clusterSlots g (storedDisk g d c k e x) c
      = (clusterSlots g d c).take k ++ filledIn g e x :: (clusterSlots g d c).drop (k + 1) := by
  have hlen : k < (clusterSlots g d c).length := by rwa [clusterSlots_length]
  have hset : (clusterSlots g d c).set k (filledIn g e x)
      = (clusterSlots g d c).take k ++ filledIn g e x :: (clusterSlots g d c).drop (k + 1) := by
    rw [List.set_eq_take_append_cons_drop, if_pos hlen]
  rw [← hset]
  refine List.ext_getElem (by simp) fun j h₁ h₂ => ?_
  have hj : j < 16 := by simpa using h₁
  rw [List.getElem_set]
  split
  · rename_i hkj
    subst hkj
    simpa [clusterSlots] using slot_storedDisk_self hk
  · rename_i hkj
    simpa [clusterSlots] using (slot_storedDisk_other hj fun e => hkj e.symm).trans
      (hag j hj fun e => hkj e.symm)

theorem not_vacant_of_mem_slots {v : DirectoryEntry} (hf : ∀ a ∈ l, Full g d a)
    (hv : v ∈ slots g d l) : ¬ Vacant v := by
  obtain ⟨a, ha, hv⟩ := List.mem_flatMap.mp hv
  obtain ⟨j, hj, rfl⟩ := List.mem_map.mp hv
  exact hf a ha j (List.mem_range.mp hj)

/-- Slots before the place are in use, so no search stops there. -/
theorem lookup_before_ne_stop (hf : ∀ a ∈ pre, Full g d a) (hk : FirstVacant g d c k) :
    lookup name (slots g d pre ++ (clusterSlots g d c).take k) ≠ .stop := by
  refine scan_ne_stop fun v hv hend => ?_
  rcases List.mem_append.mp hv with hv | hv
  · exact not_vacant_of_mem_slots hf hv (.inr hend)
  · obtain ⟨j, hj, rfl⟩ := List.mem_take_iff_getElem.mp hv
    have hj' : j < k := by omega
    have huse : ¬ Vacant (clusterSlots g d c)[j] := by
      simpa [clusterSlots] using hk.before j hj'
    exact huse (.inr hend)

/-- Without growth, and with the two sectors in agreement, a search changes
exactly when the slot was an end mark and the name stands behind it only. -/
theorem searchResult_room_iff (h : g.IsVolume) (hl : LegalName e.fileName)
    (hch : IsChain g d c₀ (pre ++ c :: post)) (hf : ∀ a ∈ pre, Full g d a)
    (hk : FirstVacant g d c k) (hx : IsFirstFree g d x)
    (hag : ∀ j < 16, j ≠ k → DirectoryEntry.at_ (markedSector g d x) (32 * j) = slot g d c j)
    (hname : LegalName name) (hne : name ≠ e.fileName) :
    searchResult name (slots g (storedDisk g d c k e x) (pre ++ c :: post))
        = searchResult name (slots g d (pre ++ c :: post)) ↔
      (IsEnd (slot g d c k) →
        Finds name ((clusterSlots g d c).drop (k + 1) ++ slots g d post) →
        Finds name (slots g d pre ++ (clusterSlots g d c).take k)) := by
  have hnd := hch.chain.nodup
  have hc := hch.inRange c (by simp)
  have hpre : c ∉ pre := fun hm => (List.disjoint_of_nodup_append hnd) hm List.mem_cons_self
  have hpost : c ∉ post := (List.nodup_cons.mp (List.nodup_append.mp hnd).2.1).1
  -- both directories are the same list around the slot
  have hold := slots_split g d pre c post hk.lt
  have hnew : slots g (storedDisk g d c k e x) (pre ++ c :: post)
      = (slots g d pre ++ (clusterSlots g d c).take k) ++ filledIn g e x ::
        ((clusterSlots g d c).drop (k + 1) ++ slots g d post) := by
    rw [slots_append, slots_cons, clusterSlots_storedDisk_of_agree hk.lt hag,
      slots_storedDisk h hc hx.inRange (fun b hb => hch.inRange b (by simp [hb])) hpre,
      slots_storedDisk h hc hx.inRange (fun b hb => hch.inRange b (by simp [hb])) hpost]
    simp only [List.append_assoc, List.cons_append]
  have he : Neutral IsEnd (HasName name) (filledIn g e x) := by
    refine neutral_of_legal ?_ ?_ <;> rw [fileName_filledIn]
    · exact hl
    · exact hne
  rw [hold, hnew]
  rcases hk.vacant with hfree | hend
  · refine iff_of_true (searchResult_set (neutral_of_free hname hfree) he) fun hend => ?_
    rw [IsEnd, hfree] at hend
    exact absurd hend (by decide)
  · rw [searchResult_tail_iff (lookup_before_ne_stop hf hk) (not_finds_end hend),
      finds_cons_iff he]
    exact ⟨fun hi _ => hi, fun hi => hi hend⟩

/-- When the directory grew, a search changes exactly when the name shows up
in the new clusters only. -/
theorem searchResult_grown_iff (h : g.IsVolume) (hp : Placed g d l d₁ (l ++ new) c [] k)
    (hch : IsChain g d c₀ l) (hf : ∀ b ∈ l, Full g d b) (hx : IsFirstFree g d₁ x) :
    searchResult name (slots g (storedDisk g d₁ c k e x) (l ++ new ++ [c]))
        = searchResult name (slots g d l) ↔
      (Finds name (slots g d new ++
          sectorSlots (memcpy (markedSector g d₁ x) (32 * k) (filledIn g e x).bytes 32)) →
        Finds name (slots g d l)) := by
  have hch₁ := hp.isChain h.toOneSector hch
  have hnd := hch₁.chain.nodup
  have hc := hch₁.inRange c (by simp)
  have hnot : c ∉ l ++ new := fun hm => (List.disjoint_of_nodup_append hnd) hm List.mem_cons_self
  have hin : ∀ b ∈ l ++ new, g.InRange b := fun b hb =>
    hch₁.inRange b (List.mem_append_left _ hb)
  -- behind the old slots those of the new clusters
  have hslots : slots g (storedDisk g d₁ c k e x) (l ++ new ++ [c])
      = slots g d l ++ (slots g d new ++
        sectorSlots (memcpy (markedSector g d₁ x) (32 * k) (filledIn g e x).bytes 32)) := by
    rw [slots_append, slots_storedDisk h hc hx.inRange hin hnot,
      slots_congr fun b hb => hp.data_eq h hch.inRange (hin b hb), slots_append, slots_cons,
      slots_nil, List.append_nil, clusterSlots_storedDisk, List.append_assoc]
  -- full clusters have no end mark
  have hstop : lookup name (slots g d l) ≠ .stop :=
    scan_ne_stop fun v hv hend => not_vacant_of_mem_slots hf hv (.inr hend)
  have hnil : ¬ Finds name [] := by
    rintro ⟨i, hi⟩
    cases hi
  have := searchResult_tail_iff (w := slots g d new ++
    sectorSlots (memcpy (markedSector g d₁ x) (32 * k) (filledIn g e x).bytes 32)) hstop hnil
  rw [List.append_nil] at this
  rw [hslots]
  exact this

end

/-! ### What an insertion keeps -/

/-- With enough steps the search of the directory at `c` returns `r`. -/
def Searches (g : Globals) (s : State) (c : Nat) (filepart : Mem)
    (r : Except Int (DirectoryEntry × Nat)) : Prop :=
  ∃ N, ∀ fuel ≥ N, (directorySearch reliable g filepart fuel c s).1 = .value r

/-- The state `s'` holds the directory of `s` with the entry `e` in its first
vacant slot, number `k` of cluster `a`.  Its date and its first cluster are
filled in, with a cluster `x` that was free and is now the end of a chain.  The
other slots are as before, and so are the searches for all 8.3 names but that
of the entry. -/
structure Kept (g : Globals) (s s' : State) (c : Nat) (l : List Nat) (e : DirectoryEntry)
    (pre : List Nat) (a : Nat) (post : List Nat) (k x : Nat) : Prop where
  chain : IsChain g s'.disk c (pre ++ a :: post)
  old : l <+: pre ++ a :: post
  full : ∀ b ∈ pre, Full g s.disk b
  vacant : FirstVacant g s.disk a k
  cluster : g.InRange x ∧ fatValue g s.disk x = 0 ∧ fatValue g s'.disk x = endCluster32
  stored : slot g s'.disk a k = filledIn g e x
  others : ∀ b ∈ l, ∀ j < 16, ¬ (b = a ∧ j = k) → slot g s'.disk b j = slot g s.disk b j
  searches : ∀ filepart key r, searchName filepart = some key → testIfFATFormat key = 0 →
    nameOf key ≠ e.fileName → (Searches g s' c filepart r ↔ Searches g s c filepart r)

/-- `directoryAdd` returns, and if it returns 0 the directory is kept; the entry
that the caller gets back is the one that is stored. -/
def InsertionKeeps (g : Globals) (s : State) (c : Nat) (l : List Nat) (e : DirectoryEntry) :
    Prop :=
  ∃ N, ∀ fuel ≥ N, ∃ r e' s', directoryAdd reliable g e fuel c s = (.value (r, e'), s') ∧
    (r = 0 → ∃ pre a post k x, e' = filledIn g e x ∧ Kept g s s' c l e pre a post k x)

/-- The condition on the volume.  With room in the directory: the table sector
with the file's cluster agrees with the directory sector outside the slot, and
if the slot was an end mark then no name stands behind it only.  Without room:
no name stands in the new clusters only. -/
structure InsertionOk (g : Globals) (d : Disk) (l : List Nat) (e : DirectoryEntry) : Prop where
  sector : ∀ pre c post k x, l = pre ++ c :: post → (∀ a ∈ pre, Full g d a) →
    FirstVacant g d c k → IsFirstFree g d x →
    ∀ j < 16, j ≠ k → DirectoryEntry.at_ (markedSector g d x) (32 * j) = slot g d c j
  uncovered : ∀ pre c post k x, l = pre ++ c :: post → (∀ a ∈ pre, Full g d a) →
    FirstVacant g d c k → IsFirstFree g d x → IsEnd (slot g d c k) →
    ∀ name, LegalName name → name ≠ e.fileName →
      Finds name ((clusterSlots g d c).drop (k + 1) ++ slots g d post) →
      Finds name (slots g d pre ++ (clusterSlots g d c).take k)
  grown : ∀ d₁ new c k x, Placed g d l d₁ (l ++ new) c [] k → IsFirstFree g d₁ x →
    ∀ name, LegalName name → name ≠ e.fileName →
      Finds name (slots g d new ++
        sectorSlots (memcpy (markedSector g d₁ x) (32 * k) (filledIn g e x).bytes 32)) →
      Finds name (slots g d l)

section

variable {g : Globals} {s s' : State} {c c₀ k x : Nat} {e : DirectoryEntry}
  {l pre post new : List Nat} {name : Name} {d₁ : Disk}

theorem searches_iff (h : g.OneSector) {filepart key : Mem}
    {r : Except Int (DirectoryEntry × Nat)} (hkey : searchName filepart = some key)
    (hch : IsChain g s.disk c l) (hpart : ∀ a ∈ l, g.OnPartition a) :
    Searches g s c filepart r ↔ r = searchResult (nameOf key) (slots g s.disk l) := by
  constructor
  · rintro ⟨N, hN⟩
    obtain ⟨s', hrun, -⟩ := directorySearch_chain h hkey hch hpart (Nat.le_max_right N l.length)
    have := hN _ (Nat.le_max_left N l.length)
    rw [hrun] at this
    exact (Outcome.value.inj this).symm
  · rintro rfl
    refine ⟨l.length, fun fuel hf => ?_⟩
    obtain ⟨s', hrun, -⟩ := directorySearch_chain h hkey hch hpart hf
    rw [hrun]

/-- A legal name is its own search name. -/
theorem searchName_nameText (hname : LegalName name) :
    ∃ key, searchName (nameText name) = some key ∧ testIfFATFormat key = 0 ∧
      nameOf key = name := by
  have hval : ∀ (i : Nat) (hi : i < 11), nameText name i = name ⟨i, hi⟩ := fun i hi => dif_pos hi
  have hlegal : ∀ i < 11, LegalByte (nameText name i) := fun i hi => by
    rw [hval i hi]
    exact hname _
  have hlen : strnlen (nameText name) 13 = some 11 :=
    strnlen_eq_some_iff.mpr ⟨by decide, rfl, fun i hi => (hlegal i hi).ne_zero⟩
  obtain ⟨key, hkey, hk⟩ := searchName_of_legal hlegal hlen
  refine ⟨key, hkey, ?_, ?_⟩
  · refine (testIfFATFormat_eq_zero_iff key).mpr fun i hi => ?_
    rw [hk i hi]
    exact hlegal i hi
  · funext j
    show key j = name j
    rw [hk j j.isLt, hval j j.isLt]

/-- The first cluster with a vacant slot is determined. -/
theorem place_unique {d : Disk} {pre' post' : List Nat} {c' : Nat}
    (he : pre ++ c :: post = pre' ++ c' :: post') (hf : ∀ b ∈ pre, Full g d b)
    (hf' : ∀ b ∈ pre', Full g d b) (hc : ¬ Full g d c) (hc' : ¬ Full g d c') :
    pre = pre' ∧ c = c' ∧ post = post' := by
  induction pre generalizing pre' with
  | nil =>
      rcases pre' with - | ⟨b, pre'⟩
      · obtain ⟨rfl, rfl⟩ := List.cons.inj he
        exact ⟨rfl, rfl, rfl⟩
      · exact absurd ((List.cons.inj he).1 ▸ hf' b List.mem_cons_self) hc
  | cons a pre ih =>
      rcases pre' with - | ⟨b, pre'⟩
      · exact absurd ((List.cons.inj he).1 ▸ hf a List.mem_cons_self) hc'
      · obtain ⟨rfl, htl⟩ := List.cons.inj he
        obtain ⟨rfl, rfl, rfl⟩ := ih htl (fun b hb => hf b (List.mem_cons_of_mem _ hb))
          fun b hb => hf' b (List.mem_cons_of_mem _ hb)
        exact ⟨rfl, rfl, rfl⟩

/-- The old directory, and its slots but the one taken, are there afterwards. -/
theorem Placed.others (h : g.IsVolume) (hp : Placed g s.disk l d₁ pre c post k)
    (hch : IsChain g s.disk c₀ l) (hx : IsFirstFree g d₁ x) (hd : s'.disk = storedDisk g d₁ c k e x)
    (hok : InsertionOk g s.disk l e) {b j : Nat} (hb : b ∈ l) (hj : j < 16)
    (hne : ¬ (b = c ∧ j = k)) : slot g s'.disk b j = slot g s.disk b j := by
  have hch₁ := hp.isChain h.toOneSector hch
  have hc := hch₁.inRange c (by simp)
  have hbr := hch.inRange b hb
  rw [hd]
  by_cases hbc : b = c
  · subst hbc
    have hjk : j ≠ k := fun e => hne ⟨rfl, e⟩
    rw [slot_storedDisk_other hj hjk]
    rcases hp.room_or_grown h hch.inRange with ⟨rfl, rfl⟩ | ⟨rfl, ⟨new, rfl⟩, -⟩
    · exact hok.sector pre b post k x rfl hp.full hp.firstVacant hx j hj hjk
    · -- a new cluster is not one of the old ones
      have hnd := hch₁.chain.nodup
      exact absurd List.mem_cons_self
        (List.disjoint_of_nodup_append hnd (List.mem_append_left _ hb))
  · rw [slot_of_data (data_storedDisk_other h hc hx.inRange hbr hbc),
      slot_of_data (hp.data_eq h hch.inRange hbr)]

/-- All other searches give what they gave before. -/
theorem Placed.searchResult_eq (h : g.IsVolume) (hl : LegalName e.fileName)
    (hp : Placed g s.disk l d₁ pre c post k) (hch : IsChain g s.disk c₀ l)
    (hx : IsFirstFree g d₁ x) (hok : InsertionOk g s.disk l e) (hname : LegalName name)
    (hne : name ≠ e.fileName) :
    searchResult name (slots g (storedDisk g d₁ c k e x) (pre ++ c :: post))
      = searchResult name (slots g s.disk l) := by
  rcases hp.room_or_grown h hch.inRange with ⟨rfl, rfl⟩ | ⟨rfl, ⟨new, rfl⟩, hf⟩
  · refine (searchResult_room_iff h hl hch hp.full hp.firstVacant hx
      (hok.sector pre c post k x rfl hp.full hp.firstVacant hx) hname hne).mpr fun hend => ?_
    exact hok.uncovered pre c post k x rfl hp.full hp.firstVacant hx hend name hname hne
  · exact (searchResult_grown_iff h hp hch hf hx).mpr
      (hok.grown d₁ new c k x hp hx name hname hne)

theorem insertionKeeps_of_ok (h : g.IsVolume) (hl : testIfFATFormat e.bytes = 0)
    (hch : IsChain g s.disk c₀ l) (hpart : ∀ a ∈ l, g.OnPartition a)
    (hok : InsertionOk g s.disk l e) : InsertionKeeps g s c₀ l e := by
  have hlegal := legalName_of_test hl
  obtain ⟨r, d', ha⟩ := adds_total h.toOneSector e hch
  obtain ⟨N, hN⟩ := directoryAdd_adds h.toOneSector hl ha c₀ hch hpart
  refine ⟨N, fun fuel hf => ?_⟩
  obtain ⟨s', hrun, hd⟩ := hN fuel hf s rfl
  refine ⟨r.1, r.2, s', hrun, fun h₀ => ?_⟩
  -- a success has stored the entry somewhere
  obtain ⟨d₁, pre, c, post, k, x, hp, hx, hr, rfl⟩ := ha.placed h h₀ hch.inRange
  have hch₁ := hp.isChain h.toOneSector hch
  have hc := hch₁.inRange c (by simp)
  have hch' : IsChain g s'.disk c₀ (pre ++ c :: post) := by
    rw [hd]
    exact isChain_storedDisk h hc hx hch₁
  have hdata : ∀ {b}, g.InRange b → data g s.disk b = data g d₁ b := fun hb =>
    (hp.data_eq h hch.inRange hb).symm
  refine ⟨pre, c, post, k, x, congrArg Prod.snd hr, hch', ?_, ?_, ?_, ?_, ?_, ?_, ?_⟩
  · rcases hp.room_or_grown h hch.inRange with ⟨-, rfl⟩ | ⟨-, ⟨new, rfl⟩, -⟩
    · exact List.prefix_rfl
    · rw [List.append_assoc]
      exact List.prefix_append _ _
  · exact fun b hb => (hp.full b hb).of_data (hdata (hch₁.inRange b (by simp [hb])))
  · exact hp.firstVacant.of_data (hdata hc)
  · refine ⟨hx.inRange, hp.free h.toOneSector hch hx, ?_⟩
    rw [hd, fatValue_storedDisk h hc hx.inRange hx.inRange, if_pos rfl]
  · rw [hd]
    exact slot_storedDisk_self hp.firstVacant.lt
  · intro b hb j hj hne
    exact hp.others h hch hx hd hok hb hj hne
  · intro filepart key r' hkey htest hne
    rw [searches_iff h.toOneSector hkey hch' (hp.onPartition hpart),
      searches_iff h.toOneSector hkey hch hpart, hd,
      hp.searchResult_eq h hlegal hch hx hok ((testIfFATFormat_iff_legalName key).mp htest) hne]

/-- What the insertion keeps, at the place where it stores the entry. -/
theorem InsertionKeeps.kept (h : g.IsVolume) (hl : testIfFATFormat e.bytes = 0)
    (hch : IsChain g s.disk c₀ l) (hpart : ∀ a ∈ l, g.OnPartition a)
    (hkeep : InsertionKeeps g s c₀ l e) (hp : Placed g s.disk l d₁ pre c post k)
    (hx : IsFirstFree g d₁ x) :
    ∃ s' x', s'.disk = storedDisk g d₁ c k e x ∧ Kept g s s' c₀ l e pre c post k x' := by
  obtain ⟨N, hN⟩ := hkeep
  obtain ⟨N', hN'⟩ := directoryAdd_adds h.toOneSector hl (hp.adds h hch.inRange hx) c₀ hch
    hpart
  obtain ⟨r, e', s', hrun, hkept⟩ := hN (max N N') (Nat.le_max_left _ _)
  obtain ⟨s'', hrun', hd⟩ := hN' (max N N') (Nat.le_max_right _ _) s rfl
  rw [hrun'] at hrun
  obtain ⟨hre, rfl⟩ := Prod.mk.inj hrun
  obtain ⟨rfl, rfl⟩ := Prod.mk.inj (Outcome.value.inj hre)
  obtain ⟨pre', a, post', k', x', -, hk⟩ := hkept rfl
  have hch₁ := hp.isChain h.toOneSector hch
  have hc := hch₁.inRange c (by simp)
  have hdata : ∀ {b}, g.InRange b → data g s.disk b = data g d₁ b := fun hb =>
    (hp.data_eq h hch.inRange hb).symm
  have hch' : IsChain g s''.disk c₀ (pre ++ c :: post) := by
    rw [hd]
    exact isChain_storedDisk h hc hx hch₁
  have hvac := hp.firstVacant.of_data (hdata hc)
  -- the two places are both the first vacant slot
  obtain ⟨rfl, rfl, rfl⟩ := place_unique (hch'.chain.unique hk.chain.chain)
    (fun b hb => (hp.full b hb).of_data (hdata (hch₁.inRange b (by simp [hb])))) hk.full
    hvac.not_full hk.vacant.not_full
  obtain rfl := hvac.unique hk.vacant
  exact ⟨s'', x', hd, hk⟩

/-- The kept searches, as an equation between search results. -/
theorem Kept.searchResult_eq (h : g.OneSector) (hk : Kept g s s' c₀ l e pre c post k x)
    (hch : IsChain g s.disk c₀ l) (hpart : ∀ a ∈ l, g.OnPartition a)
    (hpart' : ∀ a ∈ pre ++ c :: post, g.OnPartition a) (hname : LegalName name)
    (hne : name ≠ e.fileName) :
    searchResult name (slots g s'.disk (pre ++ c :: post))
      = searchResult name (slots g s.disk l) := by
  obtain ⟨key, hkey, htest, hname'⟩ := searchName_nameText hname
  rw [← hname'] at hne ⊢
  refine (searches_iff h hkey hch hpart).mp ?_
  exact (hk.searches _ key _ hkey htest hne).mp ((searches_iff h hkey hk.chain hpart').mpr rfl)

theorem ok_of_insertionKeeps (h : g.IsVolume) (hl : testIfFATFormat e.bytes = 0)
    (hch : IsChain g s.disk c₀ l) (hpart : ∀ a ∈ l, g.OnPartition a)
    (hkeep : InsertionKeeps g s c₀ l e) : InsertionOk g s.disk l e := by
  have hlegal := legalName_of_test hl
  have hsector : ∀ pre c post k x, l = pre ++ c :: post → (∀ a ∈ pre, Full g s.disk a) →
      FirstVacant g s.disk c k → IsFirstFree g s.disk x → ∀ j < 16, j ≠ k →
      DirectoryEntry.at_ (markedSector g s.disk x) (32 * j) = slot g s.disk c j := by
    intro pre c post k x hsplit hf hk hx j hj hjk
    subst hsplit
    obtain ⟨s', x', hd, hkept⟩ := hkeep.kept h hl hch hpart (.here hf hk) hx
    have hother := hkept.others c (by simp) j hj fun e => hjk e.2
    rwa [hd, slot_storedDisk_other hj hjk] at hother
  refine ⟨hsector, ?_, ?_⟩
  · intro pre c post k x hsplit hf hk hx hend name hname hne
    subst hsplit
    obtain ⟨s', x', hd, hkept⟩ := hkeep.kept h hl hch hpart (.here hf hk) hx
    have hsame := hkept.searchResult_eq h.toOneSector hch hpart hpart hname hne
    rw [hd] at hsame
    exact (searchResult_room_iff h hlegal hch hf hk hx
      (hsector pre c post k x rfl hf hk hx) hname hne).mp hsame hend
  · intro d₁ new c k x hp hx name hname hne
    obtain ⟨s', x', hd, hkept⟩ := hkeep.kept h hl hch hpart hp hx
    have hsame := hkept.searchResult_eq h.toOneSector hch hpart (hp.onPartition hpart) hname hne
    rw [hd] at hsame
    -- the directory has grown, so it was full
    rcases hp.room_or_grown h hch.inRange with ⟨-, hlen⟩ | ⟨-, -, hf⟩
    · have := congrArg List.length hlen
      simp only [List.length_append, List.length_cons, List.length_nil] at this
      omega
    · exact (searchResult_grown_iff h hp hch hf hx).mp hsame

end

/-! ### A small volume -/

theorem one_lt_byte : 1 < 2 ^ 8 := by decide

/-- 98 clusters, the root directory in cluster 2, one table sector. -/
def smallVolume : Globals where
  fatType := 32
  firstFatSector := 32
  firstDataSector := 40
  totalClusters := 100
  bytesPerSector := 512
  sectorsPerCluster := 1
  rootCluster := 2
  firstFatSector_lt := twoSectorVolume.firstFatSector_lt
  bytesPerSector_lt := twoSectorVolume.bytesPerSector_lt
  sectorsPerCluster_lt := one_lt_byte
  rootCluster_lt := twoSectorVolume.rootCluster_lt

theorem smallVolume_isVolume : smallVolume.IsVolume where
  bytesPerSector := rfl
  one_le := by decide
  le := by decide
  fatType := rfl
  one := rfl
  numbered := by decide
  addressed := by decide
  table := by decide

/-- A first cluster comes back from its entry exactly when bits 4 to 15 of its
number are zero: the mask is made from the shift, not from the width of the
field. -/
theorem getClusterFromEntry_placeEntry_eq_iff {g : Globals} (h : g.fatType = 32)
    (e : DirectoryEntry) {x : Nat} (hx : x < 0x0FFFFFF0) :
    getClusterFromEntry g (placeEntry g e x) = x ↔ x % 65536 < 16 := by
  rw [getClusterFromEntry_placeEntry h e (hx.trans (by decide))]
  omega

theorem getClusterFromEntry_placeEntry_three :
    getClusterFromEntry smallVolume (placeEntry smallVolume (fun _ => 0) 3) = 3 :=
  (getClusterFromEntry_placeEntry_eq_iff rfl (fun _ => 0) (by decide)).mpr (by decide)

/-- The first cluster number that does not come back is 16. -/
theorem getClusterFromEntry_placeEntry_ne_sixteen :
    smallVolume.fatType = 32 ∧ 2 ≤ 16 ∧ 16 < 0x0FFFFFF0 ∧
      ¬ getClusterFromEntry smallVolume (placeEntry smallVolume (fun _ => 0) 16) = 16 := by
  refine ⟨rfl, by decide, by decide, fun hsame => ?_⟩
  rw [getClusterFromEntry_placeEntry rfl (fun _ => 0) (by decide)] at hsame
  exact absurd hsame (by decide)

/-- A machine whose drive holds the volume with the given table and root
sector. -/
def smallState (fat : Nat → Nat) (root : Mem) : State where
  disk := fun lba =>
    if lba = partStartLba + 32 then fun i => leBytes (fat (i / 4)) (i % 4)
    else if lba = partStartLba + 40 then root
    else fun _ => 0
  mem := fun _ => 0
  tick := 0
  log := []

/-- An entry with eleven times the same letter as name. -/
def letterEntry (b : UInt8) : DirectoryEntry := fun j => if j < 11 then b else 0

/-- The volume with an empty root directory. -/
def emptyState : State := smallState (fun c => if c = 2 then endCluster32 else 0) fun _ => 0

/-- The volume with one file, in cluster 3. -/
def oneFileState : State :=
  smallState (fun c => if c = 2 ∨ c = 3 then endCluster32 else 0)
    ((letterEntry 0x41).setField 26 2 3).bytes

theorem smallState_isChain {s : State} (h : nextCluster smallVolume s.disk 2 = none) :
    IsChain smallVolume s.disk 2 [2] where
  chain := .last h
  inRange a ha := by
    rw [List.mem_singleton.mp ha]
    decide

theorem firstVacant_emptyState : FirstVacant smallVolume emptyState.disk 2 0 :=
  ⟨by decide, by decide, fun _ hj => absurd hj (Nat.not_lt_zero _)⟩

theorem place_emptyState {pre post : List Nat} {c k : Nat} (hsplit : [2] = pre ++ c :: post)
    (hf : ∀ a ∈ pre, Full smallVolume emptyState.disk a)
    (hk : FirstVacant smallVolume emptyState.disk c k) :
    [] = pre ∧ 2 = c ∧ [] = post ∧ 0 = k := by
  have hsplit' : [] ++ 2 :: [] = pre ++ c :: post := hsplit
  obtain ⟨rfl, rfl, rfl⟩ := place_unique hsplit' (by simp) hf firstVacant_emptyState.not_full
    hk.not_full
  exact ⟨rfl, rfl, rfl, firstVacant_emptyState.unique hk⟩

theorem isFirstFree_emptyState : IsFirstFree smallVolume emptyState.disk 3 :=
  ⟨by decide, by decide, fun c h₁ h₂ => by interval_cases c; decide⟩

/-- Behind the first four entries the table of the empty volume is zero. -/
theorem markedSector_emptyState {i : Nat} (h₁ : 32 ≤ i) (h₂ : i < 512) :
    markedSector smallVolume emptyState.disk 3 i = 0 := by
  rw [markedSector, setFat, setEntry, Disk.sector, writeSector_self,
    memcpy_apply_of_mem (Nat.zero_le _) (by omega), Nat.sub_zero,
    memcpy_apply_of_notMem (.inr (Nat.le_trans (by decide) h₁))]
  show leBytes (if i / 4 = 2 then endCluster32 else 0) (i % 4) = 0
  rw [if_neg (by omega), leBytes, Nat.zero_div]
  rfl

end PotatoOS
