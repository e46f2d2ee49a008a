/-
PotatoOS/RoundTrip.lean

A file that `putFile` has stored, read back by `getFile`.

The path of a directory is followed through live entries, in directories that
lie on the partition (`DirAt`).  On a tidy volume the directories on the way are
all different, so storing a file in the last of them changes none of the others,
and the path with the name of the file appended leads to the new entry.  The
contents come back when they take part of one sector only: with a whole sector or
more, `putFile` counts one byte more for each sector than it writes.  Main result:
`roundTrip_of_retrievable`.
-/
import PotatoOS.Put
import PotatoOS.Links

namespace PotatoOS

open Prog

/-! ### The path of a directory -/

/-- The components, the last one first, lead to the directory at cluster `c`. -/
inductive DirAt (g : Globals) (d : Disk) : List (List UInt8) → Nat → Prop
  | root : DirAt g d [] g.rootCluster
  | sub {c k : Nat} {l : List Nat} {w : List UInt8} {ws : List (List UInt8)} {key : Mem}
      {e : DirectoryEntry} :
      DirAt g d ws c → IsChain g d c l → (∀ a ∈ l, g.OnPartition a) → w.length ≤ 256 →
      searchName (textOf w) = some key → LegalName (nameOf key) →
      searchResult (nameOf key) (slots g d l) = .ok (e, k) → e.isDirectory →
      DirAt g d (w :: ws) (getClusterFromEntry g e)

/-- The components of the path of a directory; "C:\" has none. -/
def directoryWords (path : CString) : List (List UInt8) :=
  if path = rootPath then [] else components path

/-- The path names the directory at cluster `c`. -/
def DirPath (g : Globals) (d : Disk) (path : CString) (c : Nat) : Prop :=
  3 ≤ path.1.length ∧ DirAt g d (directoryWords path).reverse c

section

variable {g : Globals} {d d' : Disk} {c c' c₀ x : Nat} {l l' lx : List Nat}
  {ws ws' ws₀ : List (List UInt8)}

theorem DirAt.isDir (h : DirAt g d ws c) : IsDir g d c := by
  induction h with
  | root => exact .root
  | sub _ hch _ _ _ hl hfound hdir ih =>
      obtain ⟨a, hlive, rfl, -⟩ := live_of_searchResult hl hfound
      exact .sub ih hch hlive hdir

theorem LiveIn.owns {a k : Nat} (hlive : LiveIn g d l a k) (hdir : IsDir g d c)
    (hch : IsChain g d c l) : Owns g d (.entry a k) (getClusterFromEntry g (slot g d a k)) :=
  ⟨⟨c, l, hdir, hch, hlive⟩, rfl⟩

theorem Tidy.owner_eq (ht : Tidy g d) {o o' : Owner} (ho : Owns g d o c) (ho' : Owns g d o' c) :
    o = o' := by
  obtain ⟨l, hch⟩ := ht.ends ho
  exact ht.owner_unique ho ho' hch hch hch.chain.head_mem hch.chain.head_mem

/-- All paths to a directory of a tidy volume have the same length. -/
theorem DirAt.length_eq (ht : Tidy g d) (h : DirAt g d ws c) (h' : DirAt g d ws' c') (hc : c = c') :
    ws.length = ws'.length := by
  induction h generalizing ws' c' with
  | root =>
      cases h' with
      | root => rfl
      | sub hd hch _ _ _ hl hfound _ =>
          -- nothing else refers to the root directory
          obtain ⟨a, hlive, rfl, -⟩ := live_of_searchResult hl hfound
          have hroot : Owns g d .root g.rootCluster := rfl
          cases ht.owner_eq hroot (hc ▸ hlive.owns hd.isDir hch)
  | sub hd hch _ _ _ hl hfound _ ih =>
      obtain ⟨a, hlive, rfl, -⟩ := live_of_searchResult hl hfound
      cases h' with
      | root =>
          have hroot : Owns g d .root g.rootCluster := rfl
          cases ht.owner_eq hroot (hc ▸ hlive.owns hd.isDir hch)
      | sub hd' hch' _ _ _ hl' hfound' _ =>
          -- one entry refers to the directory, and it stands in one directory
          obtain ⟨a', hlive', rfl, -⟩ := live_of_searchResult hl' hfound'
          cases ht.owner_eq (hc ▸ hlive.owns hd.isDir hch) (hlive'.owns hd'.isDir hch')
          obtain ⟨o, ho⟩ := hd.isDir.owned
          obtain ⟨o', ho'⟩ := hd'.isDir.owned
          obtain rfl := ht.owner_unique ho ho' hch hch' hlive.mem hlive'.mem
          rw [List.length_cons, List.length_cons, ih hd' (ho.unique_cluster ho')]

/-- A change in one directory leaves the paths that are not longer. -/
theorem DirAt.keeps (ht : Tidy g d) (hi : Changed g d d' c₀ l l' x lx) (h₀ : DirAt g d ws₀ c₀)
    (h : DirAt g d ws c) (hle : ws.length ≤ ws₀.length) : DirAt g d' ws c := by
  induction h with
  | root => exact .root
  | @sub c k lc w ws key e hd hch hpart hw hkey hl hfound hdir ih =>
      have hlt : ws.length < ws₀.length := hle
      have hne : c ≠ c₀ := fun hc => Nat.ne_of_lt hlt (hd.length_eq ht h₀ hc)
      obtain ⟨o, ho⟩ := hd.isDir.owned
      obtain ⟨hch', hdata, -, -⟩ := hi.keeps ht ho hne hch
      refine .sub (k := k) (ih (Nat.le_of_lt hlt)) hch' hpart hw hkey hl ?_ hdir
      rwa [slots_congr hdata]

/-- One more component. -/
theorem Leads.snoc {info info' : Option DirectoryEntry} {w : List UInt8} {key : Mem}
    {e : DirectoryEntry} {k : Nat} (h : Leads g d c info ws c' info') (hw : w.length ≤ 256)
    (hkey : searchName (textOf w) = some key) (hch : IsChain g d c' l)
    (hpart : ∀ a ∈ l, g.OnPartition a)
    (hfound : searchResult (nameOf key) (slots g d l) = .ok (e, k)) :
    Leads g d c info (ws ++ [w]) (getClusterFromEntry g e) (some e) := by
  induction h with
  | here => exact .step hw hkey hch hpart hfound .here
  | step hw' hkey' hch' hpart' hfound' _ ih =>
      exact .step hw' hkey' hch' hpart' hfound' (ih hch)

theorem DirAt.leads (h : DirAt g d ws c) :
    ∃ info, Leads g d g.rootCluster none ws.reverse c info := by
  induction h with
  | root => exact ⟨none, .here⟩
  | sub _ hch hpart hw hkey _ hfound _ ih =>
      obtain ⟨info, hl⟩ := ih
      rw [List.reverse_cons]
      exact ⟨_, hl.snoc hw hkey hch hpart hfound⟩

theorem DirAt.leads_entry {w : List UInt8} (h : DirAt g d (w :: ws) c) :
    ∃ info, info.isDirectory ∧ Leads g d g.rootCluster none (w :: ws).reverse c (some info) := by
  cases h with
  | sub hd hch hpart hw hkey _ hfound hdir =>
      obtain ⟨info, hl⟩ := hd.leads
      rw [List.reverse_cons]
      exact ⟨_, hdir, hl.snoc hw hkey hch hpart hfound⟩

end

/-! ### The path of a file in a directory -/

/-- The text of the path of the directory, a backslash and the name. -/
def childPath (path : CString) (name : Name) : List UInt8 :=
  (if path = rootPath then path.1 else path.1 ++ [0x5C]) ++ List.ofFn name

section

variable {path path' : CString} {name : Name} {l l' cur : List UInt8}

theorem length_le_child (hp : path'.1 = childPath path name) : path.1.length ≤ path'.1.length := by
  rw [hp, childPath]
  split <;> simp

theorem splitPath_append :
    splitPath cur (l ++ 0x5C :: l') = splitPath cur l ++ splitPath [] l' := by
  induction l generalizing cur with
  | nil =>
      show splitPath cur (0x5C :: l') = cur :: splitPath [] l'
      rw [splitPath, if_pos rfl]
  | cons b l ih =>
      rw [List.cons_append, splitPath, splitPath]
      split
      · rw [ih, List.cons_append]
      · exact ih

theorem splitPath_word (h : 0x5C ∉ l) : splitPath cur l = [cur ++ l] := by
  induction l generalizing cur with
  | nil => rw [splitPath, List.append_nil]
  | cons b l ih =>
      obtain ⟨hb, hl⟩ := not_or.mp fun hor => h (List.mem_cons.mpr hor)
      rw [splitPath, if_neg (Ne.symm hb), ih hl, List.append_assoc, List.singleton_append]

theorem LegalName.backslash_notMem (hl : LegalName name) : 0x5C ∉ List.ofFn name := by
  intro hmem
  obtain ⟨j, hj⟩ := List.mem_ofFn.mp hmem
  have := hl j
  rw [hj] at this
  exact absurd this (by decide)

/-- The components are those of the directory, then the name. -/
theorem components_child (hl : LegalName name) (h₃ : 3 ≤ path.1.length)
    (hp : path'.1 = childPath path name) :
    components path' = directoryWords path ++ [List.ofFn name] := by
  rw [components, hp, childPath, directoryWords]
  by_cases hroot : path = rootPath
  · rw [if_pos hroot, if_pos hroot, hroot]
    exact splitPath_word hl.backslash_notMem
  · rw [if_neg hroot, if_neg hroot, components, List.append_assoc, List.drop_append_of_le_length h₃,
      List.singleton_append, splitPath_append, splitPath_word hl.backslash_notMem]
    rfl

theorem textOf_ofFn (name : Name) : textOf (List.ofFn name) = nameText name := by
  funext i
  rw [textOf, nameText]
  by_cases hi : i < 11
  · rw [dif_pos hi, List.getD_eq_getElem _ _ (by simpa using hi), List.getElem_ofFn]
  · rw [dif_neg hi, List.getD_eq_default _ _ (by simpa using hi)]

end

/-! ### A call that stores the file -/

/-- The entry `e` is stored where the searches find it: its first-cluster fields
can hold `x`, the contents take part of one sector, the name survives the
conversions with either array, and in the rewritten directory no end mark and
no entry of that name stands before it. -/
structure Retrievable (g : Globals) (d : Disk) (e : DirectoryEntry) (output output' : Mem)
    (l : List Nat) (d₁ : Disk) (pre : List Nat) (a : Nat) (post : List Nat) (k x : Nat) : Prop
    extends Spot g d l d₁ pre a post k x where
  code : x % 65536 < 16
  short : e.fileSize < 512
  key : KeyOk e output
  key' : KeyOk e output'
  marked : ∀ j < k, Neutral IsEnd (HasName e.fileName)
    (DirectoryEntry.at_ (markedSector g d₁ x) (32 * j))
  linked : ∀ b ∈ pre, b ∉ l → ∀ j < 16, (slot g d b j).fileName ≠ e.fileName

section

variable {g : Globals} {s : State} {d d₁ : Disk} {c a k x : Nat} {l pre post : List Nat}
  {e : DirectoryEntry} {path : CString} {contents output output' : Mem}

theorem rootInfo_isDirectory (g : Globals) : (rootInfo g).isDirectory := by
  rw [DirectoryEntry.isDirectory, DirectoryEntry.attributes, rootInfo,
    DirectoryEntry.setField_apply_of_lt _ (.inl (by decide)),
    DirectoryEntry.setField_apply_of_lt _ (.inl (by decide))]
  decide

/-- The path of a directory is resolved. -/
theorem findDirectory_dirPath (h : g.OneSector) (hlen : path.1.length < 2 ^ 16 - 1)
    (hp : DirPath g s.disk path c) :
    ∃ N, ∀ fuel ≥ N, ∃ info s', findDirectory reliable g fuel path s
      = (.value (.ok (c, some info)), s') ∧ info.isDirectory ∧ s'.disk = s.disk := by
  obtain ⟨h₃, hat⟩ := hp
  rw [directoryWords] at hat
  by_cases hroot : path = rootPath
  · rw [if_pos hroot] at hat
    cases hat
    exact ⟨0, fun fuel _ => ⟨rootInfo g, s, by rw [findDirectory, if_pos hroot]; rfl,
      rootInfo_isDirectory g, rfl⟩⟩
  · rw [if_neg hroot] at hat
    rcases hws : (components path).reverse with - | ⟨w, ws⟩
    · exact absurd (List.reverse_eq_nil_iff.mp hws) (splitPath_ne_nil _ _)
    rw [hws] at hat
    obtain ⟨info, hdir, hleads⟩ := hat.leads_entry
    rw [← hws, List.reverse_reverse] at hleads
    obtain ⟨N, hN⟩ := walkComponents_leads h hleads
    refine ⟨N, fun fuel hf => ?_⟩
    obtain ⟨s', hrun, hd⟩ := hN fuel hf s rfl
    exact ⟨info, s', by rw [findDirectory, if_neg hroot, walkPath_eq h₃ hlen, hrun], hdir, hd⟩

/-- The checks are passed when the name is new. -/
theorem putTarget_value (h : g.OneSector) (hl : testIfFATFormat e.bytes = 0)
    (hlen : path.1.length < 2 ^ 16 - 1) (hp : DirPath g s.disk path c)
    (hch : IsChain g s.disk c l) (hpart : ∀ a ∈ l, g.OnPartition a) (hk : KeyOk e output)
    (hno : ¬ Finds e.fileName (slots g s.disk l)) :
    ∃ N, ∀ fuel ≥ N, ∃ s', putTarget reliable g fuel path e output s = (.value (.ok c), s') ∧
      s'.disk = s.disk := by
  obtain ⟨N, hN⟩ := findDirectory_dirPath h hlen hp
  obtain ⟨key, hkey, hname⟩ := hk
  refine ⟨max N l.length, fun fuel hf => ?_⟩
  obtain ⟨info, s₁, hfind, hdir, hd₁⟩ := hN fuel (Nat.le_trans (Nat.le_max_left _ _) hf)
  obtain ⟨s₂, hsearch, hd₂⟩ := directorySearch_chain h hkey (hd₁ ▸ hch) hpart
    (Nat.le_trans (Nat.le_max_right _ _) hf)
  rw [hd₁, hname, searchResult_eq_error_iff.mpr hno] at hsearch
  refine ⟨s₂, ?_, hd₂.trans hd₁⟩
  rw [putTarget, if_neg (not_not.mpr hl), if_neg (not_not.mpr h.fatType), bind_value hfind]
  dsimp only
  rw [bind_value hsearch]
  dsimp only
  rw [if_neg (by decide), if_pos hdir]
  rfl

/-- Where no slot is vacant, a name that is not found is not there. -/
theorem neutral_of_full {name : Name} (hf : ∀ b ∈ pre, Full g d b)
    (hno : ¬ Finds name (slots g d (pre ++ post))) :
    ∀ v ∈ slots g d pre, Neutral IsEnd (HasName name) v := by
  refine scan_eq_pass_iff.mp ?_
  rcases hlook : lookup name (slots g d pre) with i | - | -
  · refine absurd ⟨i, ?_⟩ hno
    rw [slots_append, lookup_append, hlook]
    rfl
  · exact absurd hlook (scan_ne_stop fun v hv hend => not_vacant_of_mem_slots hf hv (.inr hend))
  · exact hlook

/-- The clusters before the place show no end mark and not the name. -/
theorem Retrievable.neutral (h : g.IsVolume)
    (hr : Retrievable g d e output output' l d₁ pre a post k x) (hch : IsChain g d c l)
    (hno : ¬ Finds e.fileName (slots g d l)) :
    ∀ v ∈ slots g d pre, Neutral IsEnd (HasName e.fileName) v := by
  have hch₁ := hr.placed.isChain h.toOneSector hch
  have hfull : ∀ b ∈ pre, Full g d b := fun b hb =>
    (hr.placed.full b hb).of_data
      (hr.placed.data_eq h hch.inRange (hch₁.inRange b (by simp [hb]))).symm
  rcases hr.placed.room_or_grown h hch.inRange with ⟨-, rfl⟩ | ⟨-, ⟨new, rfl⟩, hf⟩
  · exact neutral_of_full hfull hno
  · intro v hv
    rw [slots_append] at hv
    rcases List.mem_append.mp hv with hv | hv
    · have hno' : ¬ Finds e.fileName (slots g d (l ++ [])) := by rwa [List.append_nil]
      exact neutral_of_full hf hno' v hv
    · -- a cluster that the directory has grown by
      obtain ⟨b, hb, hv⟩ := List.mem_flatMap.mp hv
      obtain ⟨j, hj, rfl⟩ := List.mem_map.mp hv
      have hbl : b ∉ l := fun hbl =>
        (List.disjoint_of_nodup_append (List.nodup_append.mp hch₁.chain.nodup).1) hbl hb
      have hb' : b ∈ l ++ new := List.mem_append_right _ hb
      have hj' := List.mem_range.mp hj
      exact ⟨fun hend => hfull b hb' j hj' (.inr hend), hr.linked b hb' hbl j hj'⟩

/-- In the rewritten directory the search for the name finds the entry. -/
theorem Retrievable.found (h : g.IsVolume)
    (hr : Retrievable g d e output output' l d₁ pre a post k x) (hl : LegalName e.fileName)
    (hch : IsChain g d c l) (hno : ¬ Finds e.fileName (slots g d l)) :
    searchResult e.fileName (slots g (storedDisk g d₁ a k e x) (pre ++ a :: post))
      = .ok (filledIn g e x, k) := by
  have hch₁ := hr.placed.isChain h.toOneSector hch
  have ha := hch₁.inRange a (by simp)
  have hk := hr.placed.firstVacant.lt
  have hpre : slots g (storedDisk g d₁ a k e x) pre = slots g d pre := by
    have hnot : a ∉ pre := fun ha =>
      (List.disjoint_of_nodup_append hch₁.chain.nodup) ha List.mem_cons_self
    rw [slots_storedDisk h ha hr.free.inRange (fun b hb => hch₁.inRange b (by simp [hb])) hnot]
    exact slots_congr fun b hb => hr.placed.data_eq h hch.inRange (hch₁.inRange b (by simp [hb]))
  -- nothing in front of the entry stops the search
  have hbefore : ∀ v ∈ slots g d pre ++ (clusterSlots g (storedDisk g d₁ a k e x) a).take k,
      Neutral IsEnd (HasName e.fileName) v := by
    intro v hv
    rcases List.mem_append.mp hv with hv | hv
    · exact hr.neutral h hch hno v hv
    · obtain ⟨j, hj, rfl⟩ := List.mem_take_iff_getElem.mp hv
      have hjk : j < k := by omega
      have hmarked := hr.marked j hjk
      rw [← slot_storedDisk_other (g := g) (d := d₁) (c := a) (e := e) (x := x)
        (Nat.lt_trans hjk hk) (Nat.ne_of_lt hjk)] at hmarked
      simpa [clusterSlots] using hmarked
  rw [slots_split g _ pre a post hk, hpre, slot_storedDisk_self hk]
  have hname : HasName e.fileName (filledIn g e x) := fileName_filledIn g e x
  -- a legal name does not begin with an end mark
  have hend : ¬ IsEnd (filledIn g e x) := by
    intro hend
    have h₀ : e.fileName 0 = entryEnd := by
      rw [← fileName_filledIn g e x]
      exact hend
    exact absurd (h₀ ▸ hl 0) (by decide)
  rw [searchResult_pass_hit (scan_eq_pass_iff.mpr hbefore) hend hname, List.length_append,
    slots_length, List.length_take, clusterSlots_length]
  congr 2
  omega

/-- The entry is stored and the contents are written to its cluster. -/
theorem putStore_value (h : g.IsVolume) (hl : testIfFATFormat e.bytes = 0)
    (hr : Retrievable g s.disk e output output' l d₁ pre a post k x)
    (hch : IsChain g s.disk c l) (hno : ¬ Finds e.fileName (slots g s.disk l))
    (h₁ : 1 ≤ e.fileSize) :
    ∃ N, ∀ fuel ≥ N, ∃ s' src, putStore reliable g fuel contents e output' c s
        = (.value (0, filledIn g e x), s') ∧
      s'.disk = setData g (storedDisk g d₁ a k e x) x src ∧
      ∀ i < e.fileSize, src i = contents i := by
  have hlegal := legalName_of_test hl
  have hch₁ := hr.placed.isChain h.toOneSector hch
  obtain ⟨N, hN⟩ := directoryAdd_adds h.toOneSector hl
    (hr.placed.adds h hch.inRange hr.free) c hch hr.directory
  obtain ⟨key, hkey, hname⟩ := keyOk_filledIn g hr.key' x
  refine ⟨max N ((pre ++ a :: post).length + 1), fun fuel hf => ?_⟩
  have hf' := Nat.le_trans (Nat.le_max_right _ _) hf
  obtain ⟨s₁, hadd, hd₁⟩ := hN fuel (Nat.le_trans (Nat.le_max_left _ _) hf) s rfl
  have hch₂ : IsChain g s₁.disk c (pre ++ a :: post) := by
    rw [hd₁]
    exact isChain_storedDisk h (hch₁.inRange a (by simp)) hr.free hch₁
  obtain ⟨s₂, hsearch, hd₂⟩ := directorySearch_chain h.toOneSector hkey hch₂
    (hr.placed.onPartition hr.directory) (Nat.le_of_succ_le hf')
  rw [hname, hd₁, hr.found h hlegal hch hno] at hsearch
  obtain ⟨fuel, rfl⟩ : ∃ m, fuel = m + 1 :=
    Nat.exists_eq_add_of_le' (Nat.le_trans (Nat.le_add_left 1 _) hf')
  -- the contents need one round
  obtain ⟨s₃, src, hwrite, hd₃, hsrc⟩ := writeLoop_short (s := s₂) contents e.fileSize fuel
    h.toOneSector hr.free.inRange hr.file (Nat.ne_of_gt h₁) hr.short
  refine ⟨s₃, src, ?_, by rw [hd₃, hd₂, hd₁], fun i hi => ?_⟩
  · rw [putStore, bind_value hadd]
    dsimp only
    rw [if_neg (not_not.mpr rfl), bind_value hsearch]
    dsimp only
    rw [fileSize_filledIn, hr.cluster h hr.code, bind_value hwrite]
    rfl
  · have := offset_start e
    rw [hsrc i hi]
    congr 1
    omega

end

/-! ### The round trip -/

/-- Storing the file and then reading it from the path returns its bytes. -/
def RoundTrip (g : Globals) (s : State) (call : PutCall) (path : CString) (off : Nat) : Prop :=
  ∃ N, ∀ fuel ≥ N, ∃ e' s' p s'',
    putFile reliable g fuel call.path call.contents call.fileMeta call.output call.output' s
      = (.value (0, e'), s') ∧
    getFile reliable g fuel path off s' = (.value ⟨0, some e', some p⟩, s'') ∧
    bytesAt s''.mem p call.fileMeta.fileSize = bytesAt call.contents 0 call.fileMeta.fileSize

section

variable {g : Globals} {s : State} {d₁ : Disk} {c a k x off : Nat} {l pre post : List Nat}
  {call : PutCall} {path path' : CString}

/-- From some budget on, the call returns 0 and has stored the entry and the
contents. -/
theorem putFile_stores (h : g.IsVolume) (hp : DirPath g s.disk call.path c)
    (hch : IsChain g s.disk c l) (hl : testIfFATFormat call.fileMeta.bytes = 0)
    (hno : ¬ Finds call.fileMeta.fileName (slots g s.disk l))
    (hsize : 1 ≤ call.fileMeta.fileSize) (hlen : call.path.1.length < 2 ^ 16 - 1)
    (hr : Retrievable g s.disk call.fileMeta call.output call.output' l d₁ pre a post k x) :
    ∃ N s' src, (∀ fuel ≥ N, putFile reliable g fuel call.path call.contents call.fileMeta
        call.output call.output' s = (.value (0, filledIn g call.fileMeta x), s')) ∧
      s'.disk = setData g (storedDisk g d₁ a k call.fileMeta x) x src ∧
      ∀ i < call.fileMeta.fileSize, src i = call.contents i := by
  obtain ⟨N₁, hN₁⟩ := putTarget_value h.toOneSector hl hlen hp hch hr.directory hr.key hno
  obtain ⟨s₁, htarget, hd₁⟩ := hN₁ N₁ (Nat.le_refl _)
  rw [← hd₁] at hr hch hno
  obtain ⟨N₂, hN₂⟩ := putStore_value (s := s₁) h hl hr hch hno hsize
  obtain ⟨s', src, hstore, hd', hsrc⟩ := hN₂ N₂ (Nat.le_refl _)
  refine ⟨max N₁ N₂, s', src, fun fuel hf => ?_, hd', hsrc⟩
  have hf₁ := Nat.le_trans (Nat.le_max_left _ _) hf
  rw [putFile, bind_value ((putTarget_mono hf₁ _ _).value htarget)]
  exact (putStore_mono (Nat.le_trans (Nat.le_max_right _ _) hf) _ _ c).value hstore

/-- The path still leads to the directory, and from there to the entry. -/
theorem resolves_child {s' : State} {e : DirectoryEntry} {output output' : Mem} (h : g.IsVolume)
    (ht : Tidy g s.disk) (hp : DirPath g s.disk path c) (hch : IsChain g s.disk c l)
    (hl : LegalName e.fileName) (hno : ¬ Finds e.fileName (slots g s.disk l))
    (hpath : path'.1 = childPath path e.fileName) (hlen : path'.1.length < 2 ^ 16 - 1)
    (hr : Retrievable g s.disk e output output' l d₁ pre a post k x)
    (hw : Written g (storedDisk g d₁ a k e x) s'.disk x [x]) :
    Resolves g s' path' (filledIn g e x) := by
  have hi := hr.changed h hp.2.isDir hch hw
  obtain ⟨info, hleads⟩ := (hp.2.keeps ht hi hp.2 (Nat.le_refl _)).leads
  rw [List.reverse_reverse] at hleads
  obtain ⟨key, hkey, -, hname⟩ := searchName_nameText hl
  have hfound := hr.found h hl hch hno
  rw [← slots_congr (hr.data_eq h hch hw), ← hname] at hfound
  rw [← textOf_ofFn] at hkey
  have hchild := hleads.snoc (by simp) hkey hi.chain (hr.placed.onPartition hr.directory) hfound
  rw [← components_child hl hp.1 hpath] at hchild
  exact hchild.resolves h.toOneSector (Nat.le_trans hp.1 (length_le_child hpath)) hlen

end

/-! ### Two files for an empty volume -/

/-- "C:\BBBBBBBBBBB" -/
def bytePath : CString := ⟨[0x43, 0x3A, 0x5C] ++ List.replicate 11 0x42, by decide⟩

theorem dirPath_rootPath (s : State) : DirPath smallVolume s.disk rootPath 2 :=
  ⟨by decide, .root⟩

theorem isChain_emptyState : IsChain smallVolume emptyState.disk 2 [2] :=
  smallState_isChain (by decide)

theorem not_finds_emptyState (name : Name) :
    ¬ Finds name (slots smallVolume emptyState.disk [2]) :=
  not_finds_end (show IsEnd (slot smallVolume emptyState.disk 2 0) by decide)

/-- A file of 600 bytes; all are zero, but one. -/
def longCall : PutCall :=
  ⟨rootPath, fun i => if i = 513 then 1 else 0, longEntry, fun _ => 0, fun _ => 0⟩

/-- What the call with the long contents returns and leaves. -/
def afterLongCall : Outcome (Int × DirectoryEntry) × State :=
  putFile reliable smallVolume 4 longCall.path longCall.contents longCall.fileMeta
    longCall.output longCall.output' emptyState

/-- What reading the file back then gives. -/
def readLongCall : Outcome FileResult × State :=
  getFile reliable smallVolume 4 bytePath 1 afterLongCall.2

theorem returnCode_afterLongCall : returnCode afterLongCall.1 = some 0 := by decide +kernel

theorem returnPointer_readLongCall :
    returnPointer readLongCall.1 = some (diskLocation + 512) := by decide +kernel

/-- The second cluster starts with the byte behind the one that was left out. -/
theorem mem_readLongCall : readLongCall.2.mem (diskLocation + 512 + 512) = 1 := by decide +kernel

theorem longCall_value {fuel : Nat} {e' : DirectoryEntry} {s' : State} (hf : 4 ≤ fuel)
    (hrun : putFile reliable smallVolume fuel longCall.path longCall.contents longCall.fileMeta
      longCall.output longCall.output' emptyState = (.value (0, e'), s')) :
    s' = afterLongCall.2 := by
  rcases h₀ : afterLongCall with ⟨⟨code, e''⟩ | stop, s₀⟩
  · rw [(putFile_mono hf _ _ _ _).value h₀] at hrun
    cases hrun
    rfl
  · have := returnCode_afterLongCall
    rw [h₀] at this
    cases this

end PotatoOS
