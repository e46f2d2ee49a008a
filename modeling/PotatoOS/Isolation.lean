/-
PotatoOS/Isolation.lean

Files that a run of `putFile` calls does not disturb.

Storing an entry rewrites the sector of the directory that it goes to, and the
other entries of that sector can be lost.  Everywhere else nothing is lost: a
file whose path leads through none of the directories that the calls go to is
read back unchanged after any run of calls.

`Visits` follows a path and notes the directories that it is looked up in;
`FileAt` adds the file at its end.  One call changes one directory and some
clusters that were free (`putFile_effect_at`), so it keeps both, as long as that
directory is not on the path (`FileAt.keeps`).  Main results:
`getFile_isolated`, and `putFile_durable` for a file that has just been stored.
-/
import PotatoOS.RoundTrip

namespace PotatoOS

open Prog

/-! ### The directories of a path -/

/-- The components, the last one first, lead to the directory at cluster `c`, by
way of the directories at the clusters `cs`, which lie on the partition. -/
inductive Visits (g : Globals) (d : Disk) : List (List UInt8) → Nat → List Nat → Prop
  | root : Visits g d [] g.rootCluster [g.rootCluster]
  | sub {c k : Nat} {l cs : List Nat} {w : List UInt8} {ws : List (List UInt8)} {key : Mem}
      {e : DirectoryEntry} :
      Visits g d ws c cs → IsChain g d c l → (∀ a ∈ l, g.OnPartition a) → w.length ≤ 256 →
      searchName (textOf w) = some key → LegalName (nameOf key) →
      searchResult (nameOf key) (slots g d l) = .ok (e, k) → e.isDirectory →
      Visits g d (w :: ws) (getClusterFromEntry g e) (getClusterFromEntry g e :: cs)

/-- The path leads to the file with entry `e` and the clusters `lf`, by way of
the directories at the clusters `cs`; all of them lie on the partition. -/
inductive FileAt (g : Globals) (d : Disk) (path : CString) (cs : List Nat) (e : DirectoryEntry)
    (lf : List Nat) : Prop
  | mk {c k : Nat} {l : List Nat} {w : List UInt8} {ws : List (List UInt8)} {key : Mem} :
      components path = (w :: ws).reverse → Visits g d ws c cs → IsChain g d c l →
      (∀ a ∈ l, g.OnPartition a) → w.length ≤ 256 → searchName (textOf w) = some key →
      LegalName (nameOf key) → searchResult (nameOf key) (slots g d l) = .ok (e, k) →
      ¬e.isDirectory → IsChain g d (getClusterFromEntry g e) lf →
      (∀ a ∈ lf, g.OnPartition a) → FileAt g d path cs e lf

section

variable {g : Globals} {d d' : Disk} {c c₀ x : Nat} {l l' lx cs lf : List Nat}
  {ws : List (List UInt8)} {path : CString} {e : DirectoryEntry}

theorem Visits.dirAt (h : Visits g d ws c cs) : DirAt g d ws c := by
  induction h with
  | root => exact .root
  | sub _ hch hpart hw hkey hl hfound hdir ih => exact .sub ih hch hpart hw hkey hl hfound hdir

theorem Visits.mem (h : Visits g d ws c cs) : c ∈ cs := by
  cases h with
  | root => exact List.mem_cons_self ..
  | sub => exact List.mem_cons_self ..

/-- A directory is not the file of an entry. -/
theorem IsDir.ne_file (ht : Tidy g d) {a k : Nat} (hlive : LiveAt g d a k)
    (hfile : ¬(slot g d a k).isDirectory) (hdir : IsDir g d c) :
    getClusterFromEntry g (slot g d a k) ≠ c := by
  rintro rfl
  have hown : Owns g d (.entry a k) (getClusterFromEntry g (slot g d a k)) := ⟨hlive, rfl⟩
  generalize hb : getClusterFromEntry g (slot g d a k) = b at hdir hown
  cases hdir with
  | root => cases ht.owner_eq (o := .root) rfl hown
  | sub hd hch hlive' hdir' =>
      cases ht.owner_eq (hlive'.owns hd hch) hown
      exact hfile hdir'

/-! ### One call -/

theorem Visits.keeps (ht : Tidy g d) (hi : Changed g d d' c₀ l l' x lx) (h : Visits g d ws c cs)
    (hne : c₀ ∉ cs) : Visits g d' ws c cs := by
  induction h with
  | root => exact .root
  | @sub c k lc cs w ws key e hv hch hpart hw hkey hl hfound hdir ih =>
      have hcs : c₀ ∉ cs := fun hmem => hne (List.mem_cons_of_mem _ hmem)
      obtain ⟨o, ho⟩ := hv.dirAt.isDir.owned
      obtain ⟨hch', hdata, -, -⟩ := hi.keeps ht ho (fun hc => hcs (hc ▸ hv.mem)) hch
      refine .sub (k := k) (ih hcs) hch' hpart hw hkey hl ?_ hdir
      rwa [slots_congr hdata]

/-- A change in a directory that is not on the path leaves the file and its
contents. -/
theorem FileAt.keeps (ht : Tidy g d) (hi : Changed g d d' c₀ l l' x lx)
    (h : FileAt g d path cs e lf) (hne : c₀ ∉ cs) :
    FileAt g d' path cs e lf ∧ ∀ a ∈ lf, data g d' a = data g d a := by
  obtain @⟨c, k, lc, w, ws, key, hpath, hv, hch, hpart, hw, hkey, hl, hfound, hfile, hchf,
    hpartf⟩ := h
  obtain ⟨o, ho⟩ := hv.dirAt.isDir.owned
  obtain ⟨hch', hdata, -, -⟩ := hi.keeps ht ho (fun hc => hne (hc ▸ hv.mem)) hch
  -- the entry refers to the chain of the file, which is no directory
  obtain ⟨a, hlive, rfl, -⟩ := live_of_searchResult hl hfound
  have hlive' : LiveAt g d a k := ⟨c, lc, hv.dirAt.isDir, hch, hlive⟩
  have hown : Owns g d (.entry a k) (getClusterFromEntry g (slot g d a k)) := ⟨hlive', rfl⟩
  obtain ⟨hchf', hdataf, -, -⟩ := hi.keeps ht hown (hi.dir.ne_file ht hlive' hfile) hchf
  refine ⟨.mk (k := k) hpath (hv.keeps ht hi hne) hch' hpart hw hkey hl ?_ hfile hchf' hpartf,
    hdataf⟩
  rwa [slots_congr hdata]

theorem FileAt.resolves {s : State} (h : g.OneSector) (h₃ : 3 ≤ path.1.length)
    (hlen : path.1.length < 2 ^ 16 - 1) (hf : FileAt g s.disk path cs e lf) :
    Resolves g s path e := by
  obtain ⟨hpath, hv, hch, hpart, hw, hkey, -, hfound, -, -, -⟩ := hf
  obtain ⟨info, hleads⟩ := hv.dirAt.leads
  have hall := hleads.snoc hw hkey hch hpart hfound
  rw [← List.reverse_cons, ← hpath] at hall
  exact hall.resolves h h₃ hlen

/-! ### Runs -/

/-- One call in order, that goes to none of these directories. -/
def PutAway (g : Globals) (cs : List Nat) (s s' : State) : Prop :=
  ∃ call code, PutOk g s call ∧ PutCall.Returns call g s code s' ∧
    ∀ c ∈ cs, ¬Target g s call.path c

theorem PutAway.step {s s' : State} (h : PutAway g cs s s') : PutStep g s s' := by
  obtain ⟨call, code, hok, hret, -⟩ := h
  exact ⟨call, code, hok, hret⟩

theorem PutAway.fileAt {s s' : State} (h : g.IsVolume) (ht : Tidy g s.disk)
    (hstep : PutAway g cs s s') (hf : FileAt g s.disk path cs e lf) :
    FileAt g s'.disk path cs e lf ∧ ∀ a ∈ lf, data g s'.disk a = data g s.disk a := by
  obtain ⟨call, code, hok, hret, haway⟩ := hstep
  rcases putFile_effect_at h ht hok hret with hsame | ⟨c, l, l', a, k, x, lx, hi, -, htarget⟩
  · rw [hsame]
    exact ⟨hf, fun _ _ => rfl⟩
  · exact hf.keeps ht hi.toChanged fun hmem => haway c hmem htarget

theorem fileAt_of_run {s s' : State} (h : g.IsVolume) (ht : Tidy g s.disk)
    (hf : FileAt g s.disk path cs e lf) (hrun : Relation.ReflTransGen (PutAway g cs) s s') :
    Tidy g s'.disk ∧ FileAt g s'.disk path cs e lf ∧
      ∀ a ∈ lf, data g s'.disk a = data g s.disk a := by
  induction hrun with
  | refl => exact ⟨ht, hf, fun _ _ => rfl⟩
  | tail _ hstep ih =>
      obtain ⟨ht₁, hf₁, hdata₁⟩ := ih
      obtain ⟨hf₂, hdata₂⟩ := hstep.fileAt h ht₁ hf₁
      exact ⟨hstep.step.tidy h ht₁, hf₂, fun a ha => (hdata₂ a ha).trans (hdata₁ a ha)⟩

/-- A file is read as before after any run of calls that go to other directories
than those on its path. -/
theorem getFile_isolated {s s' : State} {off : Nat} (h : g.IsVolume) (hwf : WellFormed g s.disk)
    (hroot : RootApart g s.disk) (hf : FileAt g s.disk path cs e lf)
    (hrun : Relation.ReflTransGen (PutAway g cs) s s') (h₃ : 3 ≤ path.1.length)
    (hlen : path.1.length < 2 ^ 16 - 1) (hoff : 1 ≤ off)
    (hfit : (off + lf.length) * 512 ≤ 262144) (hsize : off * 512 + e.fileSize ≤ 262144) :
    ∃ N, ∀ fuel ≥ N, ∃ p s₁ s₂,
      getFile reliable g fuel path off s = (.value ⟨0, some e, some p⟩, s₁) ∧
      getFile reliable g fuel path off s' = (.value ⟨0, some e, some p⟩, s₂) ∧
      bytesAt s₂.mem p (lf.length * 512) = bytesAt s₁.mem p (lf.length * 512) := by
  obtain ⟨-, hf', hdata⟩ := fileAt_of_run h (tidy_iff.mpr ⟨hwf, hroot⟩) hf hrun
  have hres := hf.resolves h.toOneSector h₃ hlen
  have hres' := hf'.resolves h.toOneSector h₃ hlen
  obtain ⟨-, -, -, -, -, -, -, -, hfile, hch, hpart⟩ := hf
  obtain ⟨-, -, -, -, -, -, -, -, -, hch', -⟩ := hf'
  obtain ⟨N, hN⟩ := getFile_chain h.toOneSector hres hfile hch hpart hoff hfit hsize
  obtain ⟨N', hN'⟩ := getFile_chain h.toOneSector hres' hfile hch' hpart hoff hfit hsize
  refine ⟨max N N', fun fuel hfuel => ?_⟩
  obtain ⟨s₁, hget, hbytes⟩ := hN fuel (Nat.le_trans (Nat.le_max_left _ _) hfuel)
  obtain ⟨s₂, hget', hbytes'⟩ := hN' fuel (Nat.le_trans (Nat.le_max_right _ _) hfuel)
  refine ⟨_, s₁, s₂, hget, hget', ?_⟩
  rw [hbytes, hbytes']
  exact List.flatMap_congr fun a ha => congrArg (fun m => bytesAt m 0 512) (hdata a ha)

end

/-! ### A file that has just been stored -/

section

variable {g : Globals} {d d' : Disk} {c x a k off : Nat} {l l' lx cs pre post : List Nat}
  {ws : List (List UInt8)} {path : CString} {s : State} {call : PutCall} {d₁ : Disk}

/-- The directories on the way have shorter paths. -/
theorem Visits.shorter (h : Visits g d ws c cs) {b : Nat} (hb : b ∈ cs) :
    ∃ ws', DirAt g d ws' b ∧ ws'.length ≤ ws.length := by
  induction h with
  | root =>
      obtain rfl := List.mem_singleton.mp hb
      exact ⟨[], .root, Nat.le_refl _⟩
  | sub hv hch hpart hw hkey hl hfound hdir ih =>
      rcases List.mem_cons.mp hb with rfl | hb
      · exact ⟨_, .sub hv.dirAt hch hpart hw hkey hl hfound hdir, Nat.le_refl _⟩
      · obtain ⟨ws', hat, hle⟩ := ih hb
        exact ⟨ws', hat, Nat.le_succ_of_le hle⟩

/-- A change in the last directory leaves the path that leads to it. -/
theorem Visits.keeps_last (ht : Tidy g d) (hi : Changed g d d' c l l' x lx)
    (h : Visits g d ws c cs) : Visits g d' ws c cs := by
  have hat := h.dirAt
  cases h with
  | root => exact .root
  | @sub b k lb cs w ws key e hv hch hpart hw hkey hl hfound hdir =>
      have hnot : getClusterFromEntry g e ∉ cs := by
        intro hmem
        obtain ⟨ws', hat', hle⟩ := hv.shorter hmem
        have hlen := hat.length_eq ht hat' rfl
        rw [List.length_cons] at hlen
        omega
      obtain ⟨o, ho⟩ := hv.dirAt.isDir.owned
      obtain ⟨hch', hdata, -, -⟩ := hi.keeps ht ho (fun hb => hnot (hb ▸ hv.mem)) hch
      refine .sub (k := k) (hv.keeps ht hi hnot) hch' hpart hw hkey hl ?_ hdir
      rwa [slots_congr hdata]

/-- The path of the new file leads to it, by way of the same directories. -/
theorem fileAt_of_retrievable {s' : State} (h : g.IsVolume) (ht : Tidy g s.disk)
    (h₃ : 3 ≤ call.path.1.length)
    (hv : Visits g s.disk (directoryWords call.path).reverse c cs)
    (hch : IsChain g s.disk c l) (hl : LegalName call.fileMeta.fileName)
    (hno : ¬ Finds call.fileMeta.fileName (slots g s.disk l))
    (hfile : ¬ call.fileMeta.isDirectory)
    (hpath : path.1 = childPath call.path call.fileMeta.fileName)
    (hr : Retrievable g s.disk call.fileMeta call.output call.output' l d₁ pre a post k x)
    (hw : Written g (storedDisk g d₁ a k call.fileMeta x) s'.disk x [x]) :
    FileAt g s'.disk path cs (filledIn g call.fileMeta x) [x] := by
  have hi := hr.changed h hv.dirAt.isDir hch hw
  obtain ⟨key, hkey, -, hname⟩ := searchName_nameText hl
  have hfound := hr.found h hl hch hno
  rw [← slots_congr (hr.data_eq h hch hw), ← hname] at hfound
  rw [← textOf_ofFn] at hkey
  refine .mk (w := List.ofFn call.fileMeta.fileName) ?_ (hv.keeps_last ht hi) hi.chain
    (hr.placed.onPartition hr.directory) (by simp) hkey (hname.symm ▸ hl) hfound ?_ ?_
    (List.forall_mem_singleton.mpr hr.file)
  · rw [List.reverse_cons, List.reverse_reverse]
    exact components_child hl h₃ hpath
  · rwa [isDirectory_filledIn]
  · rw [hr.cluster h hr.code]
    exact hw.chain

/-- What has been stored is there after any run of calls that go to other
directories. -/
theorem putFile_durable (h : g.IsVolume) (hwf : WellFormed g s.disk) (hroot : RootApart g s.disk)
    (hok : PutOk g s call) (h₃ : 3 ≤ call.path.1.length)
    (hv : Visits g s.disk (directoryWords call.path).reverse c cs)
    (hch : IsChain g s.disk c l) (hl : testIfFATFormat call.fileMeta.bytes = 0)
    (hno : ¬ Finds call.fileMeta.fileName (slots g s.disk l))
    (hfile : ¬ call.fileMeta.isDirectory) (hsize : 1 ≤ call.fileMeta.fileSize)
    (hoff : 1 ≤ off) (hfit : off * 512 + call.fileMeta.fileSize ≤ 262144)
    (hpath : path.1 = childPath call.path call.fileMeta.fileName)
    (hlen : path.1.length < 2 ^ 16 - 1)
    (hr : Retrievable g s.disk call.fileMeta call.output call.output' l d₁ pre a post k x) :
    ∃ N e' s', (∀ fuel ≥ N, putFile reliable g fuel call.path call.contents call.fileMeta
        call.output call.output' s = (.value (0, e'), s')) ∧
      ∀ s'', Relation.ReflTransGen (PutAway g cs) s' s'' →
        ∃ N', ∀ fuel ≥ N', ∃ p s₁,
          getFile reliable g fuel path off s'' = (.value ⟨0, some e', some p⟩, s₁) ∧
          bytesAt s₁.mem p call.fileMeta.fileSize
            = bytesAt call.contents 0 call.fileMeta.fileSize := by
  have ht := tidy_iff.mpr ⟨hwf, hroot⟩
  have hle := length_le_child hpath
  obtain ⟨N, s', src, hput, hd', hsrc⟩ := putFile_stores h ⟨h₃, hv.dirAt⟩ hch hl hno hsize
    (Nat.lt_of_le_of_lt hle hlen) hr
  refine ⟨N, _, s', hput, fun s'' hrun => ?_⟩
  have hw : Written g (storedDisk g d₁ a k call.fileMeta x) s'.disk x [x] :=
    hd' ▸ .setData h (hr.new h hch)
  have hstep : PutStep g s s' := ⟨call, 0, hok, N, _, hput N (Nat.le_refl N)⟩
  obtain ⟨-, hf, hdata⟩ := fileAt_of_run h (hstep.tidy h ht) (fileAt_of_retrievable h ht h₃ hv hch
    (legalName_of_test hl) hno hfile hpath hr hw) hrun
  have hres := hf.resolves h.toOneSector (Nat.le_trans h₃ hle) hlen
  obtain ⟨-, -, -, -, -, -, -, -, hfile', hchain, hpart⟩ := hf
  have hsect : (off + [x].length) * 512 ≤ 262144 := by
    have hshort := hr.short
    rw [List.length_singleton]
    omega
  rw [← fileSize_filledIn g _ x] at hfit
  obtain ⟨N', hN'⟩ := getFile_chain h.toOneSector hres hfile' hchain hpart hoff hsect hfit
  refine ⟨N', fun fuel hf => ?_⟩
  obtain ⟨s₁, hget, hbytes⟩ := hN' fuel hf
  refine ⟨_, s₁, hget, bytesAt_eq_iff.mpr fun i hin => ?_⟩
  rw [List.flatMap_singleton, List.length_singleton, Nat.one_mul] at hbytes
  have hi512 : i < 512 := Nat.lt_trans hin hr.short
  rw [bytesAt_eq_iff.mp hbytes i hi512, Nat.zero_add, hdata x (List.mem_singleton.mpr rfl), hd',
    data_setData_self _ _ _ hi512, hsrc i hin]

end

theorem putFile_durable_emptyState :
    ∃ N e' s', (∀ fuel ≥ N, putFile reliable smallVolume fuel byteCall.path byteCall.contents
        byteCall.fileMeta byteCall.output byteCall.output' emptyState = (.value (0, e'), s')) ∧
      ∀ s'', Relation.ReflTransGen (PutAway smallVolume [2]) s' s'' →
        ∃ N', ∀ fuel ≥ N', ∃ p s₁,
          getFile reliable smallVolume fuel bytePath 1 s''
            = (.value ⟨0, some e', some p⟩, s₁) ∧
          bytesAt s₁.mem p byteCall.fileMeta.fileSize
            = bytesAt byteCall.contents 0 byteCall.fileMeta.fileSize := by
  obtain ⟨hwf, hroot⟩ := tidy_empty isChain_emptyState (by decide)
  exact putFile_durable smallVolume_isVolume hwf hroot putOk_emptyState (by decide) .root
    isChain_emptyState (by decide) (not_finds_emptyState _) (by decide) (by decide)
    (Nat.le_refl 1) (by decide) (by decide) (by decide)
    ⟨spot_emptyState, by decide, by decide, keyOk_byteEntry, keyOk_byteEntry,
      fun _ hj => absurd hj (Nat.not_lt_zero _), fun _ hb => absurd hb List.not_mem_nil⟩

/-! ### A file beside a directory -/

section

variable {g : Globals} {s : State} {path : CString} {c c' : Nat}

/-- A path has one target. -/
theorem Target.eq_of_dirPath (h : g.OneSector) (hlen : path.1.length < 2 ^ 16 - 1)
    (hp : DirPath g s.disk path c) (ht : Target g s path c') : c' = c := by
  obtain ⟨N, hN⟩ := findDirectory_dirPath h hlen hp
  obtain ⟨fuel, info, s', hfind⟩ := ht
  obtain ⟨info', s₁, hrun, -⟩ := hN (max N fuel) (Nat.le_max_left _ _)
  have hmono : Extends (findDirectory reliable g fuel path)
      (findDirectory reliable g (max N fuel) path) := by
    rw [findDirectory, findDirectory]
    exact .ite (.refl _) (walkPath_mono (Nat.le_max_right _ _) path)
  cases (hmono.value hfind).symm.trans hrun
  rfl

end

/-- A directory of one cluster, cluster 4. -/
def folderEntry : DirectoryEntry := ((letterEntry 0x44).setField 11 1 0x10).setField 26 2 4

/-- The volume with a file in cluster 3 and an empty directory. -/
def sharedState : State :=
  smallState (fun c => if c = 2 ∨ c = 3 ∨ c = 4 then endCluster32 else 0)
    (memcpy fileEntry.bytes 32 folderEntry.bytes 32)

/-- "C:\DDDDDDDDDDD" -/
def folderPath : CString := ⟨[0x43, 0x3A, 0x5C] ++ List.replicate 11 0x44, by decide⟩

/-- A call that stores a file in the folder. -/
def folderCall : PutCall := ⟨folderPath, fun _ => 0x55, byteEntry, fun _ => 0, fun _ => 0⟩

theorem isChain_shared {c : Nat} (hc : c = 2 ∨ c = 3 ∨ c = 4) :
    IsChain smallVolume sharedState.disk c [c] := by
  rcases hc with rfl | rfl | rfl
  · exact ⟨.last (by decide), by decide⟩
  · exact ⟨.last (by decide), by decide⟩
  · exact ⟨.last (by decide), by decide⟩

/-- The root directory has two entries. -/
theorem liveIn_shared {a k : Nat} (h : LiveIn smallVolume sharedState.disk [2] a k) :
    a = 2 ∧ (k = 0 ∨ k = 1) := by
  obtain rfl := List.mem_singleton.mp h.mem
  have hend : IsEnd (slot smallVolume sharedState.disk 2 2) := by decide
  refine ⟨rfl, ?_⟩
  by_contra hk
  rcases Nat.lt_or_ge 2 k with hlt | hge
  · exact h.before 2 hlt hend
  · obtain rfl : k = 2 := by omega
    exact h.used (.inr hend)

theorem isDir_shared {c : Nat} (h : IsDir smallVolume sharedState.disk c) : c = 2 ∨ c = 4 := by
  induction h with
  | root => exact .inl rfl
  | sub _ hch hlive hdir ih =>
      rcases ih with rfl | rfl
      · obtain rfl := hch.chain.unique (isChain_shared (.inl rfl)).chain
        obtain ⟨rfl, rfl | rfl⟩ := liveIn_shared hlive
        · exact absurd hdir (by decide)
        · exact .inr (by decide)
      · obtain rfl := hch.chain.unique (isChain_shared (.inr (.inr rfl))).chain
        exact absurd hlive (not_liveIn_of_end (by decide))

theorem liveAt_shared {a k : Nat} (h : LiveAt smallVolume sharedState.disk a k) :
    a = 2 ∧ (k = 0 ∨ k = 1) := by
  obtain ⟨c, l, hdir, hch, hlive⟩ := h
  rcases isDir_shared hdir with rfl | rfl
  · obtain rfl := hch.chain.unique (isChain_shared (.inl rfl)).chain
    exact liveIn_shared hlive
  · obtain rfl := hch.chain.unique (isChain_shared (.inr (.inr rfl))).chain
    exact absurd hlive (not_liveIn_of_end (by decide))

/-- The three owners and their clusters. -/
theorem owns_shared {o : Owner} {c : Nat} (h : Owns smallVolume sharedState.disk o c) :
    o = .root ∧ c = 2 ∨ o = .entry 2 0 ∧ c = 3 ∨ o = .entry 2 1 ∧ c = 4 := by
  cases o with
  | root => exact .inl ⟨rfl, h⟩
  | entry a k =>
      obtain ⟨hlive, rfl⟩ := h
      obtain ⟨rfl, rfl | rfl⟩ := liveAt_shared hlive
      · exact .inr (.inl ⟨rfl, by decide⟩)
      · exact .inr (.inr ⟨rfl, by decide⟩)

theorem tidy_shared : Tidy smallVolume sharedState.disk := by
  have hch {o : Owner} {c : Nat} (h : Owns smallVolume sharedState.disk o c) :
      IsChain smallVolume sharedState.disk c [c] := by
    refine isChain_shared ?_
    rcases owns_shared h with ⟨-, hc⟩ | ⟨-, hc⟩ | ⟨-, hc⟩
    · exact .inl hc
    · exact .inr (.inl hc)
    · exact .inr (.inr hc)
  refine ⟨fun h => ⟨_, hch h⟩, fun {o o' c c' l l'} h h' hne hl hl' => ?_⟩
  obtain rfl := hl.chain.unique (hch h).chain
  obtain rfl := hl'.chain.unique (hch h').chain
  refine List.singleton_disjoint.mpr fun hmem => hne ?_
  obtain rfl := List.mem_singleton.mp hmem
  rcases owns_shared h with ⟨rfl, rfl⟩ | ⟨rfl, rfl⟩ | ⟨rfl, rfl⟩ <;>
    rcases owns_shared h' with ⟨rfl, hc⟩ | ⟨rfl, hc⟩ | ⟨rfl, hc⟩ <;>
    first | rfl | exact absurd hc (by decide)

theorem slots_shared : slots smallVolume sharedState.disk [2]
    = fileEntry :: folderEntry :: (clusterSlots smallVolume sharedState.disk 2).drop 2 := by
  rw [slots, List.flatMap_singleton,
    ← show slot smallVolume sharedState.disk 2 0 = fileEntry by decide,
    ← show slot smallVolume sharedState.disk 2 1 = folderEntry by decide]
  rfl

theorem fileAt_shared : FileAt smallVolume sharedState.disk filePath [2] fileEntry [3] := by
  obtain ⟨key, hkey, hk⟩ := searchName_letters (b := 0x41) (by decide) (by decide)
  have hname : HasName (nameOf key) fileEntry := by
    rw [hk]
    decide
  have hroot : Visits smallVolume sharedState.disk [] 2 [2] := .root
  refine .mk (k := 0) rfl hroot (isChain_shared (.inl rfl)) (by decide) (by decide) hkey
    (hk ▸ fun _ => show LegalByte 0x41 by decide) ?_ (by decide)
    (isChain_shared (.inr (.inl rfl))) (by decide)
  show searchResult _ (slots smallVolume sharedState.disk [2]) = _
  rw [searchResult, slots_shared, lookup, scan, if_neg (by decide), if_pos hname]
  rfl

theorem dirPath_shared : DirPath smallVolume sharedState.disk folderPath 4 := by
  obtain ⟨key, hkey, hk⟩ := searchName_letters (b := 0x44) (by decide) (by decide)
  have hwords : (directoryWords folderPath).reverse = [List.replicate 11 0x44] := by decide
  have hother : ¬HasName (nameOf key) fileEntry := by
    rw [hk]
    decide
  have hname : HasName (nameOf key) folderEntry := by
    rw [hk]
    decide
  refine ⟨by decide, ?_⟩
  rw [hwords]
  refine .sub (k := 1) (e := folderEntry) .root (isChain_shared (.inl rfl)) (by decide) (by decide)
    hkey
    (hk ▸ fun _ => show LegalByte 0x44 by decide) ?_ (by decide)
  show searchResult _ (slots smallVolume sharedState.disk [2]) = _
  rw [searchResult, slots_shared, lookup, scan, if_neg (by decide), if_neg hother, scan,
    if_neg (by decide), if_pos hname]
  rfl

/-- The table behind the first eight entries is zero. -/
theorem markedSector_shared {i : Nat} (h₁ : 32 ≤ i) (h₂ : i < 512) :
    markedSector smallVolume sharedState.disk 5 i = 0 := by
  rw [markedSector, setFat, setEntry, Disk.sector, writeSector_self,
    memcpy_apply_of_mem (Nat.zero_le _) (by omega), Nat.sub_zero,
    memcpy_apply_of_notMem (.inr (Nat.le_trans (by decide) h₁))]
  show leBytes (if i / 4 = 2 ∨ i / 4 = 3 ∨ i / 4 = 4 then endCluster32 else 0) (i % 4) = 0
  rw [if_neg (by omega), leBytes, Nat.zero_div]
  rfl

theorem putOk_shared : PutOk smallVolume sharedState folderCall := by
  intro _ c hc
  obtain rfl := hc.eq_of_dirPath smallVolume_isVolume.toOneSector (by decide) dirPath_shared
  have hfolder : IsChain smallVolume sharedState.disk 4 [4] := isChain_shared (.inr (.inr rfl))
  refine ⟨dirPath_shared.2.isDir, fun l hch => ?_⟩
  obtain rfl := hch.chain.unique hfolder.chain
  refine ⟨by decide, keyOk_byteEntry, fun _ => ⟨keyOk_byteEntry, .inr ?_⟩⟩
  have hfree : IsFirstFree smallVolume sharedState.disk 5 :=
    ⟨by decide, by decide, fun c h₁ h₂ => by interval_cases c <;> decide⟩
  have hvacant : FirstVacant smallVolume sharedState.disk 4 0 :=
    ⟨by decide, by decide, fun _ hj => absurd hj (Nat.not_lt_zero _)⟩
  have hspot : Spot smallVolume sharedState.disk ([] ++ 4 :: []) sharedState.disk [] 4 [] 0 5 :=
    ⟨.here (by simp) hvacant, hfree, by decide, by decide⟩
  refine ⟨sharedState.disk, [], 4, [], 0, 5, hspot, by decide, fun b j hlive => ?_, ?_⟩
  · refine .inl (liveIn_first ?_ hlive)
    rw [IsEnd, slot_storedDisk_other (by decide) (by decide)]
    exact markedSector_shared (by decide) (by decide)
  · exact fun hdir => absurd hdir (by decide)

/-- The state behind a run of the call. -/
def PutCall.after (call : PutCall) (g : Globals) (fuel : Nat) (s : State) : State :=
  (putFile reliable g fuel call.path call.contents call.fileMeta call.output call.output' s).2

theorem PutCall.returns_after {call : PutCall} {g : Globals} {fuel : Nat} {s : State} {code : Int}
    (h : returnCode (putFile reliable g fuel call.path call.contents call.fileMeta call.output
      call.output' s).1 = some code) : call.Returns g s code (call.after g fuel s) := by
  rw [PutCall.after]
  rcases hrun : putFile reliable g fuel call.path call.contents call.fileMeta call.output
    call.output' s with ⟨⟨code', e'⟩ | stop, s'⟩
  · rw [hrun] at h
    cases h
    exact ⟨fuel, e', hrun⟩
  · rw [hrun] at h
    cases h

/-- A file stored in the directory leaves the one beside it. -/
theorem getFile_isolated_shared :
    ∃ N, ∀ fuel ≥ N, ∃ p s₁ s₂,
      getFile reliable smallVolume fuel filePath 1 sharedState
        = (.value ⟨0, some fileEntry, some p⟩, s₁) ∧
      getFile reliable smallVolume fuel filePath 1 (folderCall.after smallVolume 4 sharedState)
        = (.value ⟨0, some fileEntry, some p⟩, s₂) ∧
      bytesAt s₂.mem p 512 = bytesAt s₁.mem p 512 := by
  obtain ⟨hwf, hroot⟩ := tidy_iff.mp tidy_shared
  have haway :
      PutAway smallVolume [2] sharedState (folderCall.after smallVolume 4 sharedState) := by
    refine ⟨folderCall, 0, putOk_shared, PutCall.returns_after (by decide +kernel), ?_⟩
    intro c hc htarget
    obtain rfl := List.mem_singleton.mp hc
    have heq := htarget.eq_of_dirPath smallVolume_isVolume.toOneSector (by decide) dirPath_shared
    exact absurd heq (by decide)
  have h := getFile_isolated smallVolume_isVolume hwf hroot fileAt_shared
    (.single haway) (by decide) (by decide) (Nat.le_refl 1) (by decide) (by decide)
  rwa [List.length_singleton, Nat.one_mul] at h

end PotatoOS
