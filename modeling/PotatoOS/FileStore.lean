/-
PotatoOS/FileStore.lean

What the files of tty.c are worth: which drives give back every file.

The calls in question have distinct names of at most 31 characters and texts of
1 to 511 characters, and there are no more of them than entries in the table
and free clusters on the drive.  As long as they are no more than the drive
reaches, every file is kept.  The next call finds no free cluster, and its text
goes to the sector of cluster 0, two sectors below the data area.  There it is
safe from the call's own update when this is not the first sector of the FAT,
but a second text on top of it destroys it.

So a drive keeps all files exactly when the calls stop within its reach or one
behind it (`keepsAll_iff`).  For the converse there are three ways to fail, each
with calls that do.  A fourth is the compiler's: a text of up to 511 characters
is stored with 513 bytes in a buffer of 512, and where it leaves no padding
behind the buffer there is no call at all that can be relied on.
-/
import PotatoOS.Filing

namespace PotatoOS

open Prog

/-- A mounted drive without files. -/
structure Blank (n : Nat) (s : Tty) : Prop where
  drive : n < maxMountedDrives
  layout : (s.mountedDrives n).Layout
  headed : (s.mountedDrives n).Headed s.disk
  zeroed : (s.mountedDrives n).rootDirectory.Zeroed

/-- Number of files that fit the table and the free clusters. -/
def capacity (n : Nat) (s : Tty) : Nat :=
  min maxFiles ((s.mountedDrives n).freeClusters s.disk).card

/-- Calls with distinct names that the drive has room for.  The compiler decides on the room
for the content, the same in every call. -/
structure Admissible (room n : Nat) (s : Tty) (calls : List WriteCall) : Prop where
  room : ∀ call ∈ calls, call.locals.room = room
  suits : ∀ call ∈ calls, (s.mountedDrives n).Suits call
  names : (calls.map (·.filename)).Nodup
  length : calls.length ≤ capacity n s

/-- The calls return, and then every file is printed as it was written. -/
def RoundTrips (n : Nat) (s : Tty) (calls : List WriteCall) : Prop :=
  ∃ s', writeFiles n calls s = (.value (), s') ∧ ∀ call ∈ calls,
    ∃ s'', readFile n call.filename s' = (.value (), s'') ∧
      s''.printed = s'.printed ++ call.content.1

/-! ### Calls within reach -/

section

variable {room n : Nat} {s s' : Tty} {calls : List WriteCall} {g : Geometry} {d : Disk}
  {l : Locals}

theorem Admissible.padded (h : Admissible room n s calls) (hroom : blockSize < room) :
    ∀ call ∈ calls, call.Padded := fun call hcall => by
  rw [WriteCall.Padded, h.room call hcall]
  exact hroom

theorem writeFiles_append {σ : Type} [Blocks σ] (calls₁ calls₂ : List WriteCall) :
    (writeFiles n (calls₁ ++ calls₂) : Prog σ Unit)
      = (do writeFiles n calls₁; writeFiles n calls₂) := by
  induction calls₁ with
  | nil => exact (pure_bind _ _).symm
  | cons call calls₁ ih => rw [List.cons_append, writeFiles, writeFiles, ih, bind_assoc]

theorem Blank.filed (h : Blank n s) : Filed n (s.mountedDrives n).toGeometry s [] where
  geometry := rfl
  fileCount := h.zeroed.fileCount
  freeBehind := fun i _ hi => h.zeroed.size i hi
  name := fun _ _ hi => nomatch hi
  headed := h.headed
  keeps := fun _ _ hi => nomatch hi

/-- After calls that returned, the round trip is a matter of the sectors of the files. -/
theorem roundTrips_iff (h : Blank n s) (ha : Admissible room n s calls)
    (hrun : writeFiles n calls s = (.value (), s'))
    (hlist : Listed n (s.mountedDrives n).toGeometry s' calls) :
    RoundTrips n s calls ↔ ∀ i call, calls[i]? = some call →
      HoldsString (s'.disk ((s.mountedDrives n).dataLba (s'.clusterOf n i))) call.content.1 := by
  have hread (i : Nat) (call : WriteCall) (hi : calls[i]? = some call) :=
    hlist.read_iff h.drive h.layout.one (ha.length.trans (min_le_left _ _)) ha.names
      (fun call hcall => (ha.suits call hcall).name) hi
      (Nat.lt_succ_of_le (ha.suits call (List.mem_of_getElem? hi)).content.2)
  constructor
  · rintro ⟨s₁, hrun₁, hprint⟩ i call hi
    obtain rfl : s' = s₁ := congrArg Prod.snd (hrun.symm.trans hrun₁)
    exact (hread i call hi).mp (hprint call (List.mem_of_getElem? hi))
  · intro hholds
    refine ⟨s', hrun, fun call hcall => ?_⟩
    obtain ⟨i, hi⟩ := List.getElem?_of_mem hcall
    exact (hread i call hi).mpr (hholds i call hi)

theorem roundTrips_of_le_reach (h : Blank n s) (ha : Admissible room n s calls)
    (hroom : blockSize < room) (hle : calls.length ≤ (s.mountedDrives n).reach s.disk) :
    RoundTrips n s calls := by
  obtain ⟨s', hrun, hfiled, -⟩ := h.filed.run h.drive h.layout ha.suits
    (ha.padded hroom) (by simpa using ha.length.trans (min_le_left _ _)) hle
  rw [roundTrips_iff h ha hrun hfiled.toListed]
  exact fun i call hi => (hfiled.keeps i call hi).text

/-! ### The call behind it -/

/-- A search that finds nothing, in the FAT or behind it. -/
theorem Geometry.found_eq_zero (hnone : ∀ c, ¬g.IsFree d c)
    (hbehind : ∀ k < g.clusters, g.fatSectors ≤ k / 128 → l.findTable k ≠ 0) :
    g.found d l = 0 := by
  refine Geometry.found_eq_zero_of_forall fun k h₂ hk => ?_
  by_cases hs : k / 128 < g.fatSectors
  · rw [table_of_covered hs]
    exact fun hw => hnone k ⟨h₂, hk, hs, hw⟩
  · rw [Geometry.table, if_neg hs]
    exact hbehind k hk (not_lt.mp hs)

/-- The state after as many calls as the drive reaches. -/
theorem Blank.exhaust (h : Blank n s) (calls : List WriteCall)
    (hcalls : ∀ call ∈ calls, (s.mountedDrives n).Suits call)
    (hpad : ∀ call ∈ calls, call.Padded) (hmax : calls.length ≤ maxFiles)
    (hlen : calls.length = (s.mountedDrives n).reach s.disk) :
    ∃ s', writeFiles n calls s = (.value (), s') ∧
      Filed n (s.mountedDrives n).toGeometry s' calls ∧
      ∀ c, ¬(s.mountedDrives n).IsFree s'.disk c := by
  obtain ⟨s', hrun, hfiled, hreach⟩ := h.filed.run h.drive h.layout hcalls hpad
    (by simpa using hmax) hlen.le
  exact ⟨s', hrun, hfiled, Geometry.reach_eq_zero_iff.mp (by omega)⟩

/-- A call that finds no free cluster uses cluster 0. -/
theorem Listed.step_zero {done : List WriteCall} {call : WriteCall} (h : Listed n g s done)
    (hn : n < maxMountedDrives) (hg : g.Layout) (hpos : 0 < g.fatSectors)
    (hlen : done.length < maxFiles) (hcall : g.Suits call) (hpad : call.Padded)
    (hnone : ∀ c, ¬g.IsFree s.disk c)
    (hbehind : ∀ k < g.clusters, g.fatSectors ≤ k / 128 → call.locals.findTable k ≠ 0) :
    ∃ s', writeFile call.locals n call.filename call.content s = (.value (), s') ∧
      Listed n g s' (done ++ [call]) ∧
      s'.disk = g.placed s.disk call.locals call.content 0 ∧ s'.clusterOf n done.length = 0 ∧
      ∀ i < done.length, s'.clusterOf n i = s.clusterOf n i := by
  have hfound := Geometry.found_eq_zero hnone hbehind
  have hentries : 0 < call.locals.entries := by
    have hfits : 128 * _ ≤ _ := hcall.fits
    omega
  have hrun := h.step hn hg.one hlen hcall.name
    ⟨hcall.fits, hg.one ▸ Nat.one_ne_zero, hcall.extent.trans_le hpad, hfound ▸ hentries⟩
  rwa [hfound] at hrun

/-- A drive with a free cluster has a FAT. -/
theorem fatSectors_pos_of_reach_lt (hlt : (s.mountedDrives n).reach s.disk < capacity n s) :
    0 < (s.mountedDrives n).fatSectors := by
  have hcard : 0 < ((s.mountedDrives n).freeClusters s.disk).card :=
    (Nat.zero_le _).trans_lt (hlt.trans_le (min_le_right _ _))
  obtain ⟨c, hc⟩ := Finset.card_pos.mp hcard
  have hs := (Geometry.mem_freeClusters.mp hc).2.2.1
  omega

theorem writeFiles_concat {s₁ : Tty} {call : WriteCall}
    (hrun₁ : writeFiles n calls s = (.value (), s₁))
    (hrun : writeFile call.locals n call.filename call.content s₁ = (.value (), s')) :
    writeFiles n (calls ++ [call]) s = (.value (), s') := by
  rw [writeFiles_append, bind_value hrun₁, writeFiles, bind_value hrun]
  rfl

theorem roundTrips_of_eq_reach_add_one (h : Blank n s) (ha : Admissible room n s calls)
    (hroom : blockSize < room) (hlen : calls.length = (s.mountedDrives n).reach s.disk + 1)
    (hcov : (s.mountedDrives n).clusters ≤ 128 * (s.mountedDrives n).fatSectors)
    (hzero : (s.mountedDrives n).fatLba 0 ≠ (s.mountedDrives n).dataLba 0) :
    RoundTrips n s calls := by
  have hmax := ha.length.trans (min_le_left _ _)
  have hpos : 0 < (s.mountedDrives n).fatSectors :=
    fatSectors_pos_of_reach_lt (Nat.lt_of_succ_le (hlen.symm.le.trans ha.length))
  obtain rfl | ⟨init, last, rfl⟩ := List.eq_nil_or_concat' calls
  · cases hlen
  rw [List.length_append, List.length_singleton] at hlen hmax
  obtain ⟨hinit, hlast⟩ := List.forall_mem_append.mp ha.suits
  have hlast := hlast last List.mem_cons_self
  obtain ⟨hpad, hpad'⟩ := List.forall_mem_append.mp (ha.padded hroom)
  -- the calls before the last fill the drive; the last one finds no cluster and stores at
  -- cluster 0
  obtain ⟨s₁, hrun₁, hfiled, hnone⟩ := h.exhaust init hinit hpad (by omega) (by omega)
  obtain ⟨s', hrun, hlist, hdisk, hnew, hold⟩ := hfiled.toListed.step_zero h.drive h.layout hpos
    (by omega) hlast (hpad' last List.mem_cons_self) hnone fun k hk hs => by omega
  rw [roundTrips_iff h ha (writeFiles_concat hrun₁ hrun) hlist]
  intro i call hi
  rw [hdisk]
  -- a file from before lies neither at the data of cluster 0 nor at its table sector
  rcases getElem?_concat_eq_some hi with ⟨hi, hlt⟩ | ⟨rfl, rfl⟩
  · have hkeep := hfiled.keeps i call hi
    rw [hold i hlt, Geometry.placed_of_ne, Geometry.filled_of_ne]
    · exact hkeep.text
    · exact h.layout.dataLba_ne_zero hcov hkeep.cluster
    · exact (h.layout.apart _ hpos _ hkeep.cluster.1 hkeep.cluster.2).symm
  · rw [hnew, Geometry.placed_of_ne (c := 0) hzero.symm]
    exact Geometry.holdsString_filled (Nat.lt_succ_of_le hlast.content.2)

end

/-! ### Calls that lose a file -/

/-- The locals of a call whose array is as large as the FAT, over memory with
the word `w` everywhere. -/
def probeLocals (g : Geometry) (h : g.fatSectors < 2 ^ 23) {room : Nat}
    (hroom : blockSize ≤ room) (w : Nat) : Locals where
  entries := 128 * g.fatSectors
  findTable := fun _ => w
  updateTable := fun _ => w
  newFile := fun _ => 0
  behind := fun _ => 0
  room := room
  entries_lt := by omega
  le_room := hroom

/-- A name for each of 128 files. -/
def probeName (i : Nat) : CString :=
  ⟨[UInt8.ofNat (i % 128 + 1)], by
    rw [List.mem_singleton]
    intro h
    have hz := congrArg UInt8.toNat h
    rw [UInt8.toNat_ofNat'] at hz
    simp at hz
    omega⟩

/-- The character of a text. -/
def probeByte (b : Bool) : UInt8 := bif b then 0x62 else 0x61

theorem probeByte_ne_zero (b : Bool) : probeByte b ≠ 0 := by cases b <;> decide

/-- A text of 511 equal characters, so that no word of its block is 0. -/
def probeText (b : Bool) : CString :=
  ⟨List.replicate 511 (probeByte b), fun h => probeByte_ne_zero b (List.eq_of_mem_replicate h).symm⟩

theorem length_probeText (b : Bool) : (probeText b).1.length = 511 := List.length_replicate

theorem getD_probeText (b : Bool) {i : Nat} (hi : i < 511) :
    (probeText b).1.getD i 0 = probeByte b := by
  rw [probeText, List.getD_eq_getElem _ _ (by rwa [List.length_replicate]), List.getElem_replicate]

/-- The call for file `i`. -/
def probe (l : Locals) (b : Bool) (i : Nat) : WriteCall where
  locals := l
  filename := probeName i
  content := probeText b
  content_lt := by
    rw [length_probeText]
    norm_num

/-- Calls for the first `k` names. -/
def probes (l : Nat → Locals) (b : Nat → Bool) (k : Nat) : List WriteCall :=
  (List.range k).map fun i => probe (l i) (b i) i

section

variable {room n : Nat} {s : Tty} {g : Geometry} {l : Nat → Locals} {b : Nat → Bool} {k : Nat}

theorem probes_succ : probes l b (k + 1) = probes l b k ++ [probe (l k) (b k) k] := by
  rw [probes, List.range_succ, List.map_append]
  rfl

theorem length_probes : (probes l b k).length = k := by
  rw [probes, List.length_map, List.length_range]

theorem getElem?_probes {i : Nat} (hi : i < k) :
    (probes l b k)[i]? = some (probe (l i) (b i) i) := by
  rw [probes, List.getElem?_map, List.getElem?_range hi]
  rfl

theorem suits_probe {l : Locals} (hl : g.Fits l) (b : Bool) (i : Nat) : g.Suits (probe l b i) where
  fits := hl
  name := by
    show [_].length ≤ 31
    simp
  content := by
    show 1 ≤ (probeText b).1.length ∧ (probeText b).1.length ≤ 511
    rw [length_probeText]
    exact ⟨by decide, Nat.le_refl _⟩

theorem suits_of_mem_probes (hl : ∀ i, g.Fits (l i)) : ∀ call ∈ probes l b k, g.Suits call := by
  intro call hcall
  obtain ⟨i, -, rfl⟩ := List.mem_map.mp hcall
  exact suits_probe (hl i) _ _

theorem padded_of_mem_probes (hpad : ∀ i, blockSize < (l i).room) :
    ∀ call ∈ probes l b k, call.Padded := by
  intro call hcall
  obtain ⟨i, -, rfl⟩ := List.mem_map.mp hcall
  exact hpad i

theorem admissible_probes (hl : ∀ i, (s.mountedDrives n).Fits (l i))
    (hroom : ∀ i, (l i).room = room) (hk : k ≤ capacity n s) :
    Admissible room n s (probes l b k) where
  room := fun call hcall => by
    obtain ⟨i, -, rfl⟩ := List.mem_map.mp hcall
    exact hroom i
  suits := suits_of_mem_probes hl
  length := length_probes.symm ▸ hk
  names := by
    have hmax : k ≤ 128 := hk.trans (min_le_left _ _)
    rw [probes, List.map_map]
    refine List.nodup_range.map_on fun i hi j hj hij => ?_
    rw [List.mem_range] at hi hj
    have hbyte : UInt8.ofNat (i % 128 + 1) = UInt8.ofNat (j % 128 + 1) :=
      List.head_eq_of_cons_eq (congrArg Subtype.val hij)
    have hnat := congrArg UInt8.toNat hbyte
    rw [UInt8.toNat_ofNat', UInt8.toNat_ofNat'] at hnat
    omega

/-- The first byte of a sector that holds a probe. -/
theorem holdsString_probeText_zero {m : Mem} {b : Bool} (h : HoldsString m (probeText b).1) :
    m 0 = probeByte b := by
  rw [h 0 (Nat.zero_le _), getD_probeText b (by decide)]

/-- No word of the block of a probe is 0. -/
theorem le_contentBuffer_probeText_ne_zero (l : Locals) (b : Bool) {j : Nat} (hj : j < 128) :
    le (contentBuffer l (probeText b)) (4 * j) 4 ≠ 0 := by
  have hbyte : contentBuffer l (probeText b) (4 * j) = probeByte b := by
    rw [contentBuffer, strncpy_apply, length_probeText, blockSize, if_pos (by omega),
      getD_probeText b (by omega)]
  have hpos : (probeByte b).toNat ≠ 0 := fun h => probeByte_ne_zero b (UInt8.toNat_inj.mp h)
  rw [le, hbyte]
  omega

/-- A probe in cluster 0 frees no cluster. -/
theorem not_isFree_placed_zero {d : Disk} {l : Locals} {b : Bool} (hg : g.Layout)
    (hpos : 0 < g.fatSectors) (hzero : g.fatLba 0 ≠ g.dataLba 0) (hnone : ∀ c, ¬g.IsFree d c)
    (c : Nat) : ¬g.IsFree (g.placed d l (probeText b) 0) c := by
  rintro ⟨h₂, hc, hs, hw⟩
  have hd : g.fatWord d c ≠ 0 := fun hw => hnone c ⟨h₂, hc, hs, hw⟩
  rw [Geometry.fatWord_placed hg hs (by omega)] at hw
  by_cases hfirst : c / 128 = 0 / 128
  · -- the first sector is written back with entry 0 set
    rw [if_pos hfirst, show c % 128 = c by omega, if_neg (by omega),
      Geometry.filled, Geometry.fatWord_writeSector_of_ne (by rwa [hfirst])] at hw
    exact hd hw
  · rw [if_neg hfirst, Geometry.filled] at hw
    by_cases hsect : g.fatLba (c / 128) = g.dataLba 0
    · rw [Geometry.fatWord_writeSector_self hsect] at hw
      exact le_contentBuffer_probeText_ne_zero l b (Nat.mod_lt _ (by decide)) hw
    · rw [Geometry.fatWord_writeSector_of_ne hsect] at hw
      exact hd hw

/-- The state after as many probes as the drive reaches. -/
theorem Blank.exhaust_probes (h : Blank n s) (hl : ∀ i, (s.mountedDrives n).Fits (l i))
    (hpad : ∀ i, blockSize < (l i).room) (b : Nat → Bool)
    (hk : (s.mountedDrives n).reach s.disk = k) (hmax : k ≤ maxFiles) :
    ∃ s', writeFiles n (probes l b k) s = (.value (), s') ∧
      Filed n (s.mountedDrives n).toGeometry s' (probes l b k) ∧
      ∀ c, ¬(s.mountedDrives n).IsFree s'.disk c :=
  h.exhaust (probes l b k) (suits_of_mem_probes hl) (padded_of_mem_probes hpad)
    (length_probes.trans_le hmax) (length_probes.trans hk.symm)

/-- One probe more, in cluster 0. -/
theorem Listed.probe_zero {s₁ : Tty} (h : Listed n g s₁ (probes l b k))
    (hrun : writeFiles n (probes l b k) s = (.value (), s₁)) (hn : n < maxMountedDrives)
    (hg : g.Layout) (hpos : 0 < g.fatSectors) (hmax : k < maxFiles) (hl : g.Fits (l k))
    (hpad : blockSize < (l k).room) (hnone : ∀ c, ¬g.IsFree s₁.disk c)
    (hbehind : ∀ j, (l k).findTable j ≠ 0) :
    ∃ s', writeFiles n (probes l b (k + 1)) s = (.value (), s') ∧
      Listed n g s' (probes l b (k + 1)) ∧
      s'.disk = g.placed s₁.disk (l k) (probeText (b k)) 0 ∧ s'.clusterOf n k = 0 ∧
      ∀ i < k, s'.clusterOf n i = s₁.clusterOf n i := by
  obtain ⟨s', hstep, hlist, hdisk, hnew, hold⟩ := h.step_zero hn hg hpos
    (length_probes.trans_lt hmax) (suits_probe hl (b k) k) hpad hnone fun j _ _ => hbehind j
  have hall := writeFiles_concat hrun hstep
  rw [← probes_succ] at hlist hall
  rw [length_probes] at hnew hold
  exact ⟨s', hall, hlist, hdisk, hnew, hold⟩

/-- The first byte of an update of entry 0. -/
theorem Geometry.updatedBlock_zero (d : Disk) (l : Locals) (v : Nat) :
    g.updatedBlock d l 0 v (0 - 0) = leBytes v 0 := by
  rw [Geometry.updatedBlock, Nat.sub_self, Nat.zero_div, Function.update_self, Nat.zero_mod]

/-- A call more than the drive reaches, when the first sector of the FAT is also
that of cluster 0: the update of the FAT overwrites the text. -/
theorem exists_not_roundTrips_of_eq (h : Blank n s) (hroom : blockSize < room)
    (hlt : (s.mountedDrives n).reach s.disk < capacity n s)
    (hzero : (s.mountedDrives n).fatLba 0 = (s.mountedDrives n).dataLba 0) :
    ∃ calls, Admissible room n s calls ∧ ¬RoundTrips n s calls := by
  have hpos := fatSectors_pos_of_reach_lt hlt
  generalize hk : (s.mountedDrives n).reach s.disk = k at hlt
  have hmax : k < maxFiles := hlt.trans_le (min_le_left _ _)
  let l : Nat → Locals := fun _ => probeLocals _ h.layout.room hroom.le 1
  let b : Nat → Bool := fun _ => false
  have hl (i : Nat) : (s.mountedDrives n).Fits (l i) := Nat.le_refl _
  obtain ⟨s₁, hrun₁, hfiled, hnone⟩ := h.exhaust_probes hl (fun _ => hroom) b hk hmax.le
  obtain ⟨s', hrun, hlist, hdisk, hnew, -⟩ := hfiled.toListed.probe_zero hrun₁ h.drive h.layout
    hpos hmax (hl k) hroom hnone fun _ => Nat.one_ne_zero
  have ha : Admissible room n s (probes l b (k + 1)) := admissible_probes hl (fun _ => rfl) hlt
  refine ⟨_, ha, ?_⟩
  rw [roundTrips_iff h ha hrun hlist]
  intro hholds
  have hlast := hholds k _ (getElem?_probes (Nat.lt_succ_self k))
  rw [hnew, hdisk, ← hzero] at hlast
  have hbyte := holdsString_probeText_zero hlast
  rw [Geometry.placed, writeSector_self, memcpy_apply_of_mem (Nat.le_refl 0) (by decide),
    Geometry.updatedBlock_zero] at hbyte
  exact absurd hbyte (by decide)

/-- Two calls more than the drive reaches share cluster 0. -/
theorem exists_not_roundTrips_of_ne (h : Blank n s) (hroom : blockSize < room)
    (hlt : (s.mountedDrives n).reach s.disk + 1 < capacity n s)
    (hzero : (s.mountedDrives n).fatLba 0 ≠ (s.mountedDrives n).dataLba 0) :
    ∃ calls, Admissible room n s calls ∧ ¬RoundTrips n s calls := by
  have hpos := fatSectors_pos_of_reach_lt (Nat.lt_of_succ_lt hlt)
  generalize hk : (s.mountedDrives n).reach s.disk = k at hlt
  have hmax : k + 1 < maxFiles := hlt.trans_le (min_le_left _ _)
  let l : Nat → Locals := fun _ => probeLocals _ h.layout.room hroom.le 1
  let b : Nat → Bool := fun i => decide (i = k + 1)
  have hl (i : Nat) : (s.mountedDrives n).Fits (l i) := Nat.le_refl _
  obtain ⟨s₁, hrun₁, hfiled, hnone₁⟩ := h.exhaust_probes hl (fun _ => hroom) b hk
    (Nat.lt_of_succ_lt hmax).le
  obtain ⟨s₂, hrun₂, hlist₂, hdisk₂, hnew₂, -⟩ := hfiled.toListed.probe_zero hrun₁ h.drive
    h.layout hpos (Nat.lt_of_succ_lt hmax) (hl k) hroom hnone₁ fun _ => Nat.one_ne_zero
  have hnone₂ : ∀ c, ¬(s.mountedDrives n).IsFree s₂.disk c := by
    rw [hdisk₂]
    exact not_isFree_placed_zero h.layout hpos hzero hnone₁
  obtain ⟨s', hrun, hlist, hdisk, -, hold⟩ := hlist₂.probe_zero hrun₂ h.drive h.layout hpos hmax
    (hl (k + 1)) hroom hnone₂ fun _ => Nat.one_ne_zero
  have ha : Admissible room n s (probes l b (k + 1 + 1)) :=
    admissible_probes hl (fun _ => rfl) hlt
  refine ⟨_, ha, ?_⟩
  rw [roundTrips_iff h ha hrun hlist]
  intro hholds
  -- file `k` is in cluster 0, which holds the text of the last call
  have hlast := hholds k _ (getElem?_probes (by omega))
  rw [hold k (Nat.lt_succ_self k), hnew₂, hdisk, Geometry.placed_of_ne (c := 0) hzero.symm] at hlast
  have hover : HoldsString _ (probeText (b (k + 1))).1 := Geometry.holdsString_filled
    (g := (s.mountedDrives n).toGeometry) (d := s₂.disk) (l := l (k + 1)) (c := 0)
    ((length_probeText _).trans_lt (by decide))
  have hbyte := (holdsString_probeText_zero hlast).symm.trans (holdsString_probeText_zero hover)
  simp [b, probeByte] at hbyte

/-- A search that leaves the FAT stops at a word that is 0 behind it. -/
theorem Geometry.found_behind {d : Disk} {l : Locals} (hpos : 0 < g.fatSectors)
    (hcov : 128 * g.fatSectors < g.clusters) (hnone : ∀ c, ¬g.IsFree d c)
    (hl : l.findTable (128 * g.fatSectors) = 0) : g.found d l = 128 * g.fatSectors := by
  refine Geometry.found_eq_of_first (by omega) hcov ?_ fun k h₂ hk => ?_
  · rw [Geometry.table, if_neg (by omega), hl]
  · have hs : k / 128 < g.fatSectors := by omega
    rw [table_of_covered hs]
    exact fun hw => hnone k ⟨h₂, hk.trans hcov, hs, hw⟩

/-- A call more than the drive reaches, when the FAT does not cover the clusters:
the cluster it finds has no entry in an array of the size of the FAT. -/
theorem exists_not_roundTrips_of_not_covered (h : Blank n s) (hroom : blockSize < room)
    (hlt : (s.mountedDrives n).reach s.disk < capacity n s)
    (hcov : 128 * (s.mountedDrives n).fatSectors < (s.mountedDrives n).clusters) :
    ∃ calls, Admissible room n s calls ∧ ¬RoundTrips n s calls := by
  have hpos := fatSectors_pos_of_reach_lt hlt
  generalize hk : (s.mountedDrives n).reach s.disk = k at hlt
  have hmax : k < maxFiles := hlt.trans_le (min_le_left _ _)
  let l : Nat → Locals := fun _ => probeLocals _ h.layout.room hroom.le 0
  let b : Nat → Bool := fun _ => false
  have hl (i : Nat) : (s.mountedDrives n).Fits (l i) := Nat.le_refl _
  obtain ⟨s₁, hrun₁, hfiled, hnone⟩ := h.exhaust_probes hl (fun _ => hroom) b hk hmax.le
  -- the scan ends behind the FAT, at an index that the array does not have
  have hstays : ¬(s₁.mountedDrives n).Stays s₁.disk (l k) (probeText (b k)) := by
    rw [hfiled.geometry]
    intro hs
    have hfound := hs.found
    rw [Geometry.found_behind hpos hcov hnone rfl] at hfound
    exact absurd hfound (Nat.lt_irrefl _)
  have hfree : (s₁.mountedDrives n).rootDirectory.freeEntry ≠ none :=
    hfiled.freeBehind.freeEntry_ne_none (by rwa [hfiled.fileCount, length_probes])
  obtain ⟨s₂, hstop, -⟩ := writeFile_of_not_stays (probeName k) h.drive hfree hstays
  refine ⟨probes l b (k + 1), admissible_probes hl (fun _ => rfl) hlt, ?_⟩
  rintro ⟨s', hall, -⟩
  have hrun : writeFiles n (probes l b (k + 1)) s = (.stop .undefined, s₂) := by
    rw [probes_succ, writeFiles_append, bind_value hrun₁, writeFiles]
    exact bind_stop hstop
  cases hrun.symm.trans hall

/-- Without padding behind the buffer the first call leaves it. -/
theorem exists_not_roundTrips_of_not_padded (h : Blank n s) (hpos : capacity n s ≠ 0) :
    ∃ calls, Admissible blockSize n s calls ∧ ¬RoundTrips n s calls := by
  let l : Nat → Locals := fun _ => probeLocals _ h.layout.room le_rfl 0
  have ha : Admissible blockSize n s (probes l (fun _ => false) 1) :=
    admissible_probes (fun _ => Nat.le_refl _) (fun _ => rfl) (Nat.one_le_iff_ne_zero.mpr hpos)
  have hsuits := ha.suits (probe (l 0) false 0) List.mem_cons_self
  have hstays : ¬(s.mountedDrives n).Stays s.disk (l 0) (probeText false) := fun hs => by
    have hbuffer : blockSize + 1 ≤ blockSize := hsuits.extent.symm.trans_le hs.buffer
    exact absurd hbuffer (Nat.not_succ_le_self _)
  have hfree : (s.mountedDrives n).rootDirectory.freeEntry ≠ none :=
    h.filed.freeBehind.freeEntry_ne_none (by rw [h.zeroed.fileCount]; decide)
  obtain ⟨s₁, hstop, -⟩ := writeFile_of_not_stays (probeName 0) h.drive hfree hstays
  refine ⟨_, ha, ?_⟩
  rintro ⟨s', hall, -⟩
  have hrun : writeFiles n (probes l (fun _ => false) 1) s = (.stop .undefined, s₁) :=
    bind_stop hstop
  cases hrun.symm.trans hall

/-- A drive gives back the files of all calls that it has room for exactly when there is padding
behind the buffer for the content and the calls are at most as many as the drive reaches, or one
more, whose text is safe in the sector of cluster 0. -/
theorem keepsAll_iff (h : Blank n s) (hroom : blockSize ≤ room) :
    (∀ calls, Admissible room n s calls → RoundTrips n s calls) ↔
      capacity n s = 0 ∨ blockSize < room ∧
        (capacity n s ≤ (s.mountedDrives n).reach s.disk ∨
        capacity n s = (s.mountedDrives n).reach s.disk + 1 ∧
          (s.mountedDrives n).clusters ≤ 128 * (s.mountedDrives n).fatSectors ∧
          (s.mountedDrives n).fatLba 0 ≠ (s.mountedDrives n).dataLba 0) := by
  constructor
  · intro hall
    have hkeeps : ¬∃ calls, Admissible room n s calls ∧ ¬RoundTrips n s calls :=
      fun ⟨calls, ha, hr⟩ => hr (hall calls ha)
    refine or_iff_not_imp_left.mpr fun hpos => ?_
    have hpad : blockSize < room := hroom.lt_of_ne fun heq => by
      subst heq
      exact hkeeps (exists_not_roundTrips_of_not_padded h hpos)
    refine ⟨hpad, ?_⟩
    by_contra hcond
    rw [not_or, not_le] at hcond
    obtain ⟨hlt, hcond⟩ := hcond
    -- which calls lose a file depends on where cluster 0 lies
    by_cases hzero : (s.mountedDrives n).fatLba 0 = (s.mountedDrives n).dataLba 0
    · exact hkeeps (exists_not_roundTrips_of_eq h hpad hlt hzero)
    rcases (Nat.succ_le_of_lt hlt).lt_or_eq with hlt₂ | heq
    · exact hkeeps (exists_not_roundTrips_of_ne h hpad hlt₂ hzero)
    · refine hkeeps (exists_not_roundTrips_of_not_covered h hpad hlt (not_le.mp fun hcov => ?_))
      exact hcond ⟨heq.symm, hcov, hzero⟩
  · rintro (hzero | ⟨hpad, hcond⟩) calls ha
    · obtain rfl : calls = [] := List.length_eq_zero_iff.mp (Nat.le_zero.mp (hzero ▸ ha.length))
      exact ⟨s, rfl, fun call hcall => nomatch hcall⟩
    rcases Nat.lt_or_ge ((s.mountedDrives n).reach s.disk) calls.length with hlt | hle
    · obtain hle | ⟨heq, hcov, hzero⟩ := hcond
      · exact absurd (ha.length.trans hle) (not_le.mpr hlt)
      · exact roundTrips_of_eq_reach_add_one h ha hpad
          ((ha.length.trans heq.le).antisymm (Nat.succ_le_of_lt hlt)) hcov hzero
    · exact roundTrips_of_le_reach h ha hpad hle

end

/-- Four clusters, two of them free. -/
def smallStore : Tty where
  disk := fun _ a => if a < 8 then 1 else 0
  mountedDrives := fun _ => sampleDrive
  printed := []
  written := []
  stored := []

/-- 132 clusters, of which those in the second sector of the FAT are free. -/
def largeStore : Tty where
  disk := fun lba _ => if lba = 2 then 0 else 1
  mountedDrives := fun _ => storeDrive 2 132 (by decide)
  printed := []
  written := []
  stored := []

theorem storeDrive_layout {k total : Nat} (h : k + total < 2 ^ 23) :
    (storeDrive k total h).Layout := by
  have hs : (storeDrive k total h).fatSectors = k := by
    show k * 1 % 2 ^ 32 = k
    omega
  have hc : (storeDrive k total h).clusters = total := Nat.div_one total
  refine ⟨rfl, by omega, fun i hi c h₂ hcl => ?_⟩
  rw [hs] at hi
  rw [hc] at hcl
  rw [Geometry.fatLba_eq, Geometry.dataLba_eq rfl]
  show (1 + i) % 2 ^ 24 ≠ (k + 1 + (c + (2 ^ 24 - 2))) % 2 ^ 24
  omega

theorem smallStore_blank : Blank 0 smallStore :=
  ⟨by decide, storeDrive_layout (by decide), ⟨by decide, by decide⟩, rfl, fun _ _ => rfl⟩

theorem largeStore_blank : Blank 0 largeStore :=
  ⟨by decide, storeDrive_layout (by decide), ⟨by decide, by decide⟩, rfl, fun _ _ => rfl⟩

theorem keepsAll_smallStore :
    Blank 0 smallStore ∧
      ∀ calls, Admissible 516 0 smallStore calls → RoundTrips 0 smallStore calls :=
  ⟨smallStore_blank, (keepsAll_iff smallStore_blank (by decide)).mpr
    (.inr ⟨by decide, .inl (by decide +kernel)⟩)⟩

/-- With four free clusters from 128 on, the second file is lost. -/
theorem not_keepsAll_largeStore :
    Blank 0 largeStore ∧
      ∃ calls, Admissible 516 0 largeStore calls ∧ ¬RoundTrips 0 largeStore calls :=
  ⟨largeStore_blank, exists_not_roundTrips_of_eq largeStore_blank (by decide) (by decide +kernel)
    (by decide +kernel)⟩

end PotatoOS
