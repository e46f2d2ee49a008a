/-
PotatoOS/Window.lean

Where `getFile` stores: the 256 kB window behind `diskLocation`.

`StoresIn P` relates two states between which only stores that satisfy `P`
were made.  All reads on the way along a path go to the start of the window.
The reads of the file itself go as far as its chain leads: one round of the
loop stores in the window exactly when its cluster fits there
(`readLoop_round`), and the size in the entry, which is all that `getFile`
checks, does not say how long the chain is.

Main result: `getFile_confined_iff`.
-/
import PotatoOS.Read
import PotatoOS.Cluster

namespace PotatoOS

open Prog

/-- The store lies in the transfer window. -/
def Store.InWindow (st : Store) : Prop :=
  diskLocation ≤ st.addr ∧ st.addr + st.len ≤ diskLocation + 262144

/-- Only stores that satisfy `P` were made between the two states. -/
def StoresIn (P : Store → Prop) (s s' : State) : Prop :=
  ∃ new, s'.log = new ++ s.log ∧ ∀ st ∈ new, P st

namespace StoresIn

variable {P Q : Store → Prop} {s s₁ s₂ : State}

theorem refl (P : Store → Prop) (s : State) : StoresIn P s s := ⟨[], rfl, by simp⟩

theorem trans (h₁ : StoresIn P s s₁) (h₂ : StoresIn P s₁ s₂) : StoresIn P s s₂ := by
  obtain ⟨new₁, e₁, hP₁⟩ := h₁
  obtain ⟨new₂, e₂, hP₂⟩ := h₂
  refine ⟨new₂ ++ new₁, by rw [e₂, e₁, List.append_assoc], fun st hst => ?_⟩
  rcases List.mem_append.mp hst with hst | hst
  · exact hP₂ st hst
  · exact hP₁ st hst

theorem mono (h : StoresIn P s s₁) (hPQ : ∀ st, P st → Q st) : StoresIn Q s s₁ := by
  obtain ⟨new, e, hP⟩ := h
  exact ⟨new, e, fun st hst => hPQ st (hP st hst)⟩

/-- What a longer run has stored, its parts have stored. -/
theorem split (h : StoresIn P s s₂) (h₁ : StoresIn (fun _ => True) s s₁)
    (h₂ : StoresIn (fun _ => True) s₁ s₂) : StoresIn P s s₁ ∧ StoresIn P s₁ s₂ := by
  obtain ⟨new₁, e₁, -⟩ := h₁
  obtain ⟨new₂, e₂, -⟩ := h₂
  obtain ⟨new, e, hP⟩ := h
  have hnew : new = new₂ ++ new₁ := by
    rw [e₂, e₁, ← List.append_assoc] at e
    exact (List.append_cancel_right e).symm
  subst hnew
  exact ⟨⟨new₁, e₁, fun st hst => hP st (List.mem_append_right _ hst)⟩,
    ⟨new₂, e₂, fun st hst => hP st (List.mem_append_left _ hst)⟩⟩

/-- The stores made between two states are determined. -/
theorem iff_of_log {new : List Store} (e : s₁.log = new ++ s.log) :
    StoresIn P s s₁ ↔ ∀ st ∈ new, P st := by
  constructor
  · rintro ⟨new', e', hP⟩
    rw [e] at e'
    rwa [List.append_cancel_right e']
  · exact fun hP => ⟨new, e, hP⟩

end StoresIn

/-- The log may only have grown. -/
abbrev Grows : State → State → Prop := StoresIn fun _ => True

section

variable {P : Store → Prop} {s : State} {lba buffer n : Nat}

theorem storesIn_load (h : P ⟨buffer, 512⟩) : StoresIn P s (s.load lba buffer) :=
  ⟨[⟨buffer, 512⟩], rfl, fun st hst => by rwa [List.mem_singleton.mp hst]⟩

/-- A transfer of several blocks stores them one behind the other. -/
theorem loads_log (hb : buffer < 2 ^ 32) :
    (s.loads lba buffer n).log
      = ((List.range n).map fun j => ⟨(buffer + 512 * j) % 2 ^ 32, 512⟩).reverse ++ s.log := by
  induction n generalizing s lba buffer with
  | zero => rfl
  | succ n ih =>
      have hshift : ∀ j, ((buffer + 512) % 2 ^ 32 + 512 * j) % 2 ^ 32
          = (buffer + 512 * (j + 1)) % 2 ^ 32 := by omega
      have hzero : (buffer + 512 * 0) % 2 ^ 32 = buffer := by omega
      rw [State.loads, ih (Nat.mod_lt _ (by decide)), List.range_succ_eq_map, List.map_cons,
        List.map_map, List.reverse_cons, List.append_assoc, hzero]
      simp only [hshift, Function.comp_def]
      rfl

theorem storesIn_loads_iff (hb : buffer < 2 ^ 32) :
    StoresIn P s (s.loads lba buffer n) ↔ ∀ j < n, P ⟨(buffer + 512 * j) % 2 ^ 32, 512⟩ := by
  rw [StoresIn.iff_of_log (loads_log hb)]
  simp

/-- A transfer stays in the window exactly when its last block does. -/
theorem storesIn_window_iff {o : Nat} (ho : o < 2 ^ 32) (h₁ : 1 ≤ n) (h₂ : n ≤ 127) :
    StoresIn Store.InWindow s (s.loads lba ((diskLocation + o) % 2 ^ 32) n)
      ↔ o + 512 * n ≤ 262144 := by
  rw [storesIn_loads_iff (Nat.mod_lt _ (by decide))]
  simp only [Store.InWindow, diskLocation]
  constructor
  · intro h
    have hfirst := h 0 (by omega)
    have hlast := h (n - 1) (by omega)
    omega
  · intro h j hj
    omega

end

/-- The reads on the way along a path go to the window. -/
theorem readInv_window : ReadInv (StoresIn Store.InWindow) where
  refl := .refl _
  trans := .trans
  miss s := ⟨[], rfl, by simp⟩
  load s lba j hj := storesIn_load ⟨Nat.le_add_right _ _, by
    show diskLocation + 512 * j + 512 ≤ diskLocation + 262144
    omega⟩

/-! ### One round of the loop -/

/-- The cluster is not read, or fits the window at the given position. -/
def DataFits (g : Globals) (a pos : Nat) : Prop :=
  g.InRange a → g.OnPartition a →
    pos % 2 ^ 32 * g.sectorsPerCluster * 512 % 2 ^ 32 + 512 * g.sectorsPerCluster ≤ 262144

/-- The table has a link at the cluster that the loop follows. -/
def Continues (g : Globals) (d : Disk) (a : Nat) : Prop :=
  g.InRange a ∧ g.entOffset 4 a < fatTableSize ∧ fatValue g d a ≠ badCluster32

instance (g : Globals) (d : Disk) (a : Nat) : Decidable (Continues g d a) :=
  inferInstanceAs (Decidable (_ ∧ _))

section

variable {g : Globals} {s : State} {a off count : Nat} {cluster : Int}

theorem clusterRead_window (h : g.Sectors512) (a pos : Nat) (s : State) :
    ∃ r s₁, clusterRead reliable g a (pos % 2 ^ 32) s = (.value r, s₁) ∧ s₁.disk = s.disk ∧
      Grows s s₁ ∧ (StoresIn Store.InWindow s s₁ ↔ DataFits g a pos) := by
  by_cases hc : g.InRange a
  swap
  · exact ⟨-1, s, clusterRead_outOfRange reliable hc, rfl, .refl _ _,
      iff_of_true (.refl _ _) fun hc' => absurd hc' hc⟩
  -- the check of the partition comes before the first store
  by_cases hp : g.OnPartition a
  · have hrun : clusterRead reliable g a (pos % 2 ^ 32) s
        = (.value 0, s.loads (lbaOf (programLba ((g.startSect a + partStartLba) % 2 ^ 32)))
          ((diskLocation + pos % 2 ^ 32 * g.sectorsPerCluster * 512 % 2 ^ 32) % 2 ^ 32)
          g.sectorsPerCluster) := by
      rw [clusterRead, if_neg (not_outOfRange hc), h.bytesPerSector, int13hReadO,
        if_neg (Nat.not_lt.mpr hp), if_neg (Nat.not_lt.mpr h.le)]
      exact bind_value (readBlocks_reliable _ _ _ _)
    refine ⟨0, _, hrun, State.loads_disk _ _ _ _, ?_, ?_⟩
    · exact (storesIn_loads_iff (Nat.mod_lt _ (by decide))).mpr fun _ _ => trivial
    · rw [storesIn_window_iff (Nat.mod_lt _ (by decide)) h.one_le h.le, DataFits]
      exact ⟨fun hfit _ _ => hfit, fun hfit => hfit hc hp⟩
  · refine ⟨-1, s, ?_, rfl, .refl _ _, iff_of_true (.refl _ _) fun _ hp' => absurd hp' hp⟩
    rw [clusterRead, if_neg (not_outOfRange hc), int13hReadO, if_pos (Nat.not_le.mp hp)]
    rfl

/-- What the loop reads where it does not continue. -/
theorem fatRead_of_not_continues (h : g.IsFat32) (hno : ¬ Continues g s.disk a) :
    (fatRead reliable g a s).1 = .value (-1) ∨ (fatRead reliable g a s).1 = .value badCluster32 ∨
      (fatRead reliable g a s).1 = .stop .undefined := by
  by_cases hc : g.InRange a
  swap
  · rw [Globals.InRange] at hc
    rw [fatRead, if_pos (by omega)]
    exact .inl rfl
  by_cases hb : g.entOffset 4 a < fatTableSize
  · have hbad : fatValue g s.disk a = badCluster32 := by
      by_contra hne
      exact hno ⟨hc, hb, hne⟩
    rw [fatRead_fat32 h hc hb, hbad]
    exact .inr (.inl rfl)
  · exact .inr (.inr (congrArg Prod.fst (fatRead_fat32_undefined h hc hb)))

/-- A link that the loop does not follow ends it. -/
theorem fatRead_ends (h : g.IsFat32) (hno : ¬ Continues g s.disk a) (next : Int → Prog State Int) :
    StoresIn Store.InWindow s ((fatRead reliable g a >>= fun v =>
      if v = badCluster32 then pure (-1) else if v = -1 then pure (-1) else next v) s).2 := by
  have hkeeps : StoresIn Store.InWindow s (fatRead reliable g a s).2 :=
    fatRead_keeps readInv_window a s
  have hcases := fatRead_of_not_continues h hno
  rcases hr : fatRead reliable g a s with ⟨v | e, s₁⟩
  · rw [hr] at hkeeps hcases
    rw [bind_value hr]
    rcases hcases with hv | hv | hv
    · cases hv
      exact hkeeps
    · cases hv
      exact hkeeps
    · cases hv
  · rw [hr] at hkeeps
    rw [bind_stop hr]
    exact hkeeps

/-- One round of the loop. -/
theorem readLoop_round (s : State) (count off : Nat) (h : g.IsFat32)
    (hlt : cluster < endCluster32) :
    ∃ s₁, s₁.disk = s.disk ∧ Grows s s₁ ∧
      (StoresIn Store.InWindow s s₁ ↔ DataFits g (toUnsigned cluster) (count + off)) ∧
      ∀ fuel, (Continues g s.disk (toUnsigned cluster) →
          readLoop reliable g off (fuel + 1) cluster count s
            = readLoop reliable g off fuel (fatValue g s.disk (toUnsigned cluster) : Nat)
              (count + 1) s₁) ∧
        (¬ Continues g s.disk (toUnsigned cluster) →
          StoresIn Store.InWindow s₁ (readLoop reliable g off (fuel + 1) cluster count s).2) := by
  obtain ⟨r, s₁, hread, hd, hgrow, hfit⟩ :=
    clusterRead_window h.toSectors512 (toUnsigned cluster) (count + off) s
  by_cases hcont : Continues g s.disk (toUnsigned cluster)
  · obtain ⟨hc, hb, hbad⟩ := hcont
    have hload : StoresIn Store.InWindow s₁ (s₁.loadFat g 4 (toUnsigned cluster)) :=
      storesIn_load ⟨Nat.le_refl _, by decide⟩
    have hgrow' : Grows s₁ (s₁.loadFat g 4 (toUnsigned cluster)) :=
      hload.mono fun _ _ => trivial
    -- the table sector always goes to the first sector of the buffer
    refine ⟨s₁.loadFat g 4 (toUnsigned cluster), hd, hgrow.trans hgrow', ?_, fun fuel =>
      ⟨fun _ => ?_, fun hno => absurd ⟨hc, hb, hbad⟩ hno⟩⟩
    · rw [← hfit]
      exact ⟨fun hs => (hs.split hgrow hgrow').1, fun hs => hs.trans hload⟩
    · have hfat := fatRead_fat32 (s := s₁) h hc hb
      rw [hd] at hfat
      rw [readLoop, if_pos hlt, bind_value hread, bind_value hfat]
      have h₁ : ¬ ((fatValue g s.disk (toUnsigned cluster) : Nat) : Int) = badCluster32 := by omega
      have h₂ : ¬ ((fatValue g s.disk (toUnsigned cluster) : Nat) : Int) = -1 := by omega
      show (if ((fatValue g s.disk (toUnsigned cluster) : Nat) : Int) = badCluster32 then _ else
        if ((fatValue g s.disk (toUnsigned cluster) : Nat) : Int) = -1 then _ else _ :
          Prog State Int) _ = _
      rw [if_neg h₁, if_neg h₂]
  · refine ⟨s₁, hd, hgrow, hfit, fun fuel => ⟨fun hc => absurd hc hcont, fun _ => ?_⟩⟩
    rw [readLoop, if_pos hlt, bind_value hread]
    rw [← hd] at hcont
    exact fatRead_ends h hcont _

theorem readLoop_grows (h : g.IsFat32) (fuel : Nat) :
    Grows s (readLoop reliable g off fuel cluster count s).2 := by
  induction fuel generalizing cluster count s with
  | zero => exact .refl _ _
  | succ fuel ih =>
      by_cases hlt : cluster < endCluster32
      · obtain ⟨s₁, -, hgrow, -, hround⟩ := readLoop_round s count off h hlt
        obtain ⟨hgo, hstop⟩ := hround fuel
        by_cases hcont : Continues g s.disk (toUnsigned cluster)
        · rw [hgo hcont]
          exact hgrow.trans ih
        · exact hgrow.trans ((hstop hcont).mono fun _ _ => trivial)
      · rw [readLoop, if_neg hlt]
        exact .refl _ _

end

/-! ### The whole loop -/

/-- In its round `k` the loop that starts at `cluster` reads the cluster `a`. -/
inductive Reads (g : Globals) (d : Disk) : Int → Nat → Nat → Prop
  | first {cluster : Int} : cluster < endCluster32 → Reads g d cluster 0 (toUnsigned cluster)
  | next {cluster : Int} {k a : Nat} : cluster < endCluster32 →
      Continues g d (toUnsigned cluster) →
      Reads g d (fatValue g d (toUnsigned cluster) : Nat) k a → Reads g d cluster (k + 1) a

section

variable {g : Globals} {s : State} {a off count : Nat} {cluster : Int}

/-- The loop stays in the window if all that it reads fits. -/
theorem readLoop_window (h : g.IsFat32)
    (hfit : ∀ k a, Reads g s.disk cluster k a → DataFits g a (count + k + off)) (fuel : Nat) :
    StoresIn Store.InWindow s (readLoop reliable g off fuel cluster count s).2 := by
  induction fuel generalizing cluster count s with
  | zero => exact .refl _ _
  | succ fuel ih =>
      by_cases hlt : cluster < endCluster32
      swap
      · rw [readLoop, if_neg hlt]
        exact .refl _ _
      obtain ⟨s₁, hd, -, hin, hround⟩ := readLoop_round s count off h hlt
      obtain ⟨hgo, hstop⟩ := hround fuel
      have hfirst : StoresIn Store.InWindow s s₁ := hin.mpr (hfit 0 _ (.first hlt))
      by_cases hcont : Continues g s.disk (toUnsigned cluster)
      · rw [hgo hcont]
        refine hfirst.trans (ih fun k a hreads => ?_)
        rw [hd] at hreads
        have := hfit (k + 1) a (.next hlt hcont hreads)
        rwa [show count + (k + 1) = count + 1 + k by omega] at this
      · exact hfirst.trans (hstop hcont)

/-- All that it reads fits if the loop stays in the window with any large
budget. -/
theorem dataFits_of_window (h : g.IsFat32) {N : Nat} {k : Nat}
    (hin : ∀ fuel ≥ N, StoresIn Store.InWindow s (readLoop reliable g off fuel cluster count s).2)
    (hreads : Reads g s.disk cluster k a) : DataFits g a (count + k + off) := by
  generalize hd : s.disk = d at hreads
  -- on the rounds in front of the read
  induction hreads generalizing count s with
  | @first cluster hlt =>
      obtain ⟨s₁, -, hgrow, hfit, hround⟩ := readLoop_round s count off h hlt
      obtain ⟨hgo, hstop⟩ := hround N
      have hrun := hin (N + 1) (Nat.le_succ N)
      refine hfit.mp ?_
      by_cases hcont : Continues g s.disk (toUnsigned cluster)
      · rw [hgo hcont] at hrun
        exact (hrun.split hgrow (readLoop_grows h N)).1
      · exact (hrun.split hgrow ((hstop hcont).mono fun _ _ => trivial)).1
  | next hlt hcont _ ih =>
      subst hd
      obtain ⟨s₁, hd, hgrow, -, hround⟩ := readLoop_round s count off h hlt
      have := @ih s₁ (count + 1) (fun fuel hfuel => ?_) hd
      · rwa [Nat.add_right_comm count 1] at this
      · have hrun := hin (fuel + 1) (Nat.le_succ_of_le hfuel)
        rw [(hround fuel).1 hcont] at hrun
        exact (hrun.split hgrow (readLoop_grows h fuel)).2

end

/-! ### Files -/

/-- With any budget `getFile` stores in the window only. -/
def Confined (g : Globals) (s : State) (path : CString) (off : Nat) : Prop :=
  ∀ fuel, StoresIn Store.InWindow s (getFile reliable g fuel path off s).2

/-- The check that `getFile` makes before it reads. -/
def SizeOk (g : Globals) (e : DirectoryEntry) (off : Nat) : Prop :=
  1 ≤ off ∧ (off * 512 * g.sectorsPerCluster + e.fileSize) % 2 ^ 32 ≤ 262144

instance (g : Globals) (e : DirectoryEntry) (off : Nat) : Decidable (SizeOk g e off) :=
  inferInstanceAs (Decidable (_ ∧ _))

/-- The chain of the entry fits the window, as far as it is read. -/
def ChainFits (g : Globals) (d : Disk) (e : DirectoryEntry) (off : Nat) : Prop :=
  ∀ k a, Reads g d (toSigned (getClusterFromEntry g e)) k a → DataFits g a (k + off)

section

variable {g : Globals} {s s₁ : State} {path : CString} {off fuel c : Nat} {e : DirectoryEntry}

/-- Behind the path, `getFile` stores what its loop does. -/
theorem getFile_state (h : g.IsFat32)
    (hwalk : walkPath reliable g fuel path s = (.value (.ok (c, some e)), s₁))
    (hfile : ¬ e.isDirectory) (hsize : SizeOk g e off) :
    (getFile reliable g fuel path off s).2
      = (readLoop reliable g off fuel (toSigned (getClusterFromEntry g e)) 0 s₁).2 := by
  obtain ⟨h₁, h₂⟩ := hsize
  rw [getFile, if_neg (by rw [h.fatType]; decide), bind_value hwalk]
  show ((if e.isDirectory then _ else
    if off < 1 ∨ (off * g.bytesPerSector * g.sectorsPerCluster + e.fileSize) % 2 ^ 32 > 262144
    then _ else _ : Prog State FileResult) s₁).2 = _
  rw [if_neg hfile, h.bytesPerSector, if_neg (by omega)]
  rcases hloop : readLoop reliable g off fuel (toSigned (getClusterFromEntry g e)) 0 s₁
    with ⟨v | stop, s₂⟩
  · rw [bind_value hloop]
    split <;> rfl
  · rw [bind_stop hloop]

/-- Without a file to read it ends behind the path. -/
theorem getFile_state_of_path (h : g.IsFat32)
    {o : Outcome (Except Int (Nat × Option DirectoryEntry))}
    (hwalk : walkPath reliable g fuel path s = (o, s₁))
    (hno : ∀ c e, o = .value (.ok (c, some e)) → ¬ e.isDirectory → ¬ SizeOk g e off) :
    (getFile reliable g fuel path off s).2 = s₁ := by
  rw [getFile, if_neg (by rw [h.fatType]; decide)]
  rcases o with (code | ⟨c, - | e⟩) | stop
  · rw [bind_value hwalk]
    rfl
  · rw [bind_value hwalk]
    rfl
  · rw [bind_value hwalk]
    show ((if e.isDirectory then _ else
      if off < 1 ∨ (off * g.bytesPerSector * g.sectorsPerCluster + e.fileSize) % 2 ^ 32 > 262144
      then _ else _ : Prog State FileResult) s₁).2 = _
    by_cases hfile : e.isDirectory
    · rw [if_pos hfile]
      rfl
    · have hsize := hno c e rfl hfile
      rw [SizeOk] at hsize
      rw [if_neg hfile, h.bytesPerSector, if_pos (by omega)]
      rfl
  · rw [bind_stop hwalk]

theorem chainFits_of_confined (h : g.IsFat32) (hin : Confined g s path off)
    (he : Resolves g s path e) (hfile : ¬ e.isDirectory) (hsize : SizeOk g e off) :
    ChainFits g s.disk e off := by
  intro k a hreads
  obtain ⟨N, c, s₁, hN⟩ := he
  have hwalk := fun fuel (hfuel : fuel ≥ N) => (walkPath_mono hfuel path).value hN
  have hkeeps : StoresIn Store.InWindow s s₁ := (walkPath_keeps readInv_window N path).run hN
  have hd : s₁.disk = s.disk := (walkPath_keeps readInv_disk N path).run hN
  have hloop : ∀ fuel ≥ N, StoresIn Store.InWindow s₁
      (readLoop reliable g off fuel (toSigned (getClusterFromEntry g e)) 0 s₁).2 := by
    intro fuel hfuel
    have hrun := hin fuel
    rw [getFile_state h (hwalk fuel hfuel) hfile hsize] at hrun
    exact (hrun.split (hkeeps.mono fun _ _ => trivial) (readLoop_grows h fuel)).2
  rw [← hd] at hreads
  have := dataFits_of_window h hloop hreads
  rwa [Nat.zero_add] at this

/-- `getFile` stays in its window exactly when the chain of the file it reads
does. -/
theorem getFile_confined_iff (h : g.IsFat32) :
    Confined g s path off ↔ ∀ e, Resolves g s path e → ¬ e.isDirectory → SizeOk g e off →
      ChainFits g s.disk e off := by
  constructor
  · exact fun hin e he hfile hsize => chainFits_of_confined h hin he hfile hsize
  · intro hfits fuel
    rcases hwalk : walkPath reliable g fuel path s with ⟨o, s₁⟩
    have hkeeps : StoresIn Store.InWindow s s₁ :=
      (walkPath_keeps readInv_window fuel path).run hwalk
    have hd : s₁.disk = s.disk := (walkPath_keeps readInv_disk fuel path).run hwalk
    by_cases hread : ∃ c e, o = .value (.ok (c, some e)) ∧ ¬ e.isDirectory ∧ SizeOk g e off
    · obtain ⟨c, e, rfl, hfile, hsize⟩ := hread
      rw [getFile_state h hwalk hfile hsize]
      refine hkeeps.trans (readLoop_window h (fun k a hreads => ?_) fuel)
      rw [Nat.zero_add]
      exact hfits e ⟨fuel, c, s₁, hwalk⟩ hfile hsize k a (hd ▸ hreads)
    · rw [getFile_state_of_path h hwalk fun c e ho hfile hsize => hread ⟨c, e, ho, hfile, hsize⟩]
      exact hkeeps

end

/-! ### The file of the small volume -/

theorem reads_fileEntry {d : Disk} {k a : Nat} (hend : fatValue smallVolume d 3 = endCluster32)
    (h : Reads smallVolume d (toSigned (getClusterFromEntry smallVolume fileEntry)) k a) :
    k = 0 ∧ a = 3 := by
  have hc : toSigned (getClusterFromEntry smallVolume fileEntry) = 3 := by decide
  rw [hc] at h
  cases h with
  | first => exact ⟨rfl, rfl⟩
  | next _ _ hnext =>
      rw [show toUnsigned 3 = 3 from rfl, hend] at hnext
      cases hnext with
      | first hlt => exact absurd hlt (by decide)
      | next hlt => exact absurd hlt (by decide)

/-- A file of one cluster is read within the window. -/
theorem confined_oneFileState : Confined smallVolume oneFileState filePath 1 := by
  refine (getFile_confined_iff smallVolume_isVolume.toIsFat32).mpr
    fun e he _ _ k a hreads => ?_
  obtain rfl := he.unique (resolves_fileEntry (by decide) (by decide))
  obtain ⟨rfl, rfl⟩ := reads_fileEntry (by decide) hreads
  exact fun _ _ => by decide

/-- The volume with the file in clusters 3 and 4. -/
def twoClusterState : State :=
  smallState (fun c => if c = 3 then 4 else if c = 2 ∨ c = 4 then endCluster32 else 0)
    fileEntry.bytes

/-- The second cluster of a file whose size says that it has none is stored
behind the window. -/
theorem not_confined_twoClusterState :
    smallVolume.IsFat32 ∧ Resolves smallVolume twoClusterState filePath fileEntry ∧
      ¬ Confined smallVolume twoClusterState filePath 511 := by
  have h := smallVolume_isVolume.toIsFat32
  have he : Resolves smallVolume twoClusterState filePath fileEntry :=
    resolves_fileEntry (by decide) (by decide)
  refine ⟨h, he, fun hin => ?_⟩
  have hfits := chainFits_of_confined h hin he (by decide) (by decide)
  have hreads : Reads smallVolume twoClusterState.disk
      (toSigned (getClusterFromEntry smallVolume fileEntry)) 1 4 :=
    .next (by decide) (by decide) (.first (by decide))
  exact absurd (hfits 1 4 hreads (by decide) (by decide)) (by decide)

end PotatoOS
