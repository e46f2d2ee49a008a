/-
PotatoOS/Table.lean

The file allocation table: `FATRead` and `FATWrite`.

Both functions divide the byte offset of an entry by the *cluster* size to
get a sector, transfer that one sector, and use the remainder as an index
into a 32 kB local copy of which only the first sector is filled.  So an
entry is stored on disk only when its remainder lies in the first 512
bytes (`InSector`); the other entries of FAT32 read as the zero the local
array starts with, and those of FAT16 are never initialised.  An index past
the local array has no defined behaviour.

`entry` is the value a defined read finds on the disk and `setEntry` the
disk after a write.  Main result: `entryLaws_iff`, which says for exactly
which clusters and values the two functions obey the get/put laws.
-/
import PotatoOS.Drive

namespace PotatoOS

open Prog

/-! ### The two functions -/

namespace Globals

/-- Byte offset of an entry of width `w` in the table. -/
def fatOffset (_ : Globals) (w c : Nat) : Nat := c * w % 2 ^ 32

/-- The one sector that is transferred for an entry. -/
def fatSector (g : Globals) (w c : Nat) : Nat :=
  (g.firstFatSector + g.fatOffset w c / g.clusterSize) % 2 ^ 32

/-- Index of an entry in the local copy. -/
def entOffset (g : Globals) (w c : Nat) : Nat := g.fatOffset w c % g.clusterSize

end Globals

/-- Size of the local array `FAT_table`. -/
def fatTableSize : Nat := 32 * 1024

/-- The local array after the sector was copied into it.  `init` is what the
rest holds: zero for FAT32, nothing defined for FAT16. -/
def fatTable (g : Globals) (init : Option UInt8) (m : Mem) : Nat → Option UInt8 := fun i =>
  if i < g.bytesPerSector then some (m (diskLocation + i))
  else if i < fatTableSize then init
  else none

/-- A word of a partly defined array. -/
def tableWord (t : Nat → Option UInt8) (a : Nat) : Nat → Option Nat
  | 0 => some 0
  | w + 1 => (t a).bind fun b => (tableWord t (a + 1) w).map fun r => b.toNat + 256 * r

/-- The lookup that the FAT32 and the FAT16 branch of `FATRead` share. -/
def readEntry (env : Env) (g : Globals) (w : Nat) (init : Option UInt8) (c : Nat) :
    Prog State (Option Nat) := do
  if g.clusterSize = 0 then halt .divideByZero
  if (← int13hRead env (g.fatSector w c) 1) ≠ 0 then return none
  -- the sector is copied to `FAT_table` as a whole
  if g.bytesPerSector > fatTableSize then halt .undefined
  let mem ← gets State.mem
  match tableWord (fatTable g init mem) (g.entOffset w c) w with
  -- bytes behind the array, or such that nothing has set
  | none => halt .undefined
  | some v => return some v

/-- `FATRead`: the entry of a cluster, or -1 if the number is out of range or the sector cannot be
read.  There is no FAT12. -/
def fatRead (env : Env) (g : Globals) (clusterNum : Nat) : Prog State Int :=
  if clusterNum < 2 ∨ clusterNum ≥ g.totalClusters then pure (-1)
  else if g.fatType = 32 then do
    match ← readEntry env g 4 (some 0) clusterNum with
    | none => return -1
    | some v => return ((v &&& 0x0FFFFFFF : Nat) : Int)
  else if g.fatType = 16 then do
    match ← readEntry env g 2 none clusterNum with
    | none => return -1
    | some v => return (v : Int)
  else pure (-1)

/-- The update that the two branches of `FATWrite` share. -/
def writeEntry (env : Env) (g : Globals) (w c v : Nat) : Prog State Int := do
  if g.clusterSize = 0 then halt .divideByZero
  if (← int13hRead env (g.fatSector w c) 1) ≠ 0 then return -1
  if g.bytesPerSector > fatTableSize then halt .undefined
  -- the store into the local copy
  if g.entOffset w c + w > fatTableSize then halt .undefined
  modify fun s =>
    { s with
      mem := memcpy s.mem diskLocation
        (memcpy (fun i => s.mem (diskLocation + i)) (g.entOffset w c) (leBytes v) w)
        g.bytesPerSector }
  if (← int13hWrite env (g.fatSector w c) 1) ≠ 0 then return -1
  return 0

/-- `FATWrite`: 0, or -1 as for `FATRead`. -/
def fatWrite (env : Env) (g : Globals) (clusterNum clusterVal : Nat) : Prog State Int :=
  if clusterNum < 2 ∨ clusterNum ≥ g.totalClusters then pure (-1)
  else if g.fatType = 32 then writeEntry env g 4 clusterNum clusterVal
  else if g.fatType = 16 then writeEntry env g 2 clusterNum clusterVal
  else pure (-1)

/-! ### Where an entry lies -/

/-- The two entry widths. -/
def IsWidth (w : Nat) : Prop := w = 2 ∨ w = 4

namespace Globals

/-- The entry lies in the part of the local copy that goes to disk and back. -/
def InSector (g : Globals) (w c : Nat) : Prop := g.entOffset w c < 512

instance (g : Globals) (w c : Nat) : Decidable (g.InSector w c) :=
  inferInstanceAs (Decidable (_ < _))

variable {g : Globals} {w c c' : Nat}

theorem Blocks512.clusterSize_pos (h : g.Blocks512) : 0 < g.clusterSize := by
  have := h.one_le
  rw [h.clusterSize_eq]
  omega

theorem fatOffset_lt (g : Globals) (w c : Nat) : g.fatOffset w c < 2 ^ 32 :=
  Nat.mod_lt _ (by decide)

/-- The table never reaches the end of the partition, whatever the cluster. -/
theorem Blocks512.fatSector_lt (h : g.Blocks512) (w c : Nat) :
    g.fatSector w c = g.firstFatSector + g.fatOffset w c / g.clusterSize ∧
      g.fatSector w c + 1 ≤ partLength := by
  have h₁ := g.firstFatSector_lt
  have h₂ : g.fatOffset w c / g.clusterSize ≤ g.fatOffset w c / 512 :=
    Nat.div_le_div_left (by rw [h.clusterSize_eq]; have := h.one_le; omega) (by decide)
  have h₃ := g.fatOffset_lt w c
  rw [fatSector, partLength]
  generalize g.fatOffset w c / g.clusterSize = q at h₂ ⊢
  omega

theorem dvd_fatOffset (g : Globals) (hw : IsWidth w) (c : Nat) : w ∣ g.fatOffset w c := by
  refine (Nat.dvd_mod_iff ?_).mpr (Dvd.intro_left c rfl)
  rcases hw with rfl | rfl <;> decide

/-- Entries are aligned, so none straddles a sector boundary. -/
theorem Blocks512.dvd_entOffset (h : g.Blocks512) (hw : IsWidth w) (c : Nat) :
    w ∣ g.entOffset w c := by
  refine (Nat.dvd_mod_iff ?_).mpr (g.dvd_fatOffset hw c)
  rw [h.clusterSize_eq]
  rcases hw with rfl | rfl <;> exact Dvd.dvd.mul_right (by decide) _

theorem Blocks512.entOffset_add_le (h : g.Blocks512) (hw : IsWidth w) {n : Nat} (hn : 4 ∣ n)
    (hc : g.entOffset w c < n) : g.entOffset w c + w ≤ n := by
  have hd := h.dvd_entOffset hw c
  rcases hw with rfl | rfl <;> omega

/-- With one sector per cluster every entry is stored on disk. -/
theorem Blocks512.inSector_of_one (h : g.Blocks512) (h₁ : g.sectorsPerCluster = 1)
    (w c : Nat) : g.InSector w c := by
  have := Nat.mod_lt (g.fatOffset w c) h.clusterSize_pos
  rw [h.clusterSize_eq, h₁] at this
  rw [InSector, entOffset, h.clusterSize_eq, h₁]
  exact this

/-- Sector and index together determine the offset. -/
theorem Blocks512.fatOffset_eq (h : g.Blocks512) (hs : g.fatSector w c = g.fatSector w c')
    (he : g.entOffset w c = g.entOffset w c') : g.fatOffset w c = g.fatOffset w c' := by
  rw [(h.fatSector_lt w c).1, (h.fatSector_lt w c').1, Nat.add_left_cancel_iff] at hs
  rw [← Nat.div_add_mod (g.fatOffset w c) g.clusterSize, hs]
  rw [entOffset, entOffset] at he
  rw [he, Nat.div_add_mod]

end Globals

/-! ### Values on disk -/

/-- The value of an entry on disk: the word in its sector, zero when the
entry lies outside the sector that is transferred. -/
def entry (g : Globals) (w : Nat) (d : Disk) (c : Nat) : Nat :=
  if g.InSector w c then le (d.sector (g.fatSector w c)) (g.entOffset w c) w else 0

/-- The disk after an entry is written. -/
def setEntry (g : Globals) (w : Nat) (d : Disk) (c v : Nat) : Disk :=
  writeSector d (partStartLba + g.fatSector w c)
    (memcpy (d.sector (g.fatSector w c)) (g.entOffset w c) (leBytes v) w)

section

variable {g : Globals} {w c c' v : Nat} {d : Disk}

theorem entry_lt (g : Globals) (w : Nat) (d : Disk) (c : Nat) : entry g w d c < 256 ^ w := by
  rw [entry]
  split
  · exact le_lt ..
  · exact Nat.pow_pos (by decide)

/-- Two numbers with the same offset name the same word. -/
theorem entry_congr (ho : g.fatOffset w c' = g.fatOffset w c) :
    entry g w d c' = entry g w d c := by
  have he : g.entOffset w c' = g.entOffset w c := by
    rw [Globals.entOffset, Globals.entOffset, ho]
  have hs : g.fatSector w c' = g.fatSector w c := by
    rw [Globals.fatSector, Globals.fatSector, ho]
  by_cases hc : g.InSector w c
  · have hc' : g.InSector w c' := by rwa [Globals.InSector, he]
    rw [entry, entry, if_pos hc, if_pos hc', he, hs]
  · have hc' : ¬ g.InSector w c' := by rwa [Globals.InSector, he]
    rw [entry, entry, if_neg hc, if_neg hc']

theorem entry_setEntry_self (h : g.Blocks512) (hw : IsWidth w) (hc : g.InSector w c) :
    entry g w (setEntry g w d c v) c = v % 256 ^ w := by
  have hb := h.entOffset_add_le hw (by decide) hc
  rw [entry, if_pos hc, setEntry, Disk.sector, writeSector_self,
    le_memcpy_of_subset (Nat.zero_le _) (by omega), Nat.sub_zero, le_memcpy_leBytes]

theorem entry_setEntry_other (h : g.Blocks512) (hw : IsWidth w)
    (hne : g.fatOffset w c' ≠ g.fatOffset w c) :
    entry g w (setEntry g w d c v) c' = entry g w d c' := by
  by_cases hc' : g.InSector w c'
  swap
  · rw [entry, entry, if_neg hc', if_neg hc']
  rw [entry, entry, if_pos hc', if_pos hc', setEntry, Disk.sector, Disk.sector]
  by_cases hs : g.fatSector w c' = g.fatSector w c
  · -- same sector: the two aligned words lie apart
    have hb := h.entOffset_add_le hw (by decide) hc'
    have ha : g.entOffset w c' ≠ g.entOffset w c := fun he => hne (h.fatOffset_eq hs he)
    have hd := h.dvd_entOffset hw c
    have hd' := h.dvd_entOffset hw c'
    rw [hs, writeSector_self, le_memcpy_of_subset (Nat.zero_le _) (by omega), Nat.sub_zero,
      le_memcpy_of_disjoint]
    · rfl
    · rcases hw with rfl | rfl <;> omega
  · rw [writeSector_other _ _ (by omega)]
    rfl

/-- A write outside the transferred sector does not reach the disk. -/
theorem setEntry_of_not_inSector (hc : ¬ g.InSector w c) : setEntry g w d c v = d := by
  funext l
  by_cases hl : l = partStartLba + g.fatSector w c
  · subst hl
    rw [setEntry, writeSector_self]
    funext a
    by_cases ha : a < 512
    · rw [memcpy_apply_of_mem (Nat.zero_le _) (by omega), Nat.sub_zero,
        memcpy_apply_of_notMem]
      · rfl
      · left
        rw [Globals.InSector] at hc
        omega
    · exact memcpy_apply_of_notMem (by omega)
  · exact writeSector_other _ _ hl

end

/-! ### The reliable drive -/

theorem tableWord_eq_some {t : Nat → Option UInt8} {m : Mem} {a b w : Nat}
    (h : ∀ i < w, t (a + i) = some (m (b + i))) : tableWord t a w = some (le m b w) := by
  induction w generalizing a b with
  | zero => rfl
  | succ w ih =>
      have h₀ : t a = some (m b) := h 0 (by omega)
      have hs : tableWord t (a + 1) w = some (le m (b + 1) w) := ih fun i hi => by
        have := h (i + 1) (by omega)
        rwa [show a + (i + 1) = a + 1 + i by omega,
          show b + (i + 1) = b + 1 + i by omega] at this
      rw [tableWord, h₀, hs]
      rfl

theorem tableWord_eq_none {t : Nat → Option UInt8} {a w : Nat} (hw : IsWidth w)
    (h : t a = none) : tableWord t a w = none := by
  rcases hw with rfl | rfl <;> simp [tableWord, h]

theorem le_zero_mem (a w : Nat) : le (fun _ => 0) a w = 0 := by
  induction w generalizing a with
  | zero => rfl
  | succ w ih => rw [le, ih]; rfl

section

variable {g : Globals} {w c v : Nat} {init : Option UInt8} {s : State}

theorem int13hRead_reliable {n : Nat} (s : State) (h : n + 1 ≤ partLength) :
    int13hRead reliable n 1 s = (.value 0, s.load (partStartLba + n) diskLocation) :=
  int13hReadO_reliable s 0 h (by decide)

theorem int13hWrite_reliable {n : Nat} (s : State) (h : n + 1 ≤ partLength) :
    int13hWrite reliable n 1 s = (.value 0, s.store (partStartLba + n) diskLocation) :=
  int13hWriteO_reliable s 0 h (by decide)

/-- The state after the sector of an entry was read. -/
def State.loadFat (s : State) (g : Globals) (w c : Nat) : State :=
  s.load (partStartLba + g.fatSector w c) diskLocation

theorem readEntry_run (h : g.Blocks512) :
    readEntry reliable g w init c s =
      match tableWord (fatTable g init (s.loadFat g w c).mem) (g.entOffset w c) w with
      | none => (.stop .undefined, s.loadFat g w c)
      | some v => (.value (some v), s.loadFat g w c) := by
  have h₁ : g.clusterSize ≠ 0 := h.clusterSize_pos.ne'
  have h₂ := int13hRead_reliable (n := g.fatSector w c) s (h.fatSector_lt w c).2
  have h₃ : ¬ g.bytesPerSector > fatTableSize := by rw [h.bytesPerSector]; decide
  simp only [readEntry, if_neg h₁, if_neg h₃, ne_eq]
  rw [bind_value h₂]
  simp only [not_true_eq_false, if_false, gets_bind]
  rw [show s.load (partStartLba + g.fatSector w c) diskLocation = s.loadFat g w c from rfl]
  split <;> rename_i e <;> rw [e] <;> rfl

theorem fatTable_loadFat (h : g.Blocks512) {i : Nat} (hi : i < 512) :
    fatTable g init (s.loadFat g w c).mem i
      = some (s.disk.sector (g.fatSector w c) i) := by
  rw [fatTable, h.bytesPerSector, if_pos hi, State.loadFat, State.load_mem,
    memcpy_apply_add hi]
  rfl

/-- An entry in the transferred sector is read from the disk. -/
theorem readEntry_inSector (h : g.Blocks512) (hw : IsWidth w) (hc : g.InSector w c) :
    readEntry reliable g w init c s
      = (.value (some (entry g w s.disk c)), s.loadFat g w c) := by
  have hb := h.entOffset_add_le hw (by decide) hc
  rw [readEntry_run h, tableWord_eq_some (m := s.disk.sector (g.fatSector w c))
    (b := g.entOffset w c) fun i hi => fatTable_loadFat h (by omega), entry, if_pos hc]

/-- Beyond it a FAT32 entry reads as the zero of the local array. -/
theorem readEntry_beyond (h : g.Blocks512) (hw : IsWidth w) (hc : ¬ g.InSector w c)
    (hb : g.entOffset w c < fatTableSize) :
    readEntry reliable g w (some 0) c s
      = (.value (some (entry g w s.disk c)), s.loadFat g w c) := by
  have hb' := h.entOffset_add_le hw (n := fatTableSize) (by decide) hb
  rw [readEntry_run h, tableWord_eq_some (m := fun _ => 0) (b := 0), le_zero_mem, entry,
    if_neg hc]
  intro i hi
  rw [Globals.InSector] at hc
  rw [fatTable, h.bytesPerSector, if_neg (by omega), if_pos (by omega)]

/-- An index at which the local array holds nothing defined. -/
theorem readEntry_undefined (h : g.Blocks512) (hw : IsWidth w)
    (ht : fatTable g init (s.loadFat g w c).mem (g.entOffset w c) = none) :
    readEntry reliable g w init c s = (.stop .undefined, s.loadFat g w c) := by
  rw [readEntry_run h, tableWord_eq_none hw ht]

theorem writeEntry_reliable (h : g.Blocks512) (hw : IsWidth w)
    (hb : g.entOffset w c < fatTableSize) :
    ∃ s', writeEntry reliable g w c v s = (.value 0, s') ∧
      s'.disk = setEntry g w s.disk c v ∧
      s'.mem = memcpy s.mem diskLocation (s'.disk.sector (g.fatSector w c)) 512 := by
  have h₁ : g.clusterSize ≠ 0 := h.clusterSize_pos.ne'
  have h₂ := int13hRead_reliable (n := g.fatSector w c) s (h.fatSector_lt w c).2
  have h₃ : ¬ g.bytesPerSector > fatTableSize := by rw [h.bytesPerSector]; decide
  have h₄ : ¬ g.entOffset w c + w > fatTableSize := by
    have := h.entOffset_add_le hw (n := fatTableSize) (by decide) hb
    omega
  -- the bytes that lie in the buffer when the sector is written back
  let sec := memcpy (s.disk.sector (g.fatSector w c)) (g.entOffset w c) (leBytes v) w
  let s₁ : State := { s.loadFat g w c with mem := memcpy s.mem diskLocation sec 512 }
  have hpatch : memcpy (s.loadFat g w c).mem diskLocation
      (memcpy (fun i => (s.loadFat g w c).mem (diskLocation + i)) (g.entOffset w c)
        (leBytes v) w) g.bytesPerSector = memcpy s.mem diskLocation sec 512 := by
    have hwin : ∀ i < 512, (s.loadFat g w c).mem (diskLocation + i)
        = s.disk.sector (g.fatSector w c) i := fun i hi => memcpy_apply_add hi
    rw [h.bytesPerSector, show (s.loadFat g w c).mem = memcpy s.mem diskLocation
      (s.disk.sector (g.fatSector w c)) 512 from rfl, memcpy_memcpy]
    exact memcpy_congr fun i hi => memcpy_apply_congr (hwin i hi)
  have h₅ := int13hWrite_reliable (n := g.fatSector w c) s₁ (h.fatSector_lt w c).2
  refine ⟨s₁.store (partStartLba + g.fatSector w c) diskLocation, ?_, ?_, ?_⟩
  · simp only [writeEntry, if_neg h₁, if_neg h₃, if_neg h₄, ne_eq]
    rw [bind_value h₂]
    simp only [not_true_eq_false, if_false, modify_bind]
    rw [show s.load (partStartLba + g.fatSector w c) diskLocation = s.loadFat g w c from rfl,
      hpatch, bind_value h₅]
    rfl
  · rw [State.store_disk, setEntry]
    funext l
    by_cases hl : l = partStartLba + g.fatSector w c
    · subst hl
      rw [writeSector_self, writeSector_self]
      refine memcpy_congr fun i hi => ?_
      exact memcpy_apply_add hi
    · rw [writeSector_other _ _ hl, writeSector_other _ _ hl]
      rfl
  · show memcpy s.mem diskLocation sec 512 = _
    refine memcpy_congr fun i hi => ?_
    rw [State.store_disk, Disk.sector, writeSector_self, memcpy_apply_of_mem (by omega) (by omega)]
    exact (memcpy_apply_add hi).symm

end

/-! ### Get and put -/

namespace Globals

/-- Width of an entry in bytes. -/
def width (g : Globals) : Nat := if g.fatType = 32 then 4 else 2

/-- What an entry of the volume's type keeps of a value. -/
def maskEntry (g : Globals) (v : Nat) : Nat :=
  if g.fatType = 32 then v % 2 ^ 28 else v % 2 ^ 16

/-- The local copy holds something defined at the entry. -/
def Readable (g : Globals) (c : Nat) : Prop :=
  g.InSector g.width c ∨ (g.fatType = 32 ∧ g.entOffset g.width c < fatTableSize)

/-- The driver's two table formats. -/
def HasTable (g : Globals) : Prop := g.fatType = 32 ∨ g.fatType = 16

theorem isWidth_width (g : Globals) : IsWidth g.width := by
  rw [width]
  split
  · exact .inr rfl
  · exact .inl rfl

theorem maskEntry_mod (g : Globals) (v : Nat) :
    g.maskEntry (v % 256 ^ g.width) = g.maskEntry v := by
  rw [maskEntry, maskEntry, width]
  split <;> omega

end Globals

section

variable {g : Globals} {c d v : Nat} {s : State}

theorem not_outOfRange (hc : g.InRange c) : ¬ (c < 2 ∨ c ≥ g.totalClusters) := by
  rcases hc with ⟨h₁, h₂⟩
  omega

/-- A readable entry is read as its value on disk. -/
theorem fatRead_reliable (h : g.Blocks512) (ht : g.HasTable) (hc : g.InRange c)
    (hr : g.Readable c) :
    fatRead reliable g c s
      = (.value (g.maskEntry (entry g g.width s.disk c) : Nat), s.loadFat g g.width c) := by
  -- the two kinds of table: only the wide one may be read behind its sector
  rcases ht with ht | ht
  · have hw : g.width = 4 := if_pos ht
    have hread : readEntry reliable g 4 (some 0) c s
        = (.value (some (entry g 4 s.disk c)), s.loadFat g 4 c) := by
      -- behind the sector the rest of `FAT_table` stands, which is 0
      by_cases hs : g.InSector 4 c
      · exact readEntry_inSector h (.inr rfl) hs
      · rcases hr with hr | ⟨-, hr⟩
        · exact absurd (hw ▸ hr) hs
        · exact readEntry_beyond h (.inr rfl) hs (hw ▸ hr)
    rw [fatRead, if_neg (not_outOfRange hc), if_pos ht, bind_value hread]
    show (Outcome.value ((entry g 4 s.disk c &&& 0x0FFFFFFF : Nat) : Int), s.loadFat g 4 c) = _
    rw [hw, Globals.maskEntry, if_pos ht, ← Nat.and_two_pow_sub_one_eq_mod]
  · have ht' : g.fatType ≠ 32 := by rw [ht]; decide
    have hw : g.width = 2 := if_neg ht'
    have hs : g.InSector 2 c := by
      rcases hr with hr | ⟨hr, -⟩
      · exact hw ▸ hr
      · exact absurd hr ht'
    have hl : entry g 2 s.disk c < 2 ^ 16 := entry_lt g 2 s.disk c
    rw [fatRead, if_neg (not_outOfRange hc), if_neg ht', if_pos ht,
      bind_value (readEntry_inSector h (.inl rfl) hs)]
    show (Outcome.value ((entry g 2 s.disk c : Nat) : Int), s.loadFat g 2 c) = _
    rw [hw, Globals.maskEntry, if_neg ht', Nat.mod_eq_of_lt hl]

/-- Any other entry has no defined value. -/
theorem fatRead_undefined (h : g.Blocks512) (ht : g.HasTable) (hc : g.InRange c)
    (hr : ¬ g.Readable c) :
    fatRead reliable g c s = (.stop .undefined, s.loadFat g g.width c) := by
  obtain ⟨hs, hb⟩ := not_or.mp hr
  have hs' : ¬ g.entOffset g.width c < 512 := hs
  rcases ht with ht | ht
  · have hw : g.width = 4 := if_pos ht
    rw [hw] at hb hs'
    have hu : readEntry reliable g 4 (some 0) c s = (.stop .undefined, s.loadFat g 4 c) := by
      refine readEntry_undefined h (.inr rfl) ?_
      rw [fatTable, h.bytesPerSector, if_neg hs', if_neg fun hlt => hb ⟨ht, hlt⟩]
    rw [fatRead, if_neg (not_outOfRange hc), if_pos ht, bind_stop hu, hw]
  · have ht' : g.fatType ≠ 32 := by rw [ht]; decide
    have hw : g.width = 2 := if_neg ht'
    rw [hw] at hs'
    have hu : readEntry reliable g 2 none c s = (.stop .undefined, s.loadFat g 2 c) := by
      refine readEntry_undefined h (.inl rfl) ?_
      rw [fatTable, h.bytesPerSector, if_neg hs', ite_self]
    rw [fatRead, if_neg (not_outOfRange hc), if_neg ht', if_pos ht, bind_stop hu, hw]

theorem fatWrite_eq_writeEntry (ht : g.HasTable) (hc : g.InRange c) :
    fatWrite reliable g c v = writeEntry reliable g g.width c v := by
  rw [fatWrite, if_neg (not_outOfRange hc), Globals.width]
  rcases ht with ht | ht
  · rw [if_pos ht, if_pos ht]
  · have ht' : g.fatType ≠ 32 := by rw [ht]; decide
    rw [if_neg ht', if_pos ht, if_neg ht']

/-- A write inside the local copy succeeds. -/
theorem fatWrite_reliable (h : g.Blocks512) (ht : g.HasTable) (hc : g.InRange c)
    (hb : g.entOffset g.width c < fatTableSize) :
    ∃ s', fatWrite reliable g c v s = (.value 0, s') ∧
      s'.disk = setEntry g g.width s.disk c v ∧
      s'.mem = memcpy s.mem diskLocation (s'.disk.sector (g.fatSector g.width c)) 512 := by
  rw [fatWrite_eq_writeEntry ht hc]
  exact writeEntry_reliable h g.isWidth_width hb

theorem fatWrite_undefined (h : g.Blocks512) (ht : g.HasTable) (hc : g.InRange c)
    (hb : ¬ g.entOffset g.width c < fatTableSize) :
    (fatWrite reliable g c v s).1 = .stop .undefined := by
  have h₁ : g.clusterSize ≠ 0 := h.clusterSize_pos.ne'
  have h₂ := int13hRead_reliable (n := g.fatSector g.width c) s (h.fatSector_lt g.width c).2
  have h₃ : ¬ g.bytesPerSector > fatTableSize := by rw [h.bytesPerSector]; decide
  have h₄ : g.entOffset g.width c + g.width > fatTableSize := by
    have := g.isWidth_width
    rcases this with hw | hw <;> omega
  rw [fatWrite_eq_writeEntry ht hc]
  simp only [writeEntry, if_neg h₁, if_neg h₃, if_pos h₄, ne_eq]
  rw [bind_value h₂]
  rfl

end

/-- The get/put laws at one pair of clusters: the write returns, and if it
returns 0 then the entry reads as the value written, cut to the entry width,
and the other entry reads as before. -/
def EntryLaws (g : Globals) (s : State) (c d v : Nat) : Prop :=
  ∃ r s', fatWrite reliable g c v s = (.value r, s') ∧
    (r = 0 →
      (fatRead reliable g c s').1 = .value (g.maskEntry v : Nat) ∧
      (d ≠ c → ∃ r', (fatRead reliable g d s).1 = .value r' ∧
        (fatRead reliable g d s').1 = .value r'))

/-- The entry of `c` is stored on disk, or it is a FAT32 entry that reads as
zero and zero is written; and the other entry can be read and is not the same
word under another number, unless it held the written value already. -/
def EntryKept (g : Globals) (disk : Disk) (c d v : Nat) : Prop :=
  (g.InSector g.width c ∨
    (g.fatType = 32 ∧ g.entOffset g.width c < fatTableSize ∧ v % 2 ^ 28 = 0)) ∧
  (d ≠ c → g.Readable d ∧
    (g.fatOffset g.width d = g.fatOffset g.width c → g.InSector g.width c →
      g.maskEntry (entry g g.width disk d) = g.maskEntry v))

section

variable {g : Globals} {s s' : State} {c d v : Nat}

/-- A write that succeeds leaves two questions about the state behind it. -/
theorem entryLaws_of_write (hw : fatWrite reliable g c v s = (.value 0, s')) :
    EntryLaws g s c d v ↔
      (fatRead reliable g c s').1 = .value (g.maskEntry v : Nat) ∧
      (d ≠ c → ∃ r', (fatRead reliable g d s).1 = .value r' ∧
        (fatRead reliable g d s').1 = .value r') := by
  constructor
  · rintro ⟨r, s'', hw', hlaw⟩
    rw [hw] at hw'
    cases hw'
    exact hlaw rfl
  · intro hlaw
    exact ⟨0, s', hw, fun _ => hlaw⟩

/-- When the written entry reads as the value. -/
theorem fatRead_written_iff (h : g.Blocks512) (ht : g.HasTable) (hc : g.InRange c)
    (hb : g.entOffset g.width c < fatTableSize)
    (hdisk : s'.disk = setEntry g g.width s.disk c v) :
    (fatRead reliable g c s').1 = .value (g.maskEntry v : Nat) ↔
      g.InSector g.width c ∨
        (g.fatType = 32 ∧ g.entOffset g.width c < fatTableSize ∧ v % 2 ^ 28 = 0) := by
  by_cases hin : g.InSector g.width c
  · rw [fatRead_reliable h ht hc (.inl hin), hdisk,
      entry_setEntry_self h g.isWidth_width hin, g.maskEntry_mod]
    simp [hin]
  · by_cases h32 : g.fatType = 32
    · rw [fatRead_reliable h ht hc (.inr ⟨h32, hb⟩), entry, if_neg hin]
      simp only [Globals.maskEntry, h32, hin, hb, if_true, Outcome.value.injEq]
      simp only [Nat.zero_mod, false_or, true_and]
      omega
    · rw [fatRead_undefined h ht hc (by rintro (h' | h') <;> simp_all)]
      simp [hin, h32]

/-- When another entry reads as before. -/
theorem fatRead_kept_iff (h : g.Blocks512) (ht : g.HasTable) (hd : g.InRange d)
    (hdisk : s'.disk = setEntry g g.width s.disk c v) :
    (∃ r', (fatRead reliable g d s).1 = .value r' ∧ (fatRead reliable g d s').1 = .value r') ↔
      g.Readable d ∧
        (g.fatOffset g.width d = g.fatOffset g.width c → g.InSector g.width c →
          g.maskEntry (entry g g.width s.disk d) = g.maskEntry v) := by
  by_cases hr : g.Readable d
  swap
  · rw [fatRead_undefined h ht hd hr]
    simp [hr]
  rw [fatRead_reliable h ht hd hr, fatRead_reliable h ht hd hr, hdisk]
  by_cases hin : g.InSector g.width c
  swap
  · rw [setEntry_of_not_inSector hin]
    simp [hr, hin]
  by_cases ho : g.fatOffset g.width d = g.fatOffset g.width c
  · have he : entry g g.width (setEntry g g.width s.disk c v) d
        = entry g g.width (setEntry g g.width s.disk c v) c := entry_congr ho
    rw [he, entry_setEntry_self h g.isWidth_width hin, g.maskEntry_mod]
    simp [hr, hin, ho, eq_comm]
  · rw [entry_setEntry_other h g.isWidth_width ho]
    simp [hr, ho]

end

/-- **Exactly when the table functions obey the get/put laws.** -/
theorem entryLaws_iff {g : Globals} (h : g.Sectors512) (ht : g.HasTable) (s : State)
    {c d : Nat} (hc : g.InRange c) (hd : g.InRange d) (v : Nat) :
    EntryLaws g s c d v ↔ EntryKept g s.disk c d v := by
  replace h := h.toBlocks512
  by_cases hb : g.entOffset g.width c < fatTableSize
  · obtain ⟨s', hw, hdisk, -⟩ := fatWrite_reliable (v := v) (s := s) h ht hc hb
    rw [entryLaws_of_write hw, EntryKept]
    exact and_congr (fatRead_written_iff h ht hc hb hdisk)
      (imp_congr_right fun _ => fatRead_kept_iff h ht hd hdisk)
  · -- the store falls outside the local array
    constructor
    · rintro ⟨r, s', hw, -⟩
      have := fatWrite_undefined (v := v) (s := s) h ht hc hb
      rw [hw] at this
      cases this
    · rintro ⟨hin | ⟨-, hin, -⟩, -⟩
      · exact absurd (Nat.lt_trans hin (by decide)) hb
      · exact absurd hin hb

/-- A FAT32 volume of 140000 sectors, two to a cluster. -/
def twoSectorVolume : Globals where
  fatType := 32
  firstFatSector := 32
  firstDataSector := 1126
  totalClusters := 70000
  bytesPerSector := 512
  sectorsPerCluster := 2
  rootCluster := 2

theorem twoSectorVolume_sectors512 : twoSectorVolume.Sectors512 :=
  ⟨⟨by decide, by decide⟩, by decide⟩

/-- A machine with an empty drive. -/
def blankState : State := ⟨fun _ _ => 0, fun _ => 0, 0, []⟩

/-- In the first 512 bytes of its group an entry keeps what is written. -/
theorem entryLaws_twoSectorVolume : EntryLaws twoSectorVolume blankState 5 6 77 :=
  (entryLaws_iff twoSectorVolume_sectors512 (.inl rfl) blankState (by decide) (by decide) 77).mpr
    ⟨.inl (by decide), fun _ => ⟨.inl (by decide), fun h => absurd h (by decide)⟩⟩

/-- Entry 128 of the same volume has index 512: the write is lost. -/
theorem not_entryLaws_twoSectorVolume : ¬ EntryLaws twoSectorVolume blankState 128 2 5 := by
  rintro ⟨r, s', hw, hlaw⟩
  have hc : twoSectorVolume.InRange 128 := by decide
  have hr : twoSectorVolume.Readable 128 := .inr ⟨rfl, by decide⟩
  obtain ⟨s'', hw', -, -⟩ := fatWrite_reliable (v := 5) (s := blankState)
    twoSectorVolume_sectors512.toBlocks512 (.inl rfl) hc (by decide)
  rw [hw'] at hw
  cases hw
  have hread := (hlaw rfl).1
  rw [fatRead_reliable twoSectorVolume_sectors512.toBlocks512 (.inl rfl) hc hr, entry,
    if_neg (by decide)] at hread
  have hv : ((twoSectorVolume.maskEntry 0 : Nat) : Int) = (twoSectorVolume.maskEntry 5 : Nat) :=
    Outcome.value.inj hread
  exact absurd hv (by decide)

end PotatoOS
