/-
PotatoOS/Update.lean

One entry of the FAT set by `update_fat_entry`.

The function loads the whole FAT, sets the entry in the local array and writes
one block back: always the first 512 bytes of the array, to the sector of the
FAT that the entry lies in.  Source and target agree for the entries of the
first sector.  For any other entry the sector is replaced by the first one, with
the new value nowhere in it (`fatWord_updated`), so the update is right only
where the first sector happens to hold what the other one should
(`updatesOne_iff`).
-/
import PotatoOS.FileStore

namespace PotatoOS

open Prog

variable {g : Geometry} {l : Locals} {s : Tty} {c v : Nat}

/-- The sectors of all copies of the FAT are distinct, and the array has room for them. -/
structure Geometry.Loadable (g : Geometry) (l : Locals) : Prop where
  distinct : Set.InjOn g.fatLba (Set.Iio (g.fatSize32 * g.numFats))
  room : 128 * (g.fatSize32 * g.numFats) ≤ l.entries

/-- `update_fat_entry` returns, and of the first copy of the FAT, as `read_fat_table` loads it,
it has changed the one entry. -/
def UpdatesOne (g : Geometry) (l : Locals) (c v : Nat) (s : Tty) : Prop :=
  ∃ before s' after,
    readFatTable g l.entries l.updateTable s = (.value before, s) ∧
      updateFatEntry l c v g s = (.value (), s') ∧
      readFatTable g l.entries l.updateTable s' = (.value after, s') ∧
      after c = v ∧ ∀ k < 128 * g.fatSize32, k ≠ c → after k = before k

namespace Geometry

/-- The first sector of the FAT holds what the sector of entry `c` should hold with `v` there. -/
def FirstAgrees (g : Geometry) (d : Disk) (c v : Nat) : Prop :=
  g.fatWord d (c % 128) = v ∧
    ∀ j < 128, j ≠ c % 128 → g.fatWord d j = g.fatWord d (128 * (c / 128) + j)

namespace Loadable

theorem fatSectors_eq (h : g.Loadable l) : g.fatSectors = g.fatSize32 * g.numFats := by
  have hroom := h.room
  have hl := l.entries_lt
  exact Nat.mod_eq_of_lt (by omega)

theorem fits (h : g.Loadable l) : g.Fits l := by
  rw [Fits, h.fatSectors_eq]
  exact h.room

/-- An entry of the first copy is one of those loaded. -/
theorem covered (h : g.Loadable l) (hn : 0 < g.numFats) (hc : c < 128 * g.fatSize32) :
    c / 128 < g.fatSectors := by
  have hle : g.fatSize32 ≤ g.fatSize32 * g.numFats := Nat.le_mul_of_pos_right _ hn
  rw [h.fatSectors_eq]
  omega

theorem fatLba_inj (h : g.Loadable l) {i j : Nat} (hi : i < g.fatSectors) (hj : j < g.fatSectors)
    (heq : g.fatLba i = g.fatLba j) : i = j := by
  rw [h.fatSectors_eq] at hi hj
  exact h.distinct hi hj heq

end Loadable

end Geometry

open PotatoOS.Geometry

/-- The entries on the disk before and after a call. -/
theorem updatesOne_iff_fatWord (hg : g.Loadable l) (hn : 0 < g.numFats)
    (hc : c < 128 * g.fatSize32) :
    UpdatesOne g l c v s ↔
      let d' := writeSector s.disk (g.fatLba (c / 128)) (g.updatedBlock s.disk l c v)
      g.fatWord d' c = v ∧
        ∀ k < 128 * g.fatSize32, k ≠ c → g.fatWord d' k = g.fatWord s.disk k := by
  -- the table is read whole, before and after: for the entries that the FAT holds it shows the
  -- words on the disk
  have hread (s : Tty) : readFatTable g l.entries l.updateTable s
      = (.value (g.table s.disk l.updateTable), s) := by
    rw [readFatTable_eq l.entries_lt]
    exact if_pos hg.fits
  have hce : c < l.entries := by
    have hcov := hg.covered hn hc
    have hfits : 128 * g.fatSectors ≤ l.entries := hg.fits
    omega
  have htable (d : Disk) {k : Nat} (hk : k < 128 * g.fatSize32) :
      g.table d l.updateTable k = g.fatWord d k := table_of_covered (hg.covered hn hk)
  have hwrite := updateFatEntry_eq (l := l) (g := g) (s := s) c v
  rw [if_pos ⟨hg.fits, hce⟩] at hwrite
  constructor
  · rintro ⟨before, s', after, hb, hs', ha, hcv, hk⟩
    -- the runs are determined, so what the statement asks for is what they return
    obtain rfl := congrArg Prod.snd (hwrite.symm.trans hs')
    obtain rfl : g.table s.disk l.updateTable = before := by simpa using (hread s).symm.trans hb
    obtain rfl := by simpa using (hread _).symm.trans ha
    refine ⟨(htable _ hc).symm.trans hcv, fun k hkc hne => ?_⟩
    rw [← htable s.disk hkc, ← hk k hkc hne]
    exact (htable _ hkc).symm
  · rintro ⟨hcv, hk⟩
    refine ⟨_, _, _, hread s, hwrite, hread _, (htable _ hc).trans hcv, fun k hkc hne => ?_⟩
    rw [htable _ hkc, htable _ hkc]
    exact hk k hkc hne

/-- For the entries of the first sector the update is right; for the others it is where the
first sector holds the other one already. -/
theorem updatesOne_iff (hg : g.Loadable l) (hn : 0 < g.numFats) (hc : c < 128 * g.fatSize32)
    (hv : v < 2 ^ 32) :
    UpdatesOne g l c v s ↔ c < 128 ∨ g.FirstAgrees s.disk c v := by
  have hcov := hg.covered hn hc
  have hword {k : Nat} (hk : k < 128 * g.fatSize32) :=
    fatWord_updated (d := s.disk) (l := l)
      (hg.fatLba_inj (hg.covered hn hk) hcov) (Nat.zero_lt_of_lt hcov) hv
  rw [updatesOne_iff_fatWord hg hn hc]
  dsimp only
  rw [hword hc, if_pos rfl]
  by_cases hlow : c < 128
  · -- the sector written is the first one
    refine iff_of_true ⟨if_pos (Nat.mod_eq_of_lt hlow), fun k hk hne => ?_⟩ (.inl hlow)
    rw [hword hk]
    split_ifs with hkc hkv
    · omega
    · rw [show k % 128 = k by omega]
    · rfl
  · rw [if_neg (by omega), or_iff_right hlow]
    refine and_congr_right fun _ => ⟨fun h j hj hne => ?_, fun h k hk hne => ?_⟩
    · have hk : 128 * (c / 128) + j < 128 * g.fatSize32 := by omega
      have hkj := h _ hk (by omega)
      rw [hword hk, if_pos (by omega), if_neg (by omega)] at hkj
      rw [← hkj, show (128 * (c / 128) + j) % 128 = j by omega]
    · rw [hword hk]
      split_ifs with hkc hkv
      · omega
      · rw [h _ (Nat.mod_lt _ (by norm_num)) (by omega), ← hkc, Nat.div_add_mod]
      · rfl

/-- The locals of a call with room for `k` sectors of the FAT. -/
def tableLocals (k : Nat) (h : 128 * k < 2 ^ 30) : Locals where
  entries := 128 * k
  findTable := fun _ => 0
  updateTable := fun _ => 0
  newFile := fun _ => 0
  behind := fun _ => 0
  room := blockSize
  entries_lt := h

theorem storeDrive_loadable {k total : Nat} (h : k + total < 2 ^ 23) (hk : 128 * k < 2 ^ 30) :
    (storeDrive k total h).Loadable (tableLocals k hk) := by
  refine ⟨fun i hi j hj heq => ?_, ?_⟩
  · have hi' : i < k * 1 := hi
    have hj' : j < k * 1 := hj
    rw [fatLba_eq, fatLba_eq] at heq
    have heq' : (1 + i) % 2 ^ 24 = (1 + j) % 2 ^ 24 := heq
    omega
  · exact Nat.le_of_eq (congrArg (128 * ·) (Nat.mul_one k))

theorem updatesOne_largeStore :
    (storeDrive 2 132 (by decide)).Loadable (tableLocals 2 (by decide)) ∧
      UpdatesOne (storeDrive 2 132 (by decide)).toGeometry (tableLocals 2 (by decide)) 3 5
        largeStore :=
  ⟨storeDrive_loadable _ _,
    (updatesOne_iff (storeDrive_loadable _ _) (by decide) (by decide) (by decide)).mpr
      (.inl (by decide))⟩

/-- The second sector of the FAT takes the words of the first one. -/
theorem not_updatesOne_largeStore :
    (storeDrive 2 132 (by decide)).Loadable (tableLocals 2 (by decide)) ∧
      ¬UpdatesOne (storeDrive 2 132 (by decide)).toGeometry (tableLocals 2 (by decide)) 130 5
        largeStore := by
  refine ⟨storeDrive_loadable _ _, fun h => ?_⟩
  obtain ⟨hc, -⟩ := (updatesOne_iff_fatWord (storeDrive_loadable _ _) (by decide) (by decide)).mp h
  rw [fatWord_updated (fun _ => rfl) (by decide) (by decide), if_pos rfl, if_neg (by decide)] at hc
  exact absurd hc (by decide)

end PotatoOS
