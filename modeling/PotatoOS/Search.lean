/-
PotatoOS/Search.lean

What `directorySearch` finds.

The search goes along the chain of a directory, one cluster at a time, and the
slots of the clusters in this order are one list.  `directorySearch_onPartition`
says that a search of the chain is a search of that list, whatever the table and
the rest of the volume look like.  For the names that a path is made of, the
result is then stated without the terms of the code: `FirstMatch` is the first
entry with the key of the name, in front of any end mark.
-/
import PotatoOS.Codec
import PotatoOS.Failing

namespace PotatoOS

open Prog

variable {g : Globals} {c fuel : Nat} {l : List Nat} {s : State} {key filepart : Mem}

/-- The name of the entry is this key. -/
def HasKey (key : List UInt8) (e : DirectoryEntry) : Prop := bytesAt e.bytes 0 11 = key

instance (key : List UInt8) : DecidablePred (HasKey key) := fun _ =>
  inferInstanceAs (Decidable (_ = _))

/-- Entry `i` is the first one with this key, and no end mark is in front of it. -/
def FirstMatch (key : List UInt8) (es : List DirectoryEntry) (i : Nat) (e : DirectoryEntry) :
    Prop :=
  ∃ before after, es = before ++ e :: after ∧ before.length = i ∧ ¬IsEnd e ∧ HasKey key e ∧
    ∀ e' ∈ before, ¬IsEnd e' ∧ ¬HasKey key e'

/-! ### Chains -/

theorem Globals.Single.dirSlots_length (h : g.Single) (d : Disk) (c : Nat) :
    (dirSlots g d c).length = 16 := by
  rw [dirSlots, List.length_map, List.length_range, h.one]

theorem Globals.Single.getD_dirSlots (h : g.Single) {d : Disk} {i : Nat} (hi : i < 16) :
    (dirSlots g d c).getD i 0 = dirSlot g d c i := by
  rw [List.getD_eq_getElem _ _ (by rw [h.dirSlots_length]; exact hi)]
  simp [dirSlots]

/-- One cluster of a search. -/
theorem directorySearch_single (h : g.Single) (hkey : searchName filepart = some key)
    (ht : g.Transfers c) (s : State) (fuel : Nat) :
    ∃ s', s'.disk = s.disk ∧
      directorySearch reliable g filepart (fuel + 1) c s =
        match lookup (nameOf key) (dirSlots g s.disk c) with
        | .hit i => (.value (.ok ((dirSlots g s.disk c).getD i 0, i)), s.loadCluster g c 0)
        | .stop => (.value (.error (-2)), s.loadCluster g c 0)
        | .pass =>
            match nextCluster g s.disk c with
            | none => (.value (.error (-2)), s')
            | some b => directorySearch reliable g filepart fuel b s' := by
  have hdisk := loadCluster_disk s g c 0
  refine ⟨(s.loadCluster g c 0).loadFat g 4 c, hdisk, ?_⟩
  rw [directorySearch_cluster h.toIsFat32.isImage hkey ht]
  rcases hf : lookup (nameOf key) (dirSlots g s.disk c) with i | - | -
  · have hi : i < 16 := h.dirSlots_length s.disk c ▸ (scan_hit_get hf).1
    dsimp only
    rw [h.getD_dirSlots hi]
  · rfl
  · have hread := fatRead_fat32 (s := s.loadCluster g c 0) h.toIsFat32 ht.1 (h.entOffset_lt c)
    rw [← hdisk]
    exact searchNext_run h.toIsFat32 hread _

/-- The search of a chain is a search of its entries. -/
theorem directorySearch_onPartition (h : g.Single) (hkey : searchName filepart = some key)
    (hch : IsChain g s.disk c l) (hpart : ∀ a ∈ l, g.OnPartition a) (hfuel : l.length ≤ fuel) :
    ∃ s', directorySearch reliable g filepart fuel c s
        = (.value (searchResult (nameOf key) (dirEntries g s.disk l)), s') ∧
      s'.disk = s.disk := by
  have ht : ∀ a ∈ l, g.Transfers a := fun a ha => ⟨hch.inRange a ha, hpart a ha, h.le⟩
  replace hch := hch.chain
  generalize hd : s.disk = d at hch ⊢
  -- what the search makes of a cluster followed by the others
  have hcons (c : Nat) (l : List Nat) :=
    @searchResult_append (nameOf key) _ (h.dirSlots_length d c) (dirEntries g d l)
  -- by induction on the chain, for the disk that no step changes
  induction hch generalizing fuel s with
  | @last c hn =>
      obtain ⟨fuel, rfl⟩ : ∃ m, fuel = m + 1 := Nat.exists_eq_add_of_le' hfuel
      obtain ⟨s', hs', hrun⟩ :=
        directorySearch_single h hkey (ht c List.mem_cons_self) s fuel
      rw [hrun, hd, hn, dirEntries_cons, hcons]
      have hloaded := (loadCluster_disk s g c 0).trans hd
      rcases lookup (nameOf key) (dirSlots g d c) with i | - | -
      · exact ⟨_, rfl, hloaded⟩
      · exact ⟨_, rfl, hloaded⟩
      · exact ⟨_, rfl, hs'.trans hd⟩
  | @cons c b l hn _ ih =>
      obtain ⟨fuel, rfl⟩ : ∃ m, fuel = m + 1 :=
        Nat.exists_eq_add_of_le' (Nat.le_trans (Nat.le_add_left 1 _) hfuel)
      obtain ⟨s', hs', hrun⟩ :=
        directorySearch_single h hkey (ht c List.mem_cons_self) s fuel
      rw [hrun, hd, hn, dirEntries_cons, hcons]
      have hloaded := (loadCluster_disk s g c 0).trans hd
      rcases lookup (nameOf key) (dirSlots g d c) with i | - | -
      · exact ⟨_, rfl, hloaded⟩
      · exact ⟨_, rfl, hloaded⟩
      · rw [List.length_cons] at hfuel
        exact ih (fun a ha => hpart a (List.mem_cons_of_mem _ ha)) (by omega)
          (fun a ha => ht a (List.mem_cons_of_mem _ ha)) (hs'.trans hd)

/-! ### Keys -/

theorem hasName_nameOf_iff (e : DirectoryEntry) :
    HasName (nameOf key) e ↔ HasKey (bytesAt key 0 11) e := by
  rw [HasName, HasKey, bytesAt, bytesAt, List.map_inj_left, funext_iff]
  constructor
  · intro h i hi
    rw [Nat.zero_add, DirectoryEntry.bytes_of_lt e (by have := List.mem_range.mp hi; omega)]
    exact h ⟨i, List.mem_range.mp hi⟩
  · intro h i
    have hi := h i (List.mem_range.mpr i.isLt)
    rwa [Nat.zero_add, DirectoryEntry.bytes_of_lt e (by omega)] at hi

theorem lookup_eq_hit_iff {es : List DirectoryEntry} {i : Nat} :
    lookup (nameOf key) es = .hit i ↔ ∃ e, FirstMatch (bytesAt key 0 11) es i e := by
  simp only [lookup, scan_eq_hit_iff, FirstMatch, Neutral, hasName_nameOf_iff]
  constructor
  · rintro ⟨u, b, w, h⟩
    exact ⟨b, u, w, h⟩
  · rintro ⟨b, u, w, h⟩
    exact ⟨u, b, w, h⟩

theorem FirstMatch.getD_eq {k : List UInt8} {es : List DirectoryEntry} {i : Nat}
    {e : DirectoryEntry} (h : FirstMatch k es i e) : es.getD i 0 = e := by
  obtain ⟨before, after, rfl, rfl, -⟩ := h
  simp

/-- "AAAAAAAA.AAA" -/
def letterName : ShortName where
  base := List.replicate 8 0x41
  dot := true
  ext := List.replicate 3 0x41
  base_ne_nil := by decide
  length_base := by decide
  length_ext := by decide
  dot_of_ext _ := rfl
  base_ok b hb := by rw [List.eq_of_mem_replicate hb]; decide
  ext_ok b hb := by rw [List.eq_of_mem_replicate hb]; decide

end PotatoOS
