/-
PotatoOS/Fetch.lean

Files on arbitrary images: `getFile` behind a path that is resolved.

The loop of `getFile` follows the links of the table (`readLink`) until a
cluster that it takes for the end of the chain.  `ReadsOut` says on the disk
that it comes to one, and `readLoop_zero_iff` that the loop then succeeds.
`getFile_eq_zero` and `getFile_of_read` say when the whole call does.
-/
import PotatoOS.Walk
import PotatoOS.Window

namespace PotatoOS

open Prog

/-! ### Chains of files -/

/-- Where the loop of `getFile` goes on behind a cluster. -/
def readLink (g : Globals) (d : Disk) (c : Nat) : Option Nat :=
  if toSigned c < endCluster32 ∧ Continues g d c then some (fatValue g d c) else none

/-- The links lead to an end mark. -/
inductive ReadsOut (g : Globals) (d : Disk) : Nat → Prop
  | done {c : Nat} : ¬ toSigned c < endCluster32 → ReadsOut g d c
  | next {c b : Nat} : readLink g d c = some b → ReadsOut g d b → ReadsOut g d c

section

variable {g : Globals} {d : Disk} {c b count off fuel : Nat} {s : State}

theorem readLink_eq_some_iff :
    readLink g d c = some b ↔ (toSigned c < endCluster32 ∧ Continues g d c) ∧
      fatValue g d c = b := by
  rw [readLink]
  split
  next h => rw [Option.some.injEq, and_iff_right h]
  next h => exact iff_of_false (Option.some_ne_none b).symm fun h' => h h'.1

theorem readLink_inRange (h : readLink g d c = some b) : g.InRange c :=
  (readLink_eq_some_iff.mp h).1.2.1

theorem readLink_lt (h : readLink g d c = some b) : b < 2 ^ 32 := by
  have := fatValue_lt g d c
  rw [(readLink_eq_some_iff.mp h).2] at this
  omega

theorem toUnsigned_toSigned (hc : c < 2 ^ 32) : toUnsigned (toSigned c) = c := by
  rw [toUnsigned, toSigned]
  split
  · omega
  · omega

theorem toSigned_fatValue (g : Globals) (d : Disk) (c : Nat) :
    toSigned (fatValue g d c) = (fatValue g d c : Nat) := by
  have := fatValue_lt g d c
  exact if_pos (by omega)

/-- The loop follows its links. -/
theorem readLoop_link (s : State) (count off : Nat) (h : g.IsFat32) (hc : c < 2 ^ 32)
    (hb : readLink g s.disk c = some b) :
    ∃ s', s'.disk = s.disk ∧ ∀ fuel, readLoop reliable g off (fuel + 1) (toSigned c) count s
      = readLoop reliable g off fuel (toSigned b) (count + 1) s' := by
  obtain ⟨⟨hlt, hcont⟩, rfl⟩ := readLink_eq_some_iff.mp hb
  obtain ⟨s', hd, -, -, hround⟩ := readLoop_round s count off h hlt
  rw [toUnsigned_toSigned hc] at hround
  refine ⟨s', hd, fun fuel => ?_⟩
  rw [(hround fuel).1 hcont, toSigned_fatValue]

/-- A cluster that the loop takes for the end of the chain ends it. -/
theorem readLoop_done (h : ¬ toSigned c < endCluster32) :
    readLoop reliable g off (fuel + 1) (toSigned c) count s = (.value 0, s) := by
  rw [readLoop, if_neg h]
  rfl

/-- Any other cluster without a link is an error. -/
theorem readLoop_broken (off fuel count : Nat) (h : g.IsFat32) (hc : c < 2 ^ 32)
    (hlt : toSigned c < endCluster32) (hno : ¬ Continues g s.disk c) :
    (readLoop reliable g off (fuel + 1) (toSigned c) count s).1 = .value (-1) ∨
      (readLoop reliable g off (fuel + 1) (toSigned c) count s).1 = .stop .undefined := by
  obtain ⟨r, s₁, hread, hd, -⟩ := clusterRead_window h.toSectors512 c (count + off) s
  rw [← hd] at hno
  -- the table read fails, ends the program or gives the bad mark
  have hcases := fatRead_of_not_continues h hno
  rw [readLoop, if_pos hlt, toUnsigned_toSigned hc, bind_value hread]
  rcases hr : fatRead reliable g c s₁ with ⟨v | e, s₂⟩
  · rw [hr] at hcases
    rw [bind_value hr]
    rcases hcases with hv | hv | hv
    · cases hv
      exact .inl rfl
    · cases hv
      exact .inl rfl
    · cases hv
  · rw [hr] at hcases
    rw [bind_stop hr]
    rcases hcases with hv | hv | hv
    · cases hv
    · cases hv
    · exact .inr hv

theorem readLoop_last (h : g.IsFat32) (hc : c < 2 ^ 32) (hb : readLink g s.disk c = none) :
    (readLoop reliable g off (fuel + 1) (toSigned c) count s).1 ≠ .stop .exhausted ∧
      ((readLoop reliable g off (fuel + 1) (toSigned c) count s).1 = .value 0 →
        ¬ toSigned c < endCluster32) := by
  by_cases hlt : toSigned c < endCluster32
  · have hno : ¬ Continues g s.disk c := by
      intro hcont
      rw [readLink, if_pos ⟨hlt, hcont⟩] at hb
      cases hb
    rcases readLoop_broken off fuel count h hc hlt hno with hr | hr
    · simp [hr]
    · simp [hr]
  · simp [readLoop_done hlt, hlt]

theorem readLoop_loop (h : g.IsFat32) (off : Nat) (d : Disk) :
    Loop (fun fuel (i : { c // c < 2 ^ 32 } × Nat) =>
        readLoop reliable g off fuel (toSigned i.1.1) i.2)
      (fun i => i.1.1) (readLink g d) (fun s => s.disk = d) where
  none_left _ _ := rfl
  round := by
    rintro ⟨⟨c, hc⟩, count⟩ s b rfl hb
    obtain ⟨s', hd, hround⟩ := readLoop_link s count off h hc hb
    exact ⟨⟨⟨b, readLink_lt hb⟩, count + 1⟩, s', rfl, hd, hround⟩
  last := by
    rintro ⟨⟨c, hc⟩, count⟩ s rfl hb
    exact ⟨1, (readLoop_last h hc hb).1⟩

/-- The loop ends exactly when the links do not lead back. -/
theorem readLoop_halts_iff (h : g.IsFat32) (hc : c < 2 ^ 32) :
    Halts (fun fuel => readLoop reliable g off fuel (toSigned c) count) s
      ↔ ¬ Cycles (readLink g s.disk) c :=
  (readLoop_loop h off s.disk).halts_iff (i := (⟨c, hc⟩, count)) rfl (finite_inRange g)
    fun _ _ => readLink_inRange

theorem ReadsOut.run (off : Nat) (h : g.IsFat32) (hr : ReadsOut g d c) (hc : c < 2 ^ 32) :
    ∃ N, ∀ fuel ≥ N, ∀ count (s : State), s.disk = d →
      (readLoop reliable g off fuel (toSigned c) count s).1 = .value 0 := by
  induction hr with
  | done hend =>
      refine ⟨1, ?_⟩
      rintro (_ | fuel) hfuel count s -
      · cases hfuel
      · rw [readLoop_done hend]
  | next hb _ ih =>
      obtain ⟨N, hN⟩ := ih (readLink_lt hb)
      refine ⟨N + 1, ?_⟩
      rintro (_ | fuel) hfuel count s rfl
      · cases hfuel
      · obtain ⟨s', hd, hround⟩ := readLoop_link s count off h hc hb
        rw [hround fuel]
        exact hN fuel (Nat.le_of_succ_le_succ hfuel) _ s' hd

theorem ReadsOut.of_run (h : g.IsFat32) (hc : c < 2 ^ 32)
    (hrun : (readLoop reliable g off fuel (toSigned c) count s).1 = .value 0) :
    ReadsOut g s.disk c := by
  induction fuel generalizing c count s with
  | zero => cases hrun
  | succ fuel ih =>
      rcases hb : readLink g s.disk c with - | b
      · exact .done ((readLoop_last h hc hb).2 hrun)
      · obtain ⟨s', hd, hround⟩ := readLoop_link s count off h hc hb
        rw [hround fuel] at hrun
        exact .next hb (hd ▸ ih (readLink_lt hb) hrun)

/-- The loop succeeds exactly when the links lead to an end mark. -/
theorem readLoop_zero_iff (h : g.IsFat32) (hc : c < 2 ^ 32) :
    (∃ fuel, (readLoop reliable g off fuel (toSigned c) count s).1 = .value 0)
      ↔ ReadsOut g s.disk c := by
  constructor
  · rintro ⟨fuel, hrun⟩
    exact .of_run h hc hrun
  · intro hr
    obtain ⟨N, hN⟩ := hr.run off h hc
    exact ⟨N, hN N (Nat.le_refl N) count s rfl⟩

end

/-! ### Files -/

/-- What `getFile` does once its path is resolved. -/
def readFound (env : Env) (g : Globals) (fuel readInOffset : Nat) :
    Except Int (Nat × Option DirectoryEntry) → Prog State FileResult
  | .error code => pure ⟨code, none, none⟩
  | .ok (_, none) => halt .undefined
  | .ok (_, some fileInfo) =>
      if fileInfo.isDirectory then pure ⟨-3, some fileInfo, none⟩
      else if readInOffset < 1 ∨ (readInOffset * g.bytesPerSector * g.sectorsPerCluster
          + fileInfo.fileSize) % 2 ^ 32 > 262144 then
        pure ⟨-3, some fileInfo, none⟩
      else do
        let code ← readLoop env g readInOffset fuel
          (toSigned (getClusterFromEntry g fileInfo)) 0
        if code ≠ 0 then return ⟨code, some fileInfo, none⟩
        return ⟨0, some fileInfo, some ((diskLocation
          + g.sectorsPerCluster * g.bytesPerSector * readInOffset) % 2 ^ 32)⟩

section

variable {env : Env} {g : Globals} {d : Disk} {c off fuel fuel' : Nat} {s s' : State}
  {path : CString} {e : DirectoryEntry} {es : List DirectoryEntry} {ps : List (Option Mem)}

theorem getFile_eq_readFound (h : g.fatType = 32) :
    getFile env g fuel path off = walkPath env g fuel path >>= readFound env g fuel off := by
  rw [getFile, if_neg (not_not.mpr h)]
  refine congrArg _ ?_
  funext r
  rcases r with code | ⟨c, - | e⟩
  · rfl
  · rfl
  · rfl

theorem readFound_mono (hle : fuel ≤ fuel') (off : Nat)
    (r : Except Int (Nat × Option DirectoryEntry)) :
    Extends (readFound env g fuel off r) (readFound env g fuel' off r) := by
  rcases r with code | ⟨c, - | e⟩
  · exact .refl _
  · exact .refl _
  · exact .ite (.refl _) (.ite (.refl _) (.bind (readLoop_mono hle off _ 0) fun _ => .refl _))

/-- The loop runs for a file that passes the check. -/
theorem readFound_file (h : g.bytesPerSector = 512) (hfile : ¬ e.isDirectory)
    (hsize : SizeOk g e off) :
    readFound env g fuel off (.ok (c, some e)) =
      (readLoop env g off fuel (toSigned (getClusterFromEntry g e)) 0 >>= fun code =>
        if code ≠ 0 then pure ⟨code, some e, none⟩
        else pure ⟨0, some e, some ((diskLocation
          + g.sectorsPerCluster * g.bytesPerSector * off) % 2 ^ 32)⟩) := by
  obtain ⟨h₁, h₂⟩ := hsize
  rw [readFound, if_neg hfile, if_neg]
  rw [h]
  omega

/-- Nothing else is read. -/
theorem readFound_other (h : g.bytesPerSector = 512)
    (hno : ¬ (¬ e.isDirectory ∧ SizeOk g e off)) :
    readFound env g fuel off (.ok (c, some e)) = pure ⟨-3, some e, none⟩ := by
  rw [readFound]
  by_cases hfile : e.isDirectory
  · rw [if_pos hfile]
  · have hsize : ¬ SizeOk g e off := fun hsize => hno ⟨hfile, hsize⟩
    rw [SizeOk] at hsize
    rw [if_neg hfile, h, if_pos (by omega)]

theorem getClusterFromEntry_lt (g : Globals) (e : DirectoryEntry) :
    getClusterFromEntry g e < 2 ^ 32 := Nat.mod_lt _ (by decide)

theorem lastFound_snoc (g : Globals) (c : Nat) (info : Option DirectoryEntry)
    (es : List DirectoryEntry) (e : DirectoryEntry) :
    lastFound g c info (es ++ [e]) = (getClusterFromEntry g e, some e) := by
  simp [lastFound]

/-- A path is resolved to the last entry that its pieces lead to. -/
theorem walkPath_eq_some_iff :
    walkPath env g fuel path s = (.value (.ok (c, some e)), s') ↔
      c = getClusterFromEntry g e ∧ ∃ es,
        resolvePieces env g fuel (piecesOf path) g.rootCluster s
          = (.value (.ok (es ++ [e])), s') := by
  rw [walkPath_eq_resolvePieces]
  constructor
  · intro hrun
    obtain ⟨r, s₁, hr, hlast⟩ := bind_eq_value hrun
    rcases r with code | es
    · cases hlast
    rcases List.eq_nil_or_concat es with rfl | ⟨es, e', rfl⟩
    · cases hlast
    · rw [List.concat_eq_append] at hr hlast
      simp only [Except.map, lastFound_snoc, pure_apply] at hlast
      cases hlast
      exact ⟨rfl, es, hr⟩
  · rintro ⟨rfl, es, hr⟩
    rw [bind_value hr]
    simp [Except.map, lastFound_snoc]

/-- The clusters of a volume on which something was found can be read. -/
theorem FoundIn.le {name : Name} (hf : FoundIn g d name c e) : g.sectorsPerCluster ≤ 0x7F := by
  induction hf with
  | here ht => exact ht.2.2
  | next _ _ ih => exact ih

theorem Trail.le (ht : Trail g (FoundIn g d) ps c (es ++ [e])) : g.sectorsPerCluster ≤ 0x7F := by
  generalize hall : es ++ [e] = all at ht
  cases ht with
  | here => simp at hall
  | step _ hf _ => exact hf.le

theorem walkPath_halts_iff (h : g.IsImage) :
    Halts (fun fuel => walkPath reliable g fuel path) s ↔
      ∀ b name, Searched g s.disk (piecesOf path) g.rootCluster b name →
        ¬ Cycles (searchLink g s.disk name) b := by
  have heq : (fun fuel => walkPath reliable g fuel path) = fun fuel =>
      resolvePieces reliable g fuel (piecesOf path) g.rootCluster >>= fun r =>
        pure (r.map (lastFound g g.rootCluster none)) := by
    funext fuel s
    exact walkPath_eq_resolvePieces reliable g fuel path s
  rw [heq, halts_bind_iff (fun hle => resolvePieces_mono hle _ _) fun _ _ => .refl _,
    resolvePieces_halts_iff h]
  exact and_iff_left fun _ _ _ _ => .of_total 0 (.pure _)

end

section

variable {env : Env} {g : Globals} {off fuel : Nat} {s s' : State} {path : CString}

/-- `getFile` returns zero only behind a path that leads to a file which passes
the check and whose chain is read to its end. -/
theorem getFile_eq_zero {r : FileResult} (h : g.fatType = 32) (hbps : g.bytesPerSector = 512)
    (hrun : getFile env g fuel path off s = (.value r, s')) (hr : r.code = 0) :
    ∃ es e s₁, resolvePieces env g fuel (piecesOf path) g.rootCluster s
        = (.value (.ok (es ++ [e])), s₁) ∧
      ¬ e.isDirectory ∧ SizeOk g e off ∧
      readLoop env g off fuel (toSigned (getClusterFromEntry g e)) 0 s₁ = (.value 0, s') ∧
      r = ⟨0, some e, some ((diskLocation
        + g.sectorsPerCluster * g.bytesPerSector * off) % 2 ^ 32)⟩ := by
  rw [getFile_eq_readFound h] at hrun
  obtain ⟨p, s₁, hwalk, hread⟩ := bind_eq_value hrun
  rcases p with code | ⟨c, - | e⟩
  · -- a code of the search is never zero
    have hcode : IsErrorCode (.error code) :=
      walkPath_yields env g fuel path s _ (congrArg Prod.fst hwalk)
    cases hread
    rcases hcode with rfl | rfl
    · cases hr
    · cases hr
  · cases hread
  · obtain ⟨-, es, hes⟩ := walkPath_eq_some_iff.mp hwalk
    refine ⟨es, e, s₁, hes, ?_⟩
    by_cases hok : ¬ e.isDirectory ∧ SizeOk g e off
    · refine ⟨hok.1, hok.2, ?_⟩
      rw [readFound_file hbps hok.1 hok.2] at hread
      obtain ⟨code, s₂, hloop, hret⟩ := bind_eq_value hread
      by_cases hcode : code = 0
      · subst hcode
        cases hret
        exact ⟨hloop, rfl⟩
      · rw [if_pos hcode] at hret
        cases hret
        exact absurd hr hcode
    · rw [readFound_other hbps hok] at hread
      cases hread
      cases hr

/-- Behind such a path it returns zero. -/
theorem getFile_of_read {es : List DirectoryEntry} {e : DirectoryEntry} {s₁ : State}
    (h : g.fatType = 32) (hbps : g.bytesPerSector = 512)
    (hes : resolvePieces env g fuel (piecesOf path) g.rootCluster s
      = (.value (.ok (es ++ [e])), s₁))
    (hfile : ¬ e.isDirectory) (hsize : SizeOk g e off)
    (hloop : readLoop env g off fuel (toSigned (getClusterFromEntry g e)) 0 s₁ = (.value 0, s')) :
    getFile env g fuel path off s = (.value ⟨0, some e, some ((diskLocation
      + g.sectorsPerCluster * g.bytesPerSector * off) % 2 ^ 32)⟩, s') := by
  rw [getFile_eq_readFound h, bind_value (walkPath_eq_some_iff.mpr ⟨rfl, es, hes⟩),
    readFound_file hbps hfile hsize, bind_value hloop]
  rfl

end

/-! ### The first slot of a directory -/

section

variable {g : Globals} {d : Disk} {name : Name} {c : Nat}

theorem dirSlots_eq_cons (h : g.IsImage) (d : Disk) (c : Nat) :
    ∃ rest, dirSlots g d c = dirSlot g d c 0 :: rest := by
  obtain ⟨n, hn⟩ : ∃ n, 16 * g.sectorsPerCluster = n + 1 :=
    Nat.exists_eq_add_of_le' (Nat.le_trans h.one_le (Nat.le_mul_of_pos_left _ (by decide)))
  rw [dirSlots, hn, List.range_succ_eq_map, List.map_cons]
  exact ⟨_, rfl⟩

theorem lookup_first (h : g.IsImage) (hend : ¬ IsEnd (dirSlot g d c 0))
    (hname : HasName name (dirSlot g d c 0)) : lookup name (dirSlots g d c) = .hit 0 := by
  obtain ⟨rest, hslots⟩ := dirSlots_eq_cons h d c
  rw [hslots, lookup, scan, if_neg hend, if_pos hname]

end

theorem piecesOf_filePath : piecesOf filePath = [some (textOf (List.replicate 11 0x41))] := by
  rw [← @fileNamePart_eq filePath [0x43, 0x3A, 0x5C] (List.replicate 11 0x41) [] rfl]
  rfl

/-- The path leads to what the first slot of the root directory holds. -/
theorem trail_filePath {d : Disk} {e : DirectoryEntry} (hslot : dirSlot smallVolume d 2 0 = e)
    (hend : ¬ IsEnd e) (hname : e.fileName = fun _ => 0x41) :
    Trail smallVolume (FoundIn smallVolume d) (piecesOf filePath) 2 [e] := by
  subst hslot
  obtain ⟨key, hkey, hk⟩ := searchName_letters (b := 0x41) (by decide) (by decide)
  rw [piecesOf_filePath]
  refine .step hkey (.here (by decide) (lookup_first smallVolume_isImage hend ?_)) .here
  rw [hk]
  exact hname

end PotatoOS
