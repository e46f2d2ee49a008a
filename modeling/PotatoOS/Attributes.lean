/-
PotatoOS/Attributes.lean

Which entries a path may lead through.

`directorySearch` compares names only.  So `getFile` also takes a regular file
for a directory, whose contents it reads as entries, and finds volume labels
and parts of long names, which a listing hides.  Whether a path is safe is
decided by the entries that its pieces lead along on the disk (`Trail`), and
only if the file behind them can be read at all.

Main result: `pathSafe_iff`.
-/
import PotatoOS.Fetch

namespace PotatoOS

open Prog

/-- `FILE_READ_ONLY`. -/
def fileReadOnly : UInt8 := 0x01

/-- `FILE_HIDDEN`. -/
def fileHidden : UInt8 := 0x02

/-- `FILE_SYSTEM`. -/
def fileSystem : UInt8 := 0x04

/-- `FILE_LONG_NAME`: the four attributes together mark a part of a long name. -/
def fileLongName : UInt8 := fileReadOnly ||| fileHidden ||| fileSystem ||| fileVolumeId

namespace DirectoryEntry

/-- Do the attributes contain `FILE_LONG_NAME`? -/
def isLongName (e : DirectoryEntry) : Prop := e.attributes &&& fileLongName = fileLongName

/-- Is the `FILE_VOLUME_ID` attribute set? -/
def isVolumeLabel (e : DirectoryEntry) : Prop := e.attributes &&& fileVolumeId = fileVolumeId

instance (e : DirectoryEntry) : Decidable e.isLongName := inferInstanceAs (Decidable (_ = _))

instance (e : DirectoryEntry) : Decidable e.isVolumeLabel := inferInstanceAs (Decidable (_ = _))

end DirectoryEntry

/-- All entries but the last are directories, and none is a long name or a
volume label. -/
structure ThroughDirectories (es : List DirectoryEntry) : Prop where
  directories : ∀ e ∈ es.dropLast, e.isDirectory
  noLongName : ∀ e ∈ es, ¬ e.isLongName
  noLabel : ∀ e ∈ es, ¬ e.isVolumeLabel

/-- Whenever `getFile` returns zero, the components of its path were resolved
through directories. -/
def PathSafe (g : Globals) (s : State) (path : CString) (off : Nat) : Prop :=
  ∀ fuel r s', getFile reliable g fuel path off s = (.value r, s') → r.code = 0 →
    ∃ es s₁, resolvePieces reliable g fuel (piecesOf path) g.rootCluster s = (.value (.ok es), s₁) ∧
      ThroughDirectories es

section

variable {g : Globals} {s : State} {path : CString} {off : Nat}

/-- A file that can be read is reached through directories on a safe path. -/
theorem PathSafe.through (es : List DirectoryEntry) {e : DirectoryEntry} (h : g.IsImage)
    (hsafe : PathSafe g s path off)
    (ht : Trail g (FoundIn g s.disk) (piecesOf path) g.rootCluster (es ++ [e]))
    (hfile : ¬ e.isDirectory) (hsize : SizeOk g e off)
    (hout : ReadsOut g s.disk (getClusterFromEntry g e)) :
    ThroughDirectories (es ++ [e]) := by
  -- a run that reads the file
  obtain ⟨N₁, hN₁⟩ := ht.run (searchSpec_reliable h s.disk)
  obtain ⟨N₂, hN₂⟩ := hout.run off (h.isFat32 ht.le) (getClusterFromEntry_lt g e)
  obtain ⟨s₁, hes, hd⟩ := hN₁ (max N₁ N₂) (Nat.le_max_left _ _) s rfl
  have hloop : readLoop reliable g off (max N₁ N₂) (toSigned (getClusterFromEntry g e)) 0 s₁
      = (.value 0, _) := Prod.ext (hN₂ (max N₁ N₂) (Nat.le_max_right _ _) 0 s₁ hd) rfl
  have hrun := getFile_of_read h.fatType h.bytesPerSector hes hfile hsize hloop
  obtain ⟨es', s₂, hes', hthrough⟩ := hsafe _ _ _ hrun rfl
  rw [hes] at hes'
  cases hes'
  exact hthrough

/-- A path is safe exactly when the entries that it leads along on the disk to a
readable file are directories, and neither long names nor volume labels. -/
theorem pathSafe_iff (h : g.IsImage) :
    PathSafe g s path off ↔ ∀ es e,
      Trail g (FoundIn g s.disk) (piecesOf path) g.rootCluster (es ++ [e]) →
      ¬ e.isDirectory → SizeOk g e off → ReadsOut g s.disk (getClusterFromEntry g e) →
      ThroughDirectories (es ++ [e]) := by
  constructor
  · intro hsafe es e ht hfile hsize hout
    exact hsafe.through es h ht hfile hsize hout
  · intro hall fuel r s' hrun hr
    obtain ⟨es, e, s₁, hes, hfile, hsize, hloop, -⟩ :=
      getFile_eq_zero h.fatType h.bytesPerSector hrun hr
    obtain ⟨ht, hd⟩ := Trail.of_run (searchSpec_reliable h s.disk) rfl hes
    have hout : ReadsOut g s₁.disk (getClusterFromEntry g e) :=
      .of_run (h.isFat32 ht.le) (getClusterFromEntry_lt g e) (congrArg Prod.fst hloop)
    rw [hd] at hout
    exact ⟨es ++ [e], s₁, hes, hall es e ht hfile hsize hout⟩

end

/-! ### A file as a directory -/

/-- The path to the one file of the volume is safe. -/
theorem pathSafe_oneFileState : PathSafe smallVolume oneFileState filePath 1 := by
  refine (pathSafe_iff smallVolume_isImage).mpr fun es e ht _ _ _ => ?_
  have hone := trail_filePath (show dirSlot smallVolume oneFileState.disk 2 0 = fileEntry by decide)
    (by decide) (by decide)
  rw [show es ++ [e] = [fileEntry] from ht.unique hone fun _ _ _ _ => FoundIn.unique]
  refine ⟨by simp, List.forall_mem_singleton.mpr ?_, List.forall_mem_singleton.mpr ?_⟩
  · decide
  · decide

/-- "C:\\AAAAAAAAAAA\\BBBBBBBBBBB" -/
def innerPath : CString :=
  ⟨[0x43, 0x3A, 0x5C] ++ List.replicate 11 0x41 ++ 0x5C :: List.replicate 11 0x42, by decide⟩

/-- An entry that is part of the contents of a file. -/
def innerEntry : DirectoryEntry := (letterEntry 0x42).setField 26 2 4

/-- The volume with a file that begins with the bytes of this entry. -/
def craftedState : State :=
  let s := smallState (fun c => if c = 2 ∨ c = 3 ∨ c = 4 then endCluster32 else 0) fileEntry.bytes
  { s with disk := writeSector s.disk (partStartLba + 41) innerEntry.bytes }

theorem trail_innerPath :
    Trail smallVolume (FoundIn smallVolume craftedState.disk) (piecesOf innerPath) 2
      [fileEntry, innerEntry] := by
  obtain ⟨key₁, hkey₁, hk₁⟩ := searchName_letters (b := 0x41) (by decide) (by decide)
  obtain ⟨key₂, hkey₂, hk₂⟩ := searchName_letters (b := 0x42) (by decide) (by decide)
  have hpieces : piecesOf innerPath = [some (textOf (List.replicate 11 0x41)),
      some (textOf (List.replicate 11 0x42))] := by
    rw [← @fileNamePart_eq innerPath [0x43, 0x3A, 0x5C] (List.replicate 11 0x41)
      (0x5C :: List.replicate 11 0x42) rfl,
      ← @fileNamePart_eq innerPath ([0x43, 0x3A, 0x5C] ++ List.replicate 11 0x41 ++ [0x5C])
        (List.replicate 11 0x42) [] rfl]
    rfl
  rw [hpieces]
  -- both entries stand in the first slot of their cluster
  have hfirst : ∀ {name c e}, smallVolume.Transfers c →
      dirSlot smallVolume craftedState.disk c 0 = e → ¬ IsEnd e → HasName name e →
      FoundIn smallVolume craftedState.disk name c e := by
    rintro name c e ht rfl hend hname
    exact .here ht (lookup_first smallVolume_isImage hend hname)
  refine .step hkey₁ (hfirst (by decide) (by decide) (by decide) ?_)
    (.step hkey₂ (hfirst (by decide) (by decide) (by decide) ?_) .here)
  · rw [hk₁]
    decide
  · rw [hk₂]
    decide

/-- `getFile` returns zero behind a path through a regular file. -/
theorem not_pathSafe_craftedState :
    smallVolume.IsImage ∧ ¬ fileEntry.isDirectory ∧
      ¬ PathSafe smallVolume craftedState innerPath 1 := by
  have h := smallVolume_isImage
  refine ⟨h, by decide, fun hsafe => ?_⟩
  have hout : ReadsOut smallVolume craftedState.disk
      (getClusterFromEntry smallVolume innerEntry) :=
    .next (b := endCluster32) (by decide) (.done (by decide))
  have hthrough := hsafe.through [fileEntry] h trail_innerPath (by decide) (by decide) hout
  exact absurd (hthrough.directories fileEntry (by simp)) (by decide)

end PotatoOS
