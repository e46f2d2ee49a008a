/-
PotatoOS/Split.lean

The loop over a path, with every access to the path checked.

`pathLoop` is the loop of `getFile` and of `putFile` once more, for any search:
it tests the character in front of the one it looks at, keeps the start of a
component in 16 bits, and has no defined behaviour where it reads behind the zero
byte of the path.  Because the search is a parameter, its calls can be put on
record (`logged`), and the loop of Path.lean is the same loop
(`walkPath_eq_pathLoop`).

For paths of up to 65535 characters the loop is one search for each component
(`pathLoop_eq`): only the start behind the last component may not fit 16 bits,
and that one is not used.
-/
import PotatoOS.Fetch

namespace PotatoOS

open Prog

/-- A character of a path; there is none behind the zero byte. -/
def CString.read (p : CString) (i : Nat) : Option UInt8 :=
  if i ≤ p.1.length then some (p.at_ i) else none

section

variable {σ : Type} (g : Globals)
  (search : Mem → Nat → Prog σ (Except Int (DirectoryEntry × Nat)))

/-- What follows a search: the code if it fails, the rest of the loop if not. -/
def goOn (rest : Nat → Option DirectoryEntry → Prog σ (Except Int (Nat × Option DirectoryEntry))) :
    Except Int (DirectoryEntry × Nat) → Prog σ (Except Int (Nat × Option DirectoryEntry))
  | .error code => pure (.error code)
  | .ok (entry, _) => rest (getClusterFromEntry g entry) (some entry)

/-- The loop over the path.  Its copy to `fileNamePart` reads no character that the loop has not
come past. -/
def pathLoop (path : CString) : Nat → Nat → Nat → Nat → Option DirectoryEntry →
    Prog σ (Except Int (Nat × Option DirectoryEntry))
  | 0, _, _, _, _ => halt .exhausted
  | n + 1, iterator, start, activeCluster, fileInfo =>
      -- the condition of the loop is about the character before
      match path.read (iterator - 1) with
      | none => halt .undefined
      | some before =>
          if before = 0 then pure (.ok (activeCluster, fileInfo))
          else
            match path.read iterator with
            | none => halt .undefined
            | some here =>
                if here = 0x5C ∨ here = 0 then
                  if iterator - start > 256 then halt .undefined
                  else search (fileNamePart path start (iterator - start)) activeCluster >>=
                    goOn g (pathLoop path n (iterator + 1) ((iterator + 1) % 2 ^ 16))
                else pathLoop path n (iterator + 1) start activeCluster fileInfo

/-- Search one component after the other. -/
def searchEach : List (List UInt8) → Nat → Option DirectoryEntry →
    Prog σ (Except Int (Nat × Option DirectoryEntry))
  | [], activeCluster, fileInfo => pure (.ok (activeCluster, fileInfo))
  | w :: ws, activeCluster, _ => search (textOf w) activeCluster >>= goOn g (searchEach ws)

/-- The same search with its arguments on record. -/
def logged (part : Mem) (c : Nat) :
    Prog (σ × List (Mem × Nat)) (Except Int (DirectoryEntry × Nat)) := do
  modify fun t => (t.1, t.2 ++ [(part, c)])
  zoom Prod.fst (fun t s => (s, t.2)) (search part c)

/-- All searches succeed, and find these entries. -/
inductive AllFound : List (List UInt8) → Nat → σ → List DirectoryEntry → σ → Prop
  | here {c : Nat} {s : σ} : AllFound [] c s [] s
  | step {w : List UInt8} {ws : List (List UInt8)} {c k : Nat} {s s₁ s' : σ} {e : DirectoryEntry}
      {es : List DirectoryEntry} : search (textOf w) c s = (.value (.ok (e, k)), s₁) →
      AllFound ws (getClusterFromEntry g e) s₁ es s' → AllFound (w :: ws) c s (e :: es) s'

/-- One call for each component, each in the directory of the entry found before. -/
def callsOf (ws : List (List UInt8)) (c : Nat) (es : List DirectoryEntry) : List (Mem × Nat) :=
  (ws.map textOf).zip (c :: es.map (getClusterFromEntry g))

end

/-! ### Components -/

section

variable {σ : Type} {g : Globals} {search : Mem → Nat → Prog σ (Except Int (DirectoryEntry × Nat))}
  {path : CString} {n c : Nat} {info : Option DirectoryEntry}

theorem read_of_append {pre : List UInt8} {b : UInt8} {rest : List UInt8}
    (hp : path.1 = pre ++ b :: rest) : path.read pre.length = some b := by
  rw [CString.read, if_pos (by simp [hp]), CString.at_, hp,
    List.getD_append_right _ _ _ _ le_rfl, Nat.sub_self]
  rfl

theorem read_length (path : CString) : path.read path.1.length = some 0 := by
  rw [CString.read, if_pos le_rfl, CString.at_, List.getD_eq_default _ _ le_rfl]

/-- A character in front of the end is there and is not the zero byte. -/
theorem read_lt {i : Nat} (hi : i < path.1.length) :
    ∃ b, path.read i = some b ∧ b ≠ 0 := by
  have hmem := List.getElem_mem hi
  refine ⟨path.1[i], ?_, fun h => path.2 (by rwa [h] at hmem)⟩
  rw [CString.read, if_pos hi.le, CString.at_, List.getD_eq_getElem _ _ hi]

/-- One round of the loop in front of the end of the path. -/
theorem pathLoop_succ {iterator start : Nat} {here : UInt8} (h₁ : 1 ≤ iterator)
    (hle : iterator ≤ path.1.length) (hread : path.read iterator = some here) :
    pathLoop g search path (n + 1) iterator start c info =
      if here = 0x5C ∨ here = 0 then
        if iterator - start > 256 then halt .undefined
        else search (fileNamePart path start (iterator - start)) c >>=
          goOn g (pathLoop g search path n (iterator + 1) ((iterator + 1) % 2 ^ 16))
      else pathLoop g search path n (iterator + 1) start c info := by
  have hlt : iterator - 1 < path.1.length := by omega
  obtain ⟨before, hbefore, hne⟩ := read_lt hlt
  rw [pathLoop, hbefore]
  dsimp only
  rw [if_neg hne, hread]

/-- Behind the end of the path the loop ends. -/
theorem pathLoop_end (start : Nat) :
    pathLoop g search path (n + 1) (path.1.length + 1) start c info = pure (.ok (c, info)) := by
  rw [pathLoop, Nat.add_sub_cancel, read_length]
  rfl

/-- The loop searches the components that are left. -/
theorem pathLoop_eq (hlen : path.1.length < 2 ^ 16) (rest : List UInt8) :
    ∀ pre cur : List UInt8, path.1 = pre ++ cur ++ rest → 1 ≤ pre.length + cur.length →
      (∀ w ∈ splitPath cur rest, w.length ≤ 256) → ∀ c info, ∀ n ≥ rest.length + 2,
      pathLoop g search path n (pre.length + cur.length) pre.length c info
        = searchEach g search (splitPath cur rest) c info := by
  -- on the characters that are still to be read
  induction rest with
  | nil =>
      intro pre cur hp h₁ hw c info n hn
      obtain ⟨n, rfl⟩ : ∃ m, n = m + 2 := Nat.exists_eq_add_of_le' hn
      have hl : path.1.length = pre.length + cur.length := by simp [hp]
      have hcur : ¬cur.length > 256 := Nat.not_lt.mpr (hw cur (by simp [splitPath]))
      rw [pathLoop_succ h₁ hl.ge (hl ▸ read_length path), if_pos (.inr rfl),
        Nat.add_sub_cancel_left, if_neg hcur, fileNamePart_eq hp, ← hl, splitPath, searchEach]
      congr 1
      -- the loop ends behind this component, whatever its start is then
      funext r
      rcases r with code | ⟨e, k⟩
      · rfl
      · exact pathLoop_end _
  | cons b rest ih =>
      intro pre cur hp h₁ hw c info n hn
      obtain ⟨n, rfl⟩ : ∃ m, n = m + 1 := Nat.exists_eq_add_of_le' (by omega)
      have hl : path.1.length = pre.length + cur.length + (rest.length + 1) := by
        simp [hp, Nat.add_assoc]
      have hread : path.read (pre.length + cur.length) = some b := by
        rw [← List.length_append]
        exact read_of_append hp
      have hb : b ≠ 0 := fun e => path.2 (by rw [hp, e]; simp)
      rw [List.length_cons] at hn
      rw [pathLoop_succ h₁ (by omega) hread, splitPath]
      by_cases hsep : b = 0x5C
      · rw [splitPath, if_pos hsep, List.forall_mem_cons] at hw
        have hnext (c : Nat) (info : Option DirectoryEntry) :
            pathLoop g search path n (pre.length + cur.length + 1) (pre.length + cur.length + 1)
              c info = searchEach g search (splitPath [] rest) c info := by
          have := ih (pre ++ cur ++ [b]) [] (by rw [hp]; simp) (by simp; omega) hw.2 c info n
            (by omega)
          simpa [Nat.add_assoc] using this
        rw [if_pos (.inl hsep), if_pos hsep, Nat.add_sub_cancel_left,
          if_neg (Nat.not_lt.mpr hw.1), Nat.mod_eq_of_lt (by omega), fileNamePart_eq hp, searchEach]
        rw [funext fun c => funext fun info => hnext c info]
      · rw [splitPath, if_neg hsep] at hw
        rw [if_neg (by simp [hsep, hb]), if_neg hsep]
        have := ih pre (cur ++ [b]) (by rw [hp]; simp) (by simp; omega) hw c info n (by omega)
        simpa [Nat.add_assoc] using this

/-- The loop searches the components of the path. -/
theorem pathLoop_components (h₃ : 3 ≤ path.1.length) (hlen : path.1.length < 2 ^ 16)
    (hw : ∀ w ∈ components path, w.length ≤ 256) (hn : path.1.length ≤ n) :
    pathLoop g search path n 3 3 c info = searchEach g search (components path) c info := by
  have hp : path.1 = path.1.take 3 ++ [] ++ path.1.drop 3 := by simp
  have htake : (path.1.take 3).length = 3 := by simp [h₃]
  have := @pathLoop_eq σ g search path hlen (path.1.drop 3) _ [] hp (by omega) hw c info n
    (by rw [List.length_drop]; omega)
  rw [htake] at this
  exact this

theorem walkLoop_eq_pathLoop {env : Env} {fuel : Nat} (m : Nat) {iterator start : Nat}
    (h₁ : 1 ≤ iterator) (hm : iterator + m = path.1.length + 1) (hn : m < n) :
    walkLoop env g fuel path m iterator start c info
      = pathLoop g (fun part => directorySearch env g part fuel) path n iterator start c info := by
  obtain ⟨n, rfl⟩ : ∃ k, n = k + 1 := Nat.exists_eq_add_of_le' (by omega)
  induction m generalizing n iterator start c info with
  | zero =>
      rw [Nat.add_zero] at hm
      rw [hm, pathLoop_end, walkLoop]
  | succ m ih =>
      obtain ⟨n, rfl⟩ : ∃ k, n = k + 1 := Nat.exists_eq_add_of_le' (by omega)
      -- the terminator counts as a character, so the loop reads within the string
      have hread : path.read iterator = some (path.at_ iterator) := if_pos (by omega)
      have hrest (start c : Nat) (info : Option DirectoryEntry) :
          walkLoop env g fuel path m (iterator + 1) start c info
            = pathLoop g (fun part => directorySearch env g part fuel) path (n + 1) (iterator + 1)
              start c info := ih (by omega) (by omega) n (by omega)
      rw [pathLoop_succ h₁ (by omega) hread, walkLoop]
      -- a separator ends a piece, which is searched if it is not too long
      by_cases hsep : path.at_ iterator = 0x5C ∨ path.at_ iterator = 0
      · rw [if_pos hsep, if_pos hsep]
        by_cases hlong : iterator - start > 256
        · rw [if_pos hlong, if_pos hlong]
          rfl
        · rw [if_neg hlong, if_neg hlong]
          refine bind_congr fun r => ?_
          rcases r with code | ⟨e, k⟩
          · rfl
          · exact hrest _ _ _
      · rw [if_neg hsep, if_neg hsep]
        exact hrest _ _ _

/-- The loop of `getFile` and `putFile` is this loop. -/
theorem walkPath_eq_pathLoop {env : Env} {fuel : Nat} (h₂ : 2 ≤ path.1.length)
    (hn : path.1.length ≤ n) :
    walkPath env g fuel path
      = pathLoop g (fun part => directorySearch env g part fuel) path n 3 3 g.rootCluster none := by
  rw [walkPath, if_neg (by omega)]
  exact walkLoop_eq_pathLoop _ (by decide) (by omega) (by omega)

/-! ### The calls of the search -/

variable {ws : List (List UInt8)} {es : List DirectoryEntry} {s s' : σ}

theorem AllFound.run (h : AllFound g search ws c s es s') (info : Option DirectoryEntry) :
    searchEach g search ws c info s = (.value (.ok (lastFound g c info es)), s') := by
  induction h generalizing info with
  | here => rfl
  | step hs _ ih =>
      rw [searchEach, bind_value hs]
      exact ih _

/-- With a record of its calls a search finds the same. -/
theorem AllFound.logged (h : AllFound g search ws c s es s') (log : List (Mem × Nat)) :
    AllFound g (logged search) ws c (s, log) es (s', log ++ callsOf g ws c es) := by
  induction h generalizing log with
  | here =>
      rw [callsOf, List.map_nil, List.zip_nil_left, List.append_nil]
      exact .here
  | @step w ws c k s s₁ s' e es hs _ ih =>
      have hcall : PotatoOS.logged search (textOf w) c (s, log)
          = (.value (.ok (e, k)), (s₁, log ++ [(textOf w, c)])) := by
        rw [PotatoOS.logged, modify_bind]
        exact zoom_run hs
      have hlog : log ++ callsOf g (w :: ws) c (e :: es)
          = log ++ [(textOf w, c)] ++ callsOf g ws (getClusterFromEntry g e) es :=
        List.append_cons _ _ _
      rw [hlog]
      exact .step hcall (ih _)

end

/-- When all lookups succeed, the loop calls the search once for each component of the path, in
order and in the directory of the entry found before, and ends; `putFile` runs it for all paths but
"C:\\". -/
theorem pathLoop_calls {env : Env} {g : Globals} {fuel : Nat} {path : CString} {s s' : State}
    {es : List DirectoryEntry} (h₃ : 3 ≤ path.1.length) (hlen : path.1.length ≤ 65535)
    (hw : ∀ w ∈ components path, w.length ≤ 255)
    (hfound : AllFound g (fun part => directorySearch env g part fuel) (components path)
      g.rootCluster s es s') :
    (∀ n ≥ path.1.length,
      (∀ log, pathLoop g (logged fun part => directorySearch env g part fuel) path n 3 3
          g.rootCluster none (s, log)
        = (.value (.ok (lastFound g g.rootCluster none es)),
            (s', log ++ callsOf g (components path) g.rootCluster es))) ∧
      walkPath env g fuel path
        = pathLoop g (fun part => directorySearch env g part fuel) path n 3 3 g.rootCluster none) ∧
    walkPath env g fuel path s = (.value (.ok (lastFound g g.rootCluster none es)), s') ∧
    (path ≠ rootPath → findDirectory env g fuel path = walkPath env g fuel path) := by
  have hw' : ∀ w ∈ components path, w.length ≤ 256 := fun w hmem => (hw w hmem).trans (by decide)
  have hloop (n : Nat) (hn : n ≥ path.1.length) : walkPath env g fuel path
      = pathLoop g (fun part => directorySearch env g part fuel) path n 3 3 g.rootCluster none :=
    walkPath_eq_pathLoop (by omega) hn
  refine ⟨fun n hn => ⟨fun log => ?_, hloop n hn⟩, ?_, fun hne => if_neg hne⟩
  · rw [pathLoop_components h₃ (by omega) hw' hn]
    exact (hfound.logged log).run none
  · rw [hloop _ le_rfl, pathLoop_components h₃ (by omega) hw' le_rfl]
    exact hfound.run none

/-- The search of the one component of "C:\\AAAAAAAAAAA". -/
theorem allFound_filePath :
    ∃ fuel s', AllFound smallVolume (fun part => directorySearch reliable smallVolume part fuel)
      (components filePath) 2 oneFileState [fileEntry] s' := by
  obtain ⟨key, hkey, hk⟩ := searchName_letters (b := 0x41) (by decide) (by decide)
  have hslot : dirSlot smallVolume oneFileState.disk 2 0 = fileEntry := by decide
  have hname : HasName (nameOf key) (dirSlot smallVolume oneFileState.disk 2 0) := by
    rw [hslot, hk]
    decide
  have hfound : FoundIn smallVolume oneFileState.disk (nameOf key) 2 fileEntry := by
    rw [← hslot]
    exact .here (by decide) (lookup_first smallVolume_isImage (by rw [hslot]; decide) hname)
  obtain ⟨N, k, hrun⟩ := hfound.run smallVolume_isImage hkey
  have hcomp : components filePath = [List.replicate 11 0x41] := by decide
  rw [hcomp]
  exact ⟨N, _, .step (Prod.ext (hrun N le_rfl _ rfl) rfl) .here⟩

/-- It is called once, in the root directory. -/
theorem pathLoop_calls_filePath :
    ∃ fuel s', pathLoop smallVolume
        (logged fun part => directorySearch reliable smallVolume part fuel) filePath 14 3 3 2 none
          (oneFileState, [])
      = (.value (.ok (3, some fileEntry)), (s', [(textOf (List.replicate 11 0x41), 2)])) := by
  obtain ⟨fuel, s', hfound⟩ := allFound_filePath
  exact ⟨fuel, s', ((pathLoop_calls (g := smallVolume) (by decide) (by decide) (by decide)
    hfound).1 14 (by decide)).1 []⟩

end PotatoOS
