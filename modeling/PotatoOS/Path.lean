/-
PotatoOS/Path.lean

Paths: the loop that `getFile` and `putFile` share.

A path is a C string without its zero byte.  The loop starts behind the
three characters of "C:\" and searches one component after the other in the
directory that the last search found.  A read behind the zero byte and a
component that does not fit its buffer have no defined behaviour, and the
start of a component is an `unsigned short`.

For paths of fewer than 65535 characters the loop is a walk along the list
of components (`walkPath_eq`), and on a volume whose directories are chains
that end, on the partition, the walk is a sequence of lookups
(`walkComponents_leads`).

The rule for everything that only reads is here as well: a relation between
states that every transfer to the start of the buffer respects is respected
by path resolution (`walkPath_keeps`).
-/
import PotatoOS.Directory

namespace PotatoOS

open Prog

/-! ### Paths -/

/-- The characters of a C string. -/
def CString : Type := { l : List UInt8 // 0 ∉ l }

instance : DecidableEq CString := inferInstanceAs (DecidableEq { l : List UInt8 // 0 ∉ l })

/-- Character `i` of a C string, the zero byte included. -/
def CString.at_ (p : CString) (i : Nat) : UInt8 := p.1.getD i 0

/-- The path "C:\". -/
def rootPath : CString := ⟨[0x43, 0x3A, 0x5C], by decide⟩

/-- `fileNamePart`: zeros, then `n` characters of the path copied to its front. -/
def fileNamePart (path : CString) (start n : Nat) : Mem :=
  memcpy (fun _ => 0) 0 (fun i => path.at_ (start + i)) n

/-- The loop over the path that `getFile` and `putFile` share; `n` rounds are
left.  `fileInfo` is what the last search found. -/
def walkLoop (env : Env) (g : Globals) (fuel : Nat) (path : CString) :
    Nat → Nat → Nat → Nat → Option DirectoryEntry →
      Prog State (Except Int (Nat × Option DirectoryEntry))
  | 0, _, _, activeCluster, fileInfo => pure (.ok (activeCluster, fileInfo))
  | n + 1, iterator, start, activeCluster, fileInfo =>
      if path.at_ iterator = 0x5C ∨ path.at_ iterator = 0 then do
        -- a longer piece would overrun `fileNamePart`
        if iterator - start > 256 then halt .undefined
        match ← directorySearch env g (fileNamePart path start (iterator - start)) fuel
          activeCluster with
        | .error code => return .error code
        | .ok (entry, _) =>
            walkLoop env g fuel path n (iterator + 1) ((iterator + 1) % 2 ^ 16)
              (getClusterFromEntry g entry) (some entry)
      else walkLoop env g fuel path n (iterator + 1) start activeCluster fileInfo

/-- Resolve a path from the root directory: the cluster and the entry of its
last component, or the code of the search that failed. -/
def walkPath (env : Env) (g : Globals) (fuel : Nat) (path : CString) :
    Prog State (Except Int (Nat × Option DirectoryEntry)) :=
  if path.1.length < 2 then halt .undefined
  else walkLoop env g fuel path (path.1.length - 2) 3 3 g.rootCluster none

/-! ### What only reads -/

/-- A relation that every read to the start of the transfer buffer respects. -/
structure ReadInv (R : State → State → Prop) : Prop where
  refl : ∀ s, R s s
  trans : ∀ {s₁ s₂ s₃}, R s₁ s₂ → R s₂ s₃ → R s₁ s₃
  miss : ∀ s, R s s.miss
  load : ∀ s lba j, j < 127 → R s (s.load lba (diskLocation + 512 * j))

namespace ReadInv

variable {R : State → State → Prop} {α β : Type} {m : Prog State α} {f : α → Prog State β}

theorem pure (hR : ReadInv R) (a : α) : Keeps R (Pure.pure a : Prog State α) :=
  Keeps.pure hR.refl a

theorem halt (hR : ReadInv R) (e : Stop) : Keeps R (Prog.halt e : Prog State α) :=
  Keeps.halt hR.refl e

theorem bind (hR : ReadInv R) (hm : Keeps R m) (hf : ∀ a, Keeps R (f a)) : Keeps R (m >>= f) :=
  Keeps.bind hR.trans hm hf

end ReadInv

section

variable {R : State → State → Prop} {env : Env} {g : Globals}

theorem readBlocks_keeps (hR : ReadInv R) (lba n j : Nat) (hn : j + n ≤ 127) :
    Keeps R (readBlocks env lba (diskLocation + 512 * j) n) := by
  induction n generalizing lba j with
  | zero => exact hR.pure _
  | succ n ih =>
      have hstep : (diskLocation + 512 * j + 512) % 2 ^ 32 = diskLocation + 512 * (j + 1) := by
        rw [diskLocation]
        omega
      rw [readBlocks, hstep]
      refine hR.bind (.gets hR.refl _) fun tick => .ite ?_ ?_
      · exact hR.bind (.modify hR.miss) fun _ => hR.pure _
      · exact hR.bind (.modify fun s => hR.load s lba j (by omega)) fun _ =>
          ih (lba + 1) (j + 1) (by omega)

theorem int13hReadO_keeps (hR : ReadInv R) (n k : Nat) : Keeps R (int13hReadO env n k 0) := by
  rw [int13hReadO]
  refine .ite (hR.pure _) ?_
  by_cases hk : k > 0x7F
  · rw [if_pos hk]
    exact hR.pure _
  · rw [if_neg hk]
    exact readBlocks_keeps hR _ k 0 (by omega)

theorem readEntry_keeps (hR : ReadInv R) (w : Nat) (init : Option UInt8) (c : Nat) :
    Keeps R (readEntry env g w init c) := by
  rw [readEntry]
  refine .ite (.halt_bind hR.refl _ _) ?_
  refine hR.bind (int13hReadO_keeps hR _ 1) fun r => .ite (hR.pure _) ?_
  refine .ite (.halt_bind hR.refl _ _) ?_
  refine hR.bind (.gets hR.refl _) fun mem => ?_
  split
  · exact hR.halt _
  · exact hR.pure _

theorem fatRead_keeps (hR : ReadInv R) (c : Nat) : Keeps R (fatRead env g c) := by
  rw [fatRead]
  refine .ite (hR.pure _) (.ite ?_ (.ite ?_ (hR.pure _)))
  · refine hR.bind (readEntry_keeps hR 4 _ c) fun v => ?_
    split <;> exact hR.pure _
  · refine hR.bind (readEntry_keeps hR 2 _ c) fun v => ?_
    split <;> exact hR.pure _

theorem clusterRead_keeps (hR : ReadInv R) (c : Nat) : Keeps R (clusterRead env g c 0) := by
  rw [clusterRead]
  refine .ite (hR.pure _) ?_
  simp only [Nat.zero_mul, Nat.zero_mod]
  exact hR.bind (int13hReadO_keeps hR _ _) fun r =>
    .ite (hR.pure _) (hR.pure _)

theorem searchSlots_keeps (hR : ReadInv R) (key : Mem) (c : Nat)
    {next : Nat → Prog State (Except Int (DirectoryEntry × Nat))}
    (hnext : ∀ b, Keeps R (next b)) (n count : Nat) :
    Keeps R (searchSlots env g key c next n count) := by
  have hslot : ∀ count {m : Prog State (Except Int (DirectoryEntry × Nat))}, Keeps R m →
      Keeps R (searchSlot key count m) := fun count m hm =>
    hR.bind (.gets hR.refl _) fun e =>
      .ite (hR.pure _) (.ite hm (hR.pure _))
  induction n generalizing count with
  | zero =>
      refine hslot count (hR.bind (fatRead_keeps hR c) fun v => ?_)
      split
      · exact .ite (hR.pure _) (hnext _)
      · exact hR.pure _
  | succ n ih => exact hslot count (ih (count + 1))

theorem directorySearch_keeps (hR : ReadInv R) (filepart : Mem) (fuel c : Nat) :
    Keeps R (directorySearch env g filepart fuel c) := by
  induction fuel generalizing c with
  | zero => exact hR.halt _
  | succ fuel ih =>
      rw [directorySearch]
      refine .ite (hR.pure _) ?_
      split
      · exact hR.halt _
      · exact hR.bind (clusterRead_keeps hR c) fun r =>
          .ite (hR.pure _) (searchSlots_keeps hR _ c ih _ 0)

theorem walkPath_keeps (hR : ReadInv R) (fuel : Nat) (path : CString) :
    Keeps R (walkPath env g fuel path) := by
  have hloop : ∀ n iterator start c info,
      Keeps R (walkLoop env g fuel path n iterator start c info) := by
    intro n
    induction n with
    | zero => exact fun _ _ _ _ => hR.pure _
    | succ n ih =>
        intro iterator start c info
        rw [walkLoop]
        refine .ite ?_ (ih _ _ _ _)
        refine .ite (.halt_bind hR.refl _ _) ?_
        refine hR.bind (directorySearch_keeps hR _ fuel c) fun r => ?_
        split
        · exact hR.pure _
        · exact ih _ _ _ _
  rw [walkPath]
  exact .ite (hR.halt _) (hloop _ _ _ _ _)

/-- Reads leave the disk alone. -/
theorem readInv_disk : ReadInv fun s s' => s'.disk = s.disk where
  refl _ := rfl
  trans h₁ h₂ := h₂.trans h₁
  miss _ := rfl
  load _ _ _ _ := rfl

end

/-! ### More steps -/

section

variable {env : Env} {g : Globals} {fuel fuel' : Nat}

theorem searchSlots_mono {next next' : Nat → Prog State (Except Int (DirectoryEntry × Nat))}
    (hnext : ∀ b, Extends (next b) (next' b)) (key : Mem) (c n count : Nat) :
    Extends (searchSlots env g key c next n count) (searchSlots env g key c next' n count) := by
  have hslot : ∀ count {m m' : Prog State (Except Int (DirectoryEntry × Nat))}, Extends m m' →
      Extends (searchSlot key count m) (searchSlot key count m') := fun count m m' hm =>
    .bind (.refl _) fun e => .ite (.refl _) (.ite hm (.refl _))
  induction n generalizing count with
  | zero =>
      refine hslot count (.bind (.refl _) fun v => ?_)
      cases v with
      | ofNat v => exact .ite (.refl _) (hnext v)
      | negSucc v => exact .refl _
  | succ n ih => exact hslot count (ih (count + 1))

theorem directorySearch_mono (hle : fuel ≤ fuel') (filepart : Mem) (c : Nat) :
    Extends (directorySearch env g filepart fuel c) (directorySearch env g filepart fuel' c) := by
  refine .budget (F := directorySearch env g filepart) (fun _ => rfl) (fun ih c => ?_) hle c
  rw [directorySearch, directorySearch]
  refine .ite (.refl _) ?_
  rcases searchName filepart with - | key
  · exact .refl _
  · exact .bind (.refl _) fun r => .ite (.refl _) (searchSlots_mono ih key c _ 0)

theorem walkPath_mono (hle : fuel ≤ fuel') (path : CString) :
    Extends (walkPath env g fuel path) (walkPath env g fuel' path) := by
  have hloop : ∀ n iterator start c info,
      Extends (walkLoop env g fuel path n iterator start c info)
        (walkLoop env g fuel' path n iterator start c info) := by
    intro n
    induction n with
    | zero => exact fun _ _ _ _ => .refl _
    | succ n ih =>
        intro iterator start c info
        rw [walkLoop, walkLoop]
        refine .ite ?_ (ih _ _ _ _)
        refine .ite (fun _ => .inr rfl) (.bind (directorySearch_mono hle _ c) fun r => ?_)
        cases r with
        | error code => exact .refl _
        | ok r => exact ih _ _ _ _
  rw [walkPath, walkPath]
  exact .ite (.refl _) (hloop _ _ _ _ _)

end

/-! ### Components -/

/-- The text of a component, as the search gets it. -/
def textOf (w : List UInt8) : Mem := fun i => w.getD i 0

/-- Cut a text at its backslashes; `cur` is the component begun. -/
def splitPath (cur : List UInt8) : List UInt8 → List (List UInt8)
  | [] => [cur]
  | b :: l => if b = 0x5C then cur :: splitPath [] l else splitPath (cur ++ [b]) l

theorem splitPath_ne_nil (cur l : List UInt8) : splitPath cur l ≠ [] := by
  induction l generalizing cur with
  | nil => simp [splitPath]
  | cons b l ih =>
      rw [splitPath]
      split
      · simp
      · exact ih _

/-- The components of a path, behind "C:\". -/
def components (path : CString) : List (List UInt8) := splitPath [] (path.1.drop 3)

/-- Search one component after the other. -/
def walkComponents (env : Env) (g : Globals) (fuel : Nat) :
    List (List UInt8) → Nat → Option DirectoryEntry →
      Prog State (Except Int (Nat × Option DirectoryEntry))
  | [], activeCluster, fileInfo => pure (.ok (activeCluster, fileInfo))
  | w :: ws, activeCluster, _ => do
      if w.length > 256 then halt .undefined
      match ← directorySearch env g (textOf w) fuel activeCluster with
      | .error code => return .error code
      | .ok (entry, _) =>
          walkComponents env g fuel ws (getClusterFromEntry g entry) (some entry)

section

variable {env : Env} {g : Globals} {fuel : Nat} {path : CString}

theorem fileNamePart_eq {pre cur rest : List UInt8} (hp : path.1 = pre ++ cur ++ rest) :
    fileNamePart path pre.length cur.length = textOf cur := by
  funext i
  rw [fileNamePart, textOf]
  by_cases hi : i < cur.length
  · rw [memcpy_apply_of_mem (Nat.zero_le _) (by omega), Nat.sub_zero, CString.at_, hp,
      List.append_assoc, List.getD_append_right _ _ _ _ (by omega), Nat.add_sub_cancel_left,
      List.getD_append _ _ _ _ hi]
  · rw [memcpy_apply_of_notMem (by omega), List.getD_eq_default _ _ (by omega)]

/-- The loop walks along the components that are left. -/
theorem walkLoop_eq (env : Env) (g : Globals) (fuel : Nat)
    (hlen : path.1.length < 2 ^ 16 - 1) (rest : List UInt8) :
    ∀ pre cur : List UInt8, path.1 = pre ++ cur ++ rest → ∀ c info,
      walkLoop env g fuel path (rest.length + 1) (pre.length + cur.length) pre.length c info
        = walkComponents env g fuel (splitPath cur rest) c info := by
  -- on the characters that are still to be read
  induction rest with
  | nil =>
      intro pre cur hp c info
      have hend : path.at_ (pre.length + cur.length) = 0 := by
        rw [CString.at_, hp]
        exact List.getD_eq_default _ _ (by simp)
      rw [List.length_nil, walkLoop, if_pos (.inr hend), Nat.add_sub_cancel_left,
        fileNamePart_eq hp]
      rfl
  | cons b rest ih =>
      intro pre cur hp c info
      have hat : path.at_ (pre.length + cur.length) = b := by
        rw [CString.at_, hp, List.getD_append_right _ _ _ _ (by simp)]
        simp
      have hb : b ≠ 0 := fun e => path.2 (by rw [hp, e]; simp)
      have hlt : pre.length + cur.length + 1 < 2 ^ 16 := by
        rw [hp] at hlen
        simp at hlen
        omega
      rw [List.length_cons, walkLoop, hat, splitPath]
      by_cases hsep : b = 0x5C
      · have hnext : ∀ c info, walkLoop env g fuel path (rest.length + 1)
            (pre.length + cur.length + 1) (pre.length + cur.length + 1) c info
              = walkComponents env g fuel (splitPath [] rest) c info := by
          intro c info
          have := ih (pre ++ cur ++ [b]) [] (by rw [hp]; simp) c info
          simpa [Nat.add_assoc] using this
        rw [if_pos (.inl hsep), if_pos hsep, Nat.add_sub_cancel_left, Nat.mod_eq_of_lt hlt,
          fileNamePart_eq hp]
        simp only [hnext]
        rfl
      · rw [if_neg (by simp [hsep, hb]), if_neg hsep]
        have := ih pre (cur ++ [b]) (by rw [hp]; simp) c info
        simpa [Nat.add_assoc] using this

/-- A path is resolved component by component. -/
theorem walkPath_eq (h₃ : 3 ≤ path.1.length) (hlen : path.1.length < 2 ^ 16 - 1) :
    walkPath env g fuel path
      = walkComponents env g fuel (components path) g.rootCluster none := by
  have hp : path.1 = path.1.take 3 ++ [] ++ path.1.drop 3 := by simp
  have htake : (path.1.take 3).length = 3 := by simp [h₃]
  have := walkLoop_eq env g fuel hlen (path.1.drop 3) _ [] hp g.rootCluster none
  rw [walkPath, if_neg (by omega), components, ← this, htake, List.length_drop]
  congr 1
  omega

end

/-! ### Walking along directories that end -/

/-- On disk `d`, the components lead from the directory at one cluster to the
entry of the last component. -/
inductive Leads (g : Globals) (d : Disk) :
    Nat → Option DirectoryEntry → List (List UInt8) → Nat → Option DirectoryEntry → Prop
  | here {c : Nat} {info : Option DirectoryEntry} : Leads g d c info [] c info
  | step {c c' k : Nat} {info info' : Option DirectoryEntry} {l : List Nat} {w : List UInt8}
      {ws : List (List UInt8)} {key : Mem} {e : DirectoryEntry} :
      w.length ≤ 256 → searchName (textOf w) = some key → IsChain g d c l →
      (∀ a ∈ l, g.OnPartition a) → searchResult (nameOf key) (slots g d l) = .ok (e, k) →
      Leads g d (getClusterFromEntry g e) (some e) ws c' info' →
      Leads g d c info (w :: ws) c' info'

theorem walkComponents_leads {g : Globals} {d : Disk} {c c' : Nat}
    {info info' : Option DirectoryEntry} {ws : List (List UInt8)} (h : g.OneSector)
    (hl : Leads g d c info ws c' info') :
    ∃ N, ∀ fuel ≥ N, ∀ s : State, s.disk = d →
      ∃ s', walkComponents reliable g fuel ws c info s = (.value (.ok (c', info')), s') ∧
        s'.disk = d := by
  induction hl with
  | here => exact ⟨0, fun fuel _ s hs => ⟨s, rfl, hs⟩⟩
  | @step c c' k info info' l w ws key e hw hkey hch hpart hfound _ ih =>
      obtain ⟨N, hN⟩ := ih
      refine ⟨max N l.length, fun fuel hf s hs => ?_⟩
      subst hs
      obtain ⟨s₁, hrun, hd⟩ := directorySearch_chain h hkey hch hpart
        (Nat.le_trans (Nat.le_max_right _ _) hf)
      rw [hfound] at hrun
      obtain ⟨s₂, hrun₂, hd₂⟩ := hN fuel (Nat.le_trans (Nat.le_max_left _ _) hf) s₁ hd
      refine ⟨s₂, ?_, hd₂⟩
      rw [walkComponents, if_neg (by omega)]
      exact (bind_value hrun).trans hrun₂

end PotatoOS
