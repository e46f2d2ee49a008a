/-
PotatoOS/Rename.lean

The command "un" and the prompts behind it.

The command takes its argument from byte 8 of the line, where a pointer to
pointers is advanced by 2, and keeps a pointer into the line.  So of a long name
the first five characters are missing, and for a short one the name is what an
earlier, longer line has left behind the new one.  The prompt behind the command
shows the name that was typed exactly when the name has at most four characters
and these happen to be left there (`shown_un_iff`).  Later prompts show it as
long as no key stores behind the place that the pointer points to
(`Renamed.run`).

Main result: `promptNames_renamed`.
-/
import Mathlib.Data.List.TakeWhile
import PotatoOS.Line

namespace PotatoOS

/-! ### Words -/

/-- Space or not, as `strtok` looks at the bytes of a string. -/
def isSpace (b : UInt8) : Bool := b = 0x20

/-- A character that is neither the end of the line nor a blank. -/
def inWord (b : UInt8) : Bool := b ≠ 0 && b ≠ 0x20

/-- Where the first word from `start` on begins. -/
def wordStart (m : Mem) (size start : Nat) : Nat :=
  start + ((bytesAt m start (size - start)).takeWhile isSpace).length

/-- The first word from `start` on. -/
def word (m : Mem) (size start : Nat) : List UInt8 :=
  (bytesAt m (wordStart m size start) (size - wordStart m size start)).takeWhile inWord

section

variable {m m' : Mem} {size start p n : Nat}

theorem bytesAt_succ_left (m : Mem) (p n : Nat) :
    bytesAt m p (n + 1) = m p :: bytesAt m (p + 1) n := by
  rw [Nat.add_comm, bytesAt_add]
  simp [bytesAt]

theorem length_bytesAt (m : Mem) (p n : Nat) : (bytesAt m p n).length = n := by
  rw [bytesAt, List.length_map, List.length_range]

/-- A scan over memory is a scan over the list of its bytes. -/
theorem skipWhile_eq (m : Mem) (pass : UInt8 → Bool) (n p : Nat) :
    skipWhile m pass n p = p + ((bytesAt m p n).takeWhile pass).length := by
  induction n generalizing p with
  | zero => rfl
  | succ n ih =>
      rw [skipWhile, bytesAt_succ_left, List.takeWhile_cons]
      split
      · rw [ih, List.length_cons]
        omega
      · rfl

theorem pass_space : (fun b : UInt8 => decide (b ≠ 0) && decide (b ∈ text " ")) = isSpace := by
  funext b
  have hmem : b ∈ text " " ↔ b = 0x20 := List.mem_singleton
  rw [isSpace, Bool.eq_iff_iff]
  simp only [Bool.and_eq_true, decide_eq_true_eq, hmem]
  exact and_iff_right_of_imp fun h => h ▸ by decide

theorem pass_word : (fun b : UInt8 => decide (b ≠ 0) && decide (b ∉ text " ")) = inWord := by
  funext b
  have hmem : b ∈ text " " ↔ b = 0x20 := List.mem_singleton
  rw [inWord, Bool.eq_iff_iff]
  simp only [Bool.and_eq_true, decide_eq_true_eq, hmem, ne_eq]

/-- The memory with a 0 behind the first word. -/
def cutWord (m : Mem) (size start : Nat) : Mem :=
  if m (wordStart m size start + (word m size start).length) ≠ 0 then
    Function.update m (wordStart m size start + (word m size start).length) 0
  else m

theorem cutWord_self :
    cutWord m size start (wordStart m size start + (word m size start).length) = 0 := by
  rw [cutWord]
  split
  · exact Function.update_self _ _ _
  next h => exact not_not.mp h

theorem cutWord_of_ne (h : p ≠ wordStart m size start + (word m size start).length) :
    cutWord m size start p = m p := by
  rw [cutWord]
  split
  · exact Function.update_of_ne h _ _
  · rfl

/-- `strtok` finds the first word and puts a 0 behind it. -/
theorem strtok_space (m : Mem) (size start : Nat) :
    strtok m size start (text " ") =
      if m (wordStart m size start) = 0 then (none, m)
      else (some (wordStart m size start), cutWord m size start) := by
  simp only [strtok, pass_space, pass_word, skipWhile_eq]
  rfl

theorem bytesAt_takeWhile (m : Mem) (pass : UInt8 → Bool) (p n : Nat) :
    bytesAt m p ((bytesAt m p n).takeWhile pass).length = (bytesAt m p n).takeWhile pass := by
  induction n generalizing p with
  | zero => rfl
  | succ n ih =>
      rw [bytesAt_succ_left, List.takeWhile_cons]
      split
      · rw [List.length_cons, bytesAt_succ_left, ih]
      · rfl

/-- The byte at which a scan stops. -/
theorem not_pass_of_length_lt (m : Mem) (pass : UInt8 → Bool) {p n : Nat}
    (h : ((bytesAt m p n).takeWhile pass).length < n) :
    pass (m (p + ((bytesAt m p n).takeWhile pass).length)) = false := by
  induction n generalizing p with
  | zero => exact absurd h (Nat.not_lt_zero _)
  | succ n ih =>
      rw [bytesAt_succ_left, List.takeWhile_cons] at h ⊢
      split at h
      next hpass =>
        rw [if_pos hpass, List.length_cons]
        rw [List.length_cons] at h
        have hrest := ih (p := p + 1) (by omega)
        rwa [Nat.add_assoc, Nat.add_comm 1] at hrest
      next hpass =>
        rw [if_neg hpass]
        exact Bool.not_eq_true _ ▸ hpass

/-- A scan does not pass a byte that it stops at. -/
theorem length_takeWhile_le (m : Mem) (pass : UInt8 → Bool) {p n k : Nat}
    (h : pass (m (p + k)) = false) : ((bytesAt m p n).takeWhile pass).length ≤ k := by
  refine not_lt.mp fun hlt => ?_
  have hmem : m (p + k) ∈ bytesAt m p ((bytesAt m p n).takeWhile pass).length :=
    List.mem_map.mpr ⟨k, List.mem_range.mpr hlt, rfl⟩
  rw [bytesAt_takeWhile] at hmem
  rw [List.mem_takeWhile_imp hmem] at h
  cases h

/-- The first word ends where the string does, or before. -/
theorem wordEnd_le (size : Nat) {stop : Nat} (h : m stop = 0) (hle : start ≤ stop) :
    wordStart m size start + (word m size start).length ≤ stop := by
  have hstart : wordStart m size start ≤ stop := by
    have hlen := length_takeWhile_le m isSpace (p := start) (n := size - start)
      (k := stop - start) (by rw [Nat.add_sub_cancel' hle, h]; decide)
    rw [wordStart]
    omega
  have hlen := length_takeWhile_le m inWord (p := wordStart m size start)
    (n := size - wordStart m size start) (k := stop - wordStart m size start)
    (by rw [Nat.add_sub_cancel' hstart, h]; decide)
  rw [word]
  omega

/-- The 0 behind the first word is in the string. -/
theorem cutWord_of_le {stop : Nat} (h : m stop = 0) (hle : start ≤ stop) (hp : stop ≤ p) :
    cutWord m size start p = m p := by
  by_cases hne : p = wordStart m size start + (word m size start).length
  · have hend := wordEnd_le size h hle
    obtain rfl : p = stop := by omega
    rw [h, hne, cutWord_self]
  · exact cutWord_of_ne hne

theorem wordStart_congr (h : ∀ i, start ≤ i → m' i = m i) :
    wordStart m' size start = wordStart m size start := by
  have hbytes : bytesAt m' start (size - start) = bytesAt m start (size - start) :=
    bytesAt_congr fun i _ => h _ (Nat.le_add_right _ i)
  rw [wordStart, wordStart, hbytes]

theorem word_congr (h : ∀ i, start ≤ i → m' i = m i) : word m' size start = word m size start := by
  rw [word, word, wordStart_congr h]
  refine congrArg (List.takeWhile inWord) (bytesAt_congr fun i _ => h _ ?_)
  rw [wordStart]
  omega

theorem zero_notMem_word : 0 ∉ word m size start := by
  intro h
  have hin := List.mem_takeWhile_imp h
  exact absurd hin (by decide)

theorem length_word_le : (word m size start).length ≤ size - wordStart m size start :=
  (List.takeWhile_sublist _).length_le.trans_eq (length_bytesAt _ _ _)

theorem wordStart_ne_zero (h : word m size start ≠ []) : m (wordStart m size start) ≠ 0 := by
  rw [word] at h
  cases hk : size - wordStart m size start with
  | zero =>
      rw [hk] at h
      exact absurd rfl h
  | succ k =>
      rw [hk, bytesAt_succ_left] at h
      intro hz
      rw [hz, List.takeWhile_cons_of_neg (by decide)] at h
      exact h rfl

/-- The string at the first word, once there is a 0 behind it. -/
theorem takeWhile_cutWord :
    (bytesAt (cutWord m size start) (wordStart m size start)
      (size - wordStart m size start)).takeWhile (· ≠ 0) = word m size start := by
  refine takeWhile_bytesAt ?_ zero_notMem_word length_word_le fun _ => cutWord_self
  have hbytes : bytesAt (cutWord m size start) (wordStart m size start)
      (word m size start).length = bytesAt m (wordStart m size start)
        (word m size start).length :=
    bytesAt_congr fun i hi => cutWord_of_ne (by omega)
  exact hbytes.trans (bytesAt_takeWhile m inWord _ _)

/-- A byte of the buffer that is no space and not 0 starts a word. -/
theorem word_ne_nil (h : m (wordStart m size start) ≠ 0) (hlt : wordStart m size start < size) :
    word m size start ≠ [] := by
  have hspace : m (wordStart m size start) ≠ 0x20 := by
    have hlen : ((bytesAt m start (size - start)).takeWhile isSpace).length < size - start := by
      rw [wordStart] at hlt
      omega
    exact of_decide_eq_false (not_pass_of_length_lt m isSpace hlen)
  obtain ⟨k, hk⟩ : ∃ k, size - wordStart m size start = k + 1 :=
    ⟨size - wordStart m size start - 1, by omega⟩
  have hin : inWord (m (wordStart m size start)) = true := by simp [inWord, h, hspace]
  rw [word, hk, bytesAt_succ_left, List.takeWhile_cons_of_pos hin]
  exact List.cons_ne_nil _ _

end

/-! ### The command -/

namespace Shell

variable (out : Outside) {s s' : Shell} {p : Nat} {name : List UInt8}

/-- The user name is the string at `p` of the line. -/
structure Renamed (s : Shell) (p : Nat) (name : List UInt8) : Prop where
  username : s.username = .inputBuffer p
  string : s.inputString p = name

theorem Renamed.usernameString (h : s.Renamed p name) : s.usernameString out = name := by
  rw [Shell.usernameString, h.username]
  exact h.string

/-- Output leaves the user name alone. -/
theorem Drawn.usernameString (h : s.Drawn s') : s'.usernameString out = s.usernameString out := by
  rw [Shell.usernameString, Shell.usernameString, h.username]
  simp only [inputString, h.inputBuffer]

theorem Renamed.congr (h : s.Renamed p name) (hu : s'.username = s.username)
    (hb : ∀ i, p ≤ i → s'.inputBuffer i = s.inputBuffer i) : s'.Renamed p name := by
  refine ⟨hu.trans h.username, h.string ▸ ?_⟩
  have hbytes : bytesAt s'.inputBuffer p (inputBufferSize - p)
      = bytesAt s.inputBuffer p (inputBufferSize - p) :=
    bytesAt_congr fun i _ => hb _ (Nat.le_add_right p i)
  exact congrArg (List.takeWhile _) hbytes

/-- The state in which the command prints. -/
def takeName (s : Shell) : Shell :=
  let content := strtok s.inputBuffer inputBufferSize 8 (text " ")
  { s with
    inputBuffer := content.2
    username := match content.1 with
      | some p => .inputBuffer p
      | none => .null }

theorem takeName_drawn : s.takeName.Drawn (s.un out) := by
  have hD := s.takeName.drawn_printInv
  exact hD.writestring _ (hD.writestring _ (hD.newline (.refl _)))

/-- The command makes the first word from byte 8 on the user name. -/
theorem renamed_un (h : word s.inputBuffer inputBufferSize 8 ≠ []) :
    (s.un out).Renamed (wordStart s.inputBuffer inputBufferSize 8)
      (word s.inputBuffer inputBufferSize 8) := by
  have hdrawn := s.takeName_drawn out
  have htok := strtok_space s.inputBuffer inputBufferSize 8
  rw [if_neg (wordStart_ne_zero h)] at htok
  refine Renamed.congr (s := s.takeName) ⟨?_, ?_⟩ hdrawn.username fun i _ =>
    congrFun hdrawn.inputBuffer i
  · simp only [takeName, htok]
  · have hbuf : s.takeName.inputBuffer = cutWord s.inputBuffer inputBufferSize 8 := by
      simp only [takeName, htok]
    show (bytesAt s.takeName.inputBuffer _ _).takeWhile (· ≠ 0) = _
    rw [hbuf]
    exact takeWhile_cutWord

/-- Without a word there the name is the string at address 0, or empty. -/
theorem un_usernameString_of_nil (h : word s.inputBuffer inputBufferSize 8 = []) :
    (s.un emptyOutside).usernameString emptyOutside = [] := by
  have htok := strtok_space s.inputBuffer inputBufferSize 8
  rw [(s.takeName_drawn emptyOutside).usernameString emptyOutside]
  by_cases hz : s.inputBuffer (wordStart s.inputBuffer inputBufferSize 8) = 0
  · rw [if_pos hz] at htok
    simp only [takeName, usernameString, htok]
    rfl
  · have hle : inputBufferSize ≤ wordStart s.inputBuffer inputBufferSize 8 :=
      not_lt.mp fun hlt => word_ne_nil hz hlt h
    rw [if_neg hz] at htok
    simp only [takeName, usernameString, htok, inputString, Nat.sub_eq_zero_of_le hle]
    rfl

/-- The line that was typed, up to the index. -/
structure HasLine (s : Shell) (line : List UInt8) : Prop where
  loop : s.exitHKIloop = false
  index : s.inputBufferIndex = line.length
  buffer : bytesAt s.inputBuffer 0 line.length = line
  nonzero : 0 ∉ line
  length : line.length < inputBufferSize

theorem HasLine.terminated {line : List UInt8} (h : s.HasLine line) : s.terminated.HasLine line :=
  { h with buffer := (bytesAt_update _ h.index.ge 0).trans h.buffer }

theorem HasLine.inputString {line : List UInt8} (h : s.HasLine line) :
    s.terminated.inputString 0 = line := by
  refine takeWhile_bytesAt h.terminated.buffer h.nonzero h.length.le fun _ => ?_
  rw [Nat.zero_add, ← h.index]
  exact Function.update_self _ _ _

theorem HasLine.getD {line : List UInt8} (h : s.HasLine line) {i : Nat} (hi : i < line.length) :
    s.inputBuffer i = line.getD i 0 := by
  have hget : (bytesAt s.inputBuffer 0 line.length).getD i 0 = s.inputBuffer i := by
    rw [List.getD_eq_getElem _ _ (by rwa [length_bytesAt])]
    simp [bytesAt]
  rw [← hget, h.buffer]

/-- The line "un" with a name. -/
def unLine (name : List UInt8) : List UInt8 := 0x75 :: 0x6E :: 0x20 :: name

/-- It is a command of its own. -/
theorem HasLine.command_un (h : s.HasLine (unLine name)) :
    s.terminated.command out = .running (s.terminated.un out) := by
  have hline : s.terminated.inputString 0 = unLine name := h.inputString
  -- no command that is tested before starts with a 'u'
  have hne {t : List UInt8} (ht : t.head? ≠ some 0x75) : s.terminated.inputString 0 ≠ t := by
    rintro rfl
    rw [hline] at ht
    exact ht rfl
  have h₀ : s.terminated.inputBuffer 0 = 0x75 := h.terminated.getD (Nat.succ_pos _)
  have h₁ : s.terminated.inputBuffer 1 = 0x6E :=
    h.terminated.getD (Nat.succ_lt_succ (Nat.succ_pos _))
  have hecho : ¬s.terminated.starts (text "echo ") 5 := by
    intro hs
    have hz := (strncmp_eq_zero_iff (by decide)).mp hs 0 (by decide)
    rw [h₀] at hz
    exact absurd hz (by decide)
  have hun : s.terminated.starts (text "un ") 2 := by
    refine (strncmp_eq_zero_iff (by decide)).mpr fun i hi => ?_
    obtain rfl | rfl : i = 0 ∨ i = 1 := by omega
    · exact h₀.trans (by decide)
    · exact h₁.trans (by decide)
  unfold Shell.command
  rw [if_neg (hne (by decide)), if_neg (hne (by decide)), if_neg hecho, if_neg (hne (by decide)),
    if_neg (hne (by decide)), if_neg (hne (by decide)), if_neg (hne (by decide)),
    if_neg (hne (by decide)), if_neg (hne (by decide)), if_neg (hne (by decide)),
    if_neg (hne (by decide)), if_neg (hne (by decide)), if_neg (hne (by decide)),
    if_neg (hne (by decide)), if_pos hun]

/-! ### Prompts -/

/-- The user name in the prompt that a key prints. -/
def shown (s : Shell) (scancode : UInt8) : Option (List UInt8) :=
  if s.exitHKIloop = false ∧ readKeyboard scancode = 0x0A ∧
      s.inputBufferIndex < inputBufferSize then
    match s.terminated.command out with
    | .running s' => some (s'.usernameString out)
    | _ => none
  else none

/-- This is what stands in front of the '@'. -/
theorem shellStep_of_shown {scancode : UInt8} (h : s.shown out scancode = some name) :
    ∃ s' : Shell, shellStep out (.running s) scancode =
      .running ((((s'.newline.writestring name).writestring (text "@")).writestring
        hostname).writestring (text " /> ")).restart := by
  unfold shown at h
  split at h
  next hkey =>
    rw [shellStep_newline out hkey.1 hkey.2.1 hkey.2.2, enter]
    generalize s.terminated.command out = st at h ⊢
    rcases st with s' | s' | s' | s'
    · cases h
      exact ⟨s', rfl⟩
    all_goals cases h
  next => cases h

theorem HasLine.shown_un {scancode : UInt8} (h : s.HasLine (unLine name))
    (hkey : readKeyboard scancode = 0x0A) :
    s.shown out scancode = some ((s.terminated.un out).usernameString out) := by
  have hindex : s.inputBufferIndex < inputBufferSize := h.index.trans_lt h.length
  rw [shown, if_pos ⟨h.loop, hkey, hindex⟩, h.command_un]

/-- The first word from byte 8 on of the line "un" with a name. -/
theorem HasLine.word_eq_iff (h : s.HasLine (unLine name)) :
    word s.terminated.inputBuffer inputBufferSize 8 = name ↔
      name.length ≤ 4 ∧ word s.inputBuffer inputBufferSize 8 = name := by
  have hindex : s.inputBufferIndex = name.length + 3 := h.index
  rcases Nat.lt_or_ge 4 name.length with hlt | hle
  · -- a long name ends behind byte 8, without its first characters
    refine iff_of_false (fun hw => ?_) fun hw => hlt.not_ge hw.1
    have hzero : s.terminated.inputBuffer s.inputBufferIndex = 0 := Function.update_self _ _ _
    have hend := wordEnd_le inputBufferSize hzero (show 8 ≤ s.inputBufferIndex by omega)
    rw [hw, wordStart] at hend
    omega
  · rw [and_iff_right hle, word_congr fun i hi => ?_]
    exact Function.update_of_ne (by omega) _ _

/-- Exactly when the prompt behind the command shows the name, whatever lies at
address 0. -/
theorem HasLine.shown_un_iff {scancode : UInt8} (h : s.HasLine (unLine name)) (hne : name ≠ [])
    (hkey : readKeyboard scancode = 0x0A) :
    (∀ out, s.shown out scancode = some name) ↔
      name.length ≤ 4 ∧ word s.inputBuffer inputBufferSize 8 = name := by
  rw [← h.word_eq_iff]
  constructor
  · intro hshown
    by_cases hw : word s.terminated.inputBuffer inputBufferSize 8 = []
    · have hnil := hshown emptyOutside
      rw [h.shown_un emptyOutside hkey, un_usernameString_of_nil hw] at hnil
      exact absurd (Option.some_inj.mp hnil).symm hne
    · have hword := hshown emptyOutside
      rw [h.shown_un emptyOutside hkey, (renamed_un emptyOutside hw).usernameString] at hword
      exact Option.some_inj.mp hword
  · intro hw out
    rw [h.shown_un out hkey, (renamed_un out (hw ▸ hne)).usernameString, hw]

/-! ### Later keys -/

/-- In the loop of the shell the user name and the line from `p` on are the same. -/
def Spared (s : Shell) (p : Nat) : Status → Prop
  | .running s' => s'.username = s.username ∧ ∀ i, p ≤ i → s'.inputBuffer i = s.inputBuffer i
  | _ => True

theorem Spared.ite {q : Prop} [Decidable q] {st st' : Status} (h : q → s.Spared p st)
    (h' : ¬ q → s.Spared p st') : s.Spared p (if q then st else st') := by
  split
  · exact h (by assumption)
  · exact h' (by assumption)

theorem Drawn.spared (h : s.Drawn s') : s.Spared p (.running s') :=
  ⟨h.username, fun i _ => congrFun h.inputBuffer i⟩

/-- The command "echo" stores in the line only. -/
theorem echo_spared (hz : s.inputBuffer s.inputBufferIndex = 0) (hp : s.inputBufferIndex ≤ p)
    (hecho : s.starts (text "echo ") 5) : s.Spared p (.running (s.echo out)) := by
  have hchars := (strncmp_eq_zero_iff (by decide)).mp hecho
  have h₅ : 5 ≤ s.inputBufferIndex := by
    refine not_lt.mp fun hlt => ?_
    have hchar := hchars _ hlt
    rw [hz] at hchar
    have hnz : ∀ i < 5, textOf (text "echo ") i ≠ 0 := by decide
    exact hnz _ hlt hchar.symm
  have hdrawn := s.echo_drawn out
  refine ⟨hdrawn.username, fun i hi => (congrFun hdrawn.inputBuffer i).trans ?_⟩
  show (strtok s.inputBuffer inputBufferSize 5 (text " ")).2 i = s.inputBuffer i
  rw [strtok_space]
  split
  · rfl
  · exact cutWord_of_le hz h₅ (hp.trans hi)

theorem fatinit_spared : s.Spared p (.running s.fatinit) := by
  obtain ⟨s', hdrawn, hs'⟩ := s.fatinit_eq
  rw [hs']
  exact ⟨hdrawn.username, fun i _ => congrFun hdrawn.inputBuffer i⟩

/-- So does every other command but one. -/
theorem command_spared (hz : s.inputBuffer s.inputBufferIndex = 0) (hp : s.inputBufferIndex ≤ p)
    (hun : ¬ s.starts (text "un ") 2) : s.Spared p (s.command out) := by
  have hD := s.drawn_printInv
  have hsame : s.Spared p (.running s) := (Drawn.refl s).spared
  -- the commands in the order in which they are tested
  unfold command
  refine .ite (fun _ => ?_) fun _ => ?_
  · exact .ite (fun _ => (hD.list out (fun _ _ => trivial) (.refl s)).spared) fun _ => trivial
  refine .ite (fun _ => (hD.le out (fun _ _ => trivial) (.refl s)).spared) fun _ => ?_
  refine .ite (fun hecho => echo_spared out hz hp hecho) fun _ => ?_
  refine .ite (fun _ => ((Drawn.refl s).draw _).spared) fun _ => ?_
  refine .ite (fun _ => (hD.ppm (.refl s)).spared) fun _ => ?_
  refine .ite (fun _ => (hD.help out (fun _ _ => trivial) (.refl s)).spared) fun _ => ?_
  refine .ite (fun _ => ((Drawn.refl s).draw _).spared) fun _ => ?_
  refine .ite (fun _ => hsame) fun _ => ?_
  refine .ite (fun _ => hsame) fun _ => ?_
  refine .ite (fun _ => trivial) fun _ => ?_
  refine .ite (fun _ => hsame) fun _ => ?_
  refine .ite (fun _ => fatinit_spared) fun _ => ?_
  refine .ite (fun _ => hsame) fun _ => ?_
  refine .ite (fun _ => trivial) fun _ => ?_
  refine .ite (fun h => absurd h hun) fun _ => ?_
  refine .ite (fun _ => trivial) fun _ => ?_
  exact (hD.unknown out (fun _ _ => trivial) (fun _ => trivial) (.refl s)).spared

/-- A key that stores in front of `p`, and does not end a line that starts with
"un". -/
structure Spares (s : Shell) (p : Nat) (scancode : UInt8) : Prop where
  place : readKeyboard scancode ≠ 0 → s.inputBufferIndex < p
  rename : readKeyboard scancode = 0x0A → ¬ s.terminated.starts (text "un ") 2

instance (s : Shell) (p : Nat) (scancode : UInt8) : Decidable (s.Spares p scancode) :=
  decidable_of_iff ((readKeyboard scancode ≠ 0 → s.inputBufferIndex < p) ∧
    (readKeyboard scancode = 0x0A → ¬ s.terminated.starts (text "un ") 2))
    ⟨fun h => ⟨h.1, h.2⟩, fun h => ⟨h.1, h.2⟩⟩

namespace Renamed

variable (h : s.Renamed p name)

include h

theorem drawn (hd : s.Drawn s') : s'.Renamed p name :=
  h.congr hd.username fun i _ => congrFun hd.inputBuffer i

theorem terminated (hlt : s.inputBufferIndex < p) : s.terminated.Renamed p name :=
  h.congr rfl fun _ hi => Function.update_of_ne (hlt.trans_le hi).ne' _ _

theorem restart : s.restart.Renamed p name := h.congr rfl fun _ _ => rfl

theorem typed (hlt : s.inputBufferIndex < p) (data : UInt8) : (s.typed data).Renamed p name := by
  rw [Shell.typed]
  split
  · exact h.congr rfl fun _ hi => Function.update_of_ne (hlt.trans_le hi).ne' _ _
  · exact h

theorem backspace : (s.backspace out).Renamed p name := by
  rw [Shell.backspace]
  split
  · exact h.congr rfl fun _ _ => rfl
  · exact h

/-- After a command that is not "un" the user name is the same. -/
theorem command (hlt : s.inputBufferIndex < p) (hun : ¬ s.terminated.starts (text "un ") 2)
    (hs' : s.terminated.command out = .running s') : s'.Renamed p name := by
  have hzero : s.terminated.inputBuffer s.inputBufferIndex = 0 := Function.update_self _ _ _
  have hspared := command_spared out (p := p) hzero hlt.le hun
  rw [hs'] at hspared
  exact (h.terminated hlt).congr hspared.1 hspared.2

/-- A prompt shows it. -/
theorem shown {scancode : UInt8} (hk : s.exitHKIloop = false → s.Spares p scancode)
    {name' : List UInt8} (hshown : s.shown out scancode = some name') : name' = name := by
  unfold Shell.shown at hshown
  split at hshown
  next hkey =>
    have hk := hk hkey.1
    have hlt : s.inputBufferIndex < p := hk.place (hkey.2.1 ▸ by decide)
    cases hs' : s.terminated.command out with
    | running s' =>
        rw [hs'] at hshown
        cases hshown
        exact (h.command out hlt (hk.rename hkey.2.1) hs').usernameString out
    | halted s' => rw [hs'] at hshown; cases hshown
    | looping s' => rw [hs'] at hshown; cases hshown
    | overrun s' => rw [hs'] at hshown; cases hshown
  next => cases hshown

end Renamed

end Shell

/-- In the loop of the shell the user name is the string at `p`. -/
def Status.Renamed (p : Nat) (name : List UInt8) : Status → Prop
  | .running s => s.Renamed p name
  | _ => True

/-- `Shell.Spares` in a shell that takes the key; no other state is changed by one. -/
def Status.Spares (p : Nat) : Status → UInt8 → Prop
  | .running s, scancode => s.exitHKIloop = false → s.Spares p scancode
  | _, _ => True

/-- All keys that are handled store in front of `p`, and no line starts with "un". -/
def SparesRun (out : Outside) (p : Nat) : Status → List UInt8 → Prop
  | _, [] => True
  | st, scancode :: scancodes =>
      st.Spares p scancode ∧ SparesRun out p (shellStep out st scancode) scancodes

/-- The name that the prompt behind this key shows, if there is one. -/
def Status.shown (out : Outside) : Status → UInt8 → Option (List UInt8)
  | .running s, scancode => s.shown out scancode
  | _, _ => none

/-- The user names in the prompts of a run. -/
def promptNames (out : Outside) : Status → List UInt8 → List (List UInt8)
  | _, [] => []
  | st, scancode :: scancodes =>
      (st.shown out scancode).toList ++ promptNames out (shellStep out st scancode) scancodes

instance (p : Nat) : (st : Status) → (scancode : UInt8) → Decidable (st.Spares p scancode)
  | .running s, scancode =>
      inferInstanceAs (Decidable (s.exitHKIloop = false → s.Spares p scancode))
  | .halted _, _ => .isTrue trivial
  | .looping _, _ => .isTrue trivial
  | .overrun _, _ => .isTrue trivial

instance decidableSparesRun (out : Outside) (p : Nat) :
    (st : Status) → (scancodes : List UInt8) → Decidable (SparesRun out p st scancodes)
  | _, [] => .isTrue trivial
  | st, scancode :: scancodes =>
      have := decidableSparesRun out p (shellStep out st scancode) scancodes
      inferInstanceAs (Decidable (_ ∧ _))

section

variable (out : Outside) {s : Shell} {st : Status} {p : Nat} {name : List UInt8}
  {scancode : UInt8} {scancodes : List UInt8}

theorem Shell.Renamed.enter (h : s.Renamed p name) (hlt : s.inputBufferIndex < p)
    (hun : ¬ s.terminated.starts (text "un ") 2) :
    (s.terminated.enter out).Renamed p name := by
  have hcmd (s' : Shell) (hs' : s.terminated.command out = .running s') : s'.Renamed p name :=
    h.command out hlt hun hs'
  rw [Shell.enter]
  generalize s.terminated.command out = st at hcmd ⊢
  rcases st with s' | s' | s' | s'
  · exact ((hcmd s' rfl).drawn (s'.drawn_printInv.prompt out (.refl s'))).restart
  all_goals trivial

/-- One key. -/
theorem Shell.Renamed.handle (h : s.Renamed p name) (hk : s.Spares p scancode) :
    (s.handleKeyboardInput out scancode).Renamed p name := by
  rw [Shell.handleKeyboardInput]
  split
  · exact h
  next hdata =>
    have hlt := hk.place hdata
    have hterm := h.terminated hlt
    split
    · trivial
    split
    · exact hterm.backspace out
    split
    · have hreset := hterm.drawn Shell.reset_drawn
      exact hreset.typed (Shell.reset_drawn.index.trans_lt hlt) 0
    split
    next hnl => exact h.enter out hlt (hk.rename hnl)
    · exact hterm.typed hlt _

theorem Status.Renamed.step (h : st.Renamed p name) (hk : st.Spares p scancode) :
    (shellStep out st scancode).Renamed p name := by
  rcases st with s | s | s | s
  · rw [shellStep]
    split
    · exact h
    next hexit => exact Shell.Renamed.handle out h (hk (Bool.eq_false_iff.mpr hexit))
  all_goals trivial

/-- All prompts of a run show the name. -/
theorem Status.Renamed.run (h : st.Renamed p name) (hk : SparesRun out p st scancodes) :
    ∀ name' ∈ promptNames out st scancodes, name' = name := by
  induction scancodes generalizing st with
  | nil => exact fun _ hmem => absurd hmem List.not_mem_nil
  | cons scancode scancodes ih =>
      intro name' hmem
      rcases List.mem_append.mp hmem with hmem | hmem
      · rw [Option.mem_toList] at hmem
        rcases st with s | s | s | s
        · exact Shell.Renamed.shown out h hk.1 hmem
        all_goals cases hmem
      · exact ih (h.step out hk.1) hk.2 name' hmem

/-- The command itself, when the name is left behind the line. -/
theorem Shell.HasLine.renamed_step (h : s.HasLine (Shell.unLine name)) (hne : name ≠ [])
    (hkey : readKeyboard scancode = 0x0A) (hlen : name.length ≤ 4)
    (hw : word s.inputBuffer inputBufferSize 8 = name) :
    (shellStep out (.running s) scancode).Renamed (wordStart s.inputBuffer inputBufferSize 8)
      name := by
  have hindex : s.inputBufferIndex = name.length + 3 := h.index
  have hword := h.word_eq_iff.mpr ⟨hlen, hw⟩
  have hstart : wordStart s.terminated.inputBuffer inputBufferSize 8
      = wordStart s.inputBuffer inputBufferSize 8 :=
    wordStart_congr fun i hi => Function.update_of_ne (by omega) _ _
  have hun := Shell.renamed_un out (s := s.terminated) (hword ▸ hne)
  rw [hword, hstart] at hun
  rw [shellStep_newline out h.loop hkey (h.index.trans_lt h.length), Shell.enter, h.command_un]
  generalize s.terminated.un out = s₁ at hun
  exact (hun.drawn (s₁.drawn_printInv.prompt out (.refl s₁))).restart

/-- After the line "un" with a name: the first prompt shows the name, whatever
lies at address 0, exactly when it has at most four characters and is the first
word from byte 8 on that earlier lines have left in the buffer; and then all
prompts do in a run whose keys store in front of that word. -/
theorem promptNames_renamed (h : s.HasLine (Shell.unLine name)) (hne : name ≠ [])
    (hkey : readKeyboard scancode = 0x0A) :
    ((∀ out, promptNames out (.running s) [scancode] = [name]) ↔
      name.length ≤ 4 ∧ word s.inputBuffer inputBufferSize 8 = name) ∧
    (name.length ≤ 4 ∧ word s.inputBuffer inputBufferSize 8 = name →
      ∀ out scancodes,
        SparesRun out (wordStart s.inputBuffer inputBufferSize 8)
          (shellStep out (.running s) scancode) scancodes →
        ∀ name' ∈ promptNames out (.running s) (scancode :: scancodes), name' = name) := by
  have hiff := h.shown_un_iff hne hkey
  constructor
  · refine Iff.trans (forall_congr' fun out => ?_) hiff
    show (s.shown out scancode).toList ++ [] = [name] ↔ _
    rw [List.append_nil, h.shown_un out hkey, Option.toList_some, List.singleton_inj,
      Option.some_inj]
  · intro hcond out scancodes hrun name' hmem
    rcases List.mem_append.mp hmem with hmem | hmem
    · have hshown : s.shown out scancode = some name := hiff.mpr hcond out
      have hsome : s.shown out scancode = some name' := Option.mem_toList.mp hmem
      exact Option.some_inj.mp (hsome.symm.trans hshown)
    · exact (h.renamed_step out hne hkey hcond.1 hcond.2).run out hrun name' hmem

end

/-- The shell after keys from the first prompt on. -/
def afterKeys (scancodes : List UInt8) : Shell :=
  (deliver emptyOutside (.running (bootShell.start emptyOutside)) scancodes).shell

/-- The line "aaaaaaaabob", the newline key, and the line "un bob". -/
def bobKeys : List UInt8 :=
  [30, 30, 30, 30, 30, 30, 30, 30, 48, 24, 48, 28, 22, 49, 54, 48, 24, 48]

/-- The line "un robert". -/
def robertKeys : List UInt8 := [22, 49, 54, 19, 24, 48, 18, 19, 20]

theorem hasLine_bob : (afterKeys bobKeys).HasLine (Shell.unLine (text "bob")) :=
  ⟨by decide +kernel, by decide +kernel, by decide +kernel, by decide +kernel, by decide +kernel⟩

/-- The earlier line has left the name, so this prompt and that of the command
"g" behind it show it. -/
theorem promptNames_bob :
    (afterKeys bobKeys).HasLine (Shell.unLine (text "bob")) ∧
      ∀ name ∈ promptNames emptyOutside (.running (afterKeys bobKeys)) [28, 34, 28],
        name = text "bob" :=
  ⟨hasLine_bob, (promptNames_renamed hasLine_bob (by decide) (by decide)).2
    ⟨by decide, by decide +kernel⟩ emptyOutside [34, 28] (by decide +kernel)⟩

/-- From the start, the prompt behind "un robert" shows "t". -/
theorem promptNames_robert :
    (afterKeys robertKeys).HasLine (Shell.unLine (text "robert")) ∧
      promptNames emptyOutside (.running (afterKeys robertKeys)) [28] = [text "t"] ∧
      text "t" ≠ text "robert" :=
  ⟨⟨by decide +kernel, by decide +kernel, by decide +kernel, by decide +kernel,
    by decide +kernel⟩, by decide +kernel, by decide⟩

end PotatoOS
