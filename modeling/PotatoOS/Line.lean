/-
PotatoOS/Line.lean

The line editor, against a list of characters.

A reference line grows by a character and shrinks by a backspace.  The editor
keeps the line in its buffer, with whatever earlier lines have left behind it,
and takes the column of the screen for its length.  `Edits` relates the two:
the buffer starts with the line, the index is its length, and the column is
that much behind the prompt.  One key keeps the relation as long as the line
does not reach the end of the row (`Shell.Edits.step`).

Main result: `line_refines`.
-/
import PotatoOS.Shell

namespace PotatoOS

/-! ### The reference -/

/-- What a character does to a line; the backspace takes one away. -/
def editLine (line : List UInt8) (data : UInt8) : List UInt8 :=
  if data = 0x08 then line.dropLast else line ++ [data]

/-- The line that a sequence of keys leaves. -/
def referenceLine (scancodes : List UInt8) : List UInt8 :=
  scancodes.foldl (fun line scancode => editLine line (readKeyboard scancode)) []

/-- A key that edits the line: a character other than 0, newline and 'U', or
the backspace. -/
structure IsEditKey (scancode : UInt8) : Prop where
  char : readKeyboard scancode ≠ 0
  newline : readKeyboard scancode ≠ 0x0A
  reset : readKeyboard scancode ≠ 0x55

instance (scancode : UInt8) : Decidable (IsEditKey scancode) :=
  decidable_of_iff (readKeyboard scancode ≠ 0 ∧ readKeyboard scancode ≠ 0x0A ∧
    readKeyboard scancode ≠ 0x55) ⟨fun h => ⟨h.1, h.2.1, h.2.2⟩, fun h => ⟨h.1, h.2, h.3⟩⟩

/-- A line behind the prompt fits the row up to this length. -/
def maxLine : Nat := 64

/-! ### Strings in a buffer -/

theorem bytesAt_succ (m : Mem) (n : Nat) : bytesAt m 0 (n + 1) = bytesAt m 0 n ++ [m n] := by
  rw [bytesAt_add]
  simp [bytesAt]

theorem bytesAt_update (m : Mem) {n k : Nat} (h : n ≤ k) (b : UInt8) :
    bytesAt (Function.update m k b) 0 n = bytesAt m 0 n := by
  refine bytesAt_congr fun i hi => ?_
  rw [Function.update_of_ne]
  omega

/-- A line that is followed by a 0 or by the end of the buffer is the string in
front of it. -/
theorem takeWhile_bytesAt {m : Mem} {line : List UInt8} {p size : Nat}
    (hline : bytesAt m p line.length = line) (h₀ : 0 ∉ line) (hle : line.length ≤ size)
    (hend : line.length < size → m (p + line.length) = 0) :
    (bytesAt m p size).takeWhile (· ≠ 0) = line := by
  obtain ⟨k, rfl⟩ : ∃ k, size = line.length + k := ⟨size - line.length, by omega⟩
  have hpos : ∀ b ∈ line, decide (b ≠ 0) = true := by
    intro b hb
    rw [decide_eq_true_eq]
    rintro rfl
    exact h₀ hb
  rw [bytesAt_add, hline, List.takeWhile_append_of_pos hpos]
  cases k with
  | zero => exact List.append_nil line
  | succ k =>
      have hrest : bytesAt m (p + line.length) (k + 1)
          = 0 :: bytesAt m (p + line.length + 1) k := by
        rw [Nat.add_comm k 1, bytesAt_add]
        simp [bytesAt, hend (by omega)]
      rw [hrest, List.takeWhile_cons_of_neg (by decide), List.append_nil]

/-! ### The editor -/

/-- The shell holds the line, and the screen shows it behind the prompt. -/
structure Shell.Edits (s : Shell) (line : List UInt8) : Prop where
  username : s.username = .literal
  loop : s.exitHKIloop = false
  index : s.inputBufferIndex = line.length
  column : s.terminal.column = 15 + line.length
  buffer : bytesAt s.inputBuffer 0 line.length = line
  nonzero : 0 ∉ line

section

variable (out : Outside) {s : Shell} {line : List UInt8} {data scancode : UInt8}

theorem Shell.edits_restart (hu : s.username = .literal) (he : s.exitHKIloop = false)
    (hcol : s.terminal.column = 15) : s.restart.Edits [] :=
  ⟨hu, he, rfl, hcol, rfl, List.not_mem_nil⟩

/-- Behind a prompt the line is empty, whatever the buffer holds. -/
theorem Shell.edits_prompt (hu : s.username = .literal) (he : s.exitHKIloop = false) :
    (s.prompt out).restart.Edits [] := by
  have hdrawn := s.drawn_printInv.prompt out (.refl s)
  exact Shell.edits_restart (hdrawn.username.trans hu) (hdrawn.exitHKIloop.trans he)
    (Shell.prompt_column out hu)

theorem Shell.Edits.terminated (h : s.Edits line) : s.terminated.Edits line where
  username := h.username
  loop := h.loop
  index := h.index
  column := h.column
  buffer := (bytesAt_update _ h.index.ge 0).trans h.buffer
  nonzero := h.nonzero

/-- The string that is compared with the commands. -/
theorem Shell.Edits.inputString (h : s.Edits line) (hlen : line.length ≤ maxLine) :
    s.terminated.inputString 0 = line := by
  have hline : bytesAt s.terminated.inputBuffer 0 line.length = line := h.terminated.buffer
  have hend : s.terminated.inputBuffer line.length = 0 := by
    rw [← h.index]
    exact Function.update_self _ _ _
  exact takeWhile_bytesAt hline h.nonzero (hlen.trans (by decide)) fun _ => by
    rwa [Nat.zero_add]

/-- A character goes to the end of the line. -/
theorem Shell.Edits.typed (h : s.Edits line) (h₀ : data ≠ 0)
    (hlen : (line ++ [data]).length ≤ maxLine) : (s.typed data).Edits (line ++ [data]) := by
  rw [List.length_append, List.length_singleton, maxLine] at hlen
  have hindex := h.index
  have hroom : s.inputBufferIndex < inputBufferSize - 1 := by
    rw [inputBufferSize]
    omega
  have hcol : (terminalPutchar s.terminal data).column = 15 + (line.length + 1) := by
    -- the row does not end here
    rw [terminalPutchar_column, h.column, if_neg (by rw [vgaWidth]; omega)]
    rfl
  rw [Shell.typed, if_pos hroom]
  refine ⟨h.username, h.loop, ?_, ?_, ?_, ?_⟩
  · rw [List.length_append, List.length_singleton, hindex]
  · rw [List.length_append, List.length_singleton]
    exact hcol
  · show bytesAt (Function.update s.inputBuffer s.inputBufferIndex data) 0 _ = _
    rw [List.length_append, List.length_singleton, bytesAt_succ, hindex,
      bytesAt_update _ (Nat.le_refl _), h.buffer, Function.update_self]
  · simp [h.nonzero, h₀.symm]

/-- A backspace takes the last character away, if there is one: the column
says so. -/
theorem Shell.Edits.backspace (h : s.Edits line) (hlen : line.length ≤ maxLine) :
    (s.backspace out).Edits line.dropLast := by
  have hindex := h.index
  rw [maxLine] at hlen
  rw [Shell.backspace, Shell.guard_eq out h.username, h.column]
  rcases List.eq_nil_or_concat line with rfl | ⟨front, last, rfl⟩
  · rw [if_neg (by simp)]
    exact h
  · simp only [List.concat_eq_append, List.length_append, List.length_singleton] at hlen hindex ⊢
    have hbuffer := h.buffer
    simp only [List.concat_eq_append, List.length_append, List.length_singleton] at hbuffer
    rw [bytesAt_succ] at hbuffer
    rw [if_pos (by omega), List.dropLast_concat]
    refine ⟨h.username, h.loop, ?_, ?_, List.append_inj_left' hbuffer rfl, ?_⟩
    · show (s.inputBufferIndex + (2 ^ 32 - 1)) % 2 ^ 32 = front.length
      omega
    · show 15 + (front.length + 1) - 1 = 15 + front.length
      omega
    · intro hmem
      exact h.nonzero (by simp [hmem])

/-- One key. -/
theorem Shell.Edits.step (h : s.Edits line) (hk : IsEditKey scancode)
    (hlen : line.length ≤ maxLine)
    (hlen' : (editLine line (readKeyboard scancode)).length ≤ maxLine) :
    ∃ s', shellStep out (.running s) scancode = .running s' ∧
      s'.Edits (editLine line (readKeyboard scancode)) := by
  have hindex : ¬ inputBufferSize ≤ s.inputBufferIndex := by
    rw [h.index, inputBufferSize]
    rw [maxLine] at hlen
    omega
  have hstep : shellStep out (.running s) scancode = s.handleKeyboardInput out scancode := by
    rw [shellStep, h.loop]
    rfl
  rw [hstep, Shell.handleKeyboardInput]
  simp only [if_neg hk.char, if_neg hindex, if_neg hk.reset, if_neg hk.newline]
  rw [editLine] at hlen' ⊢
  by_cases hb : readKeyboard scancode = 0x08
  · rw [if_pos hb] at hlen' ⊢
    rw [if_pos hb]
    exact ⟨_, rfl, h.terminated.backspace out hlen⟩
  · rw [if_neg hb] at hlen' ⊢
    rw [if_neg hb]
    exact ⟨_, rfl, h.terminated.typed hk.char hlen'⟩

/-- A sequence of keys, in which no line is too long. -/
theorem Shell.Edits.run {scancodes : List UInt8} (h : s.Edits line)
    (hkeys : ∀ scancode ∈ scancodes, IsEditKey scancode)
    (hlen : ∀ codes, codes <+: scancodes →
      (codes.foldl (fun line scancode => editLine line (readKeyboard scancode)) line).length
        ≤ maxLine) :
    ∃ s', deliver out (.running s) scancodes = .running s' ∧
      s'.Edits
        (scancodes.foldl (fun line scancode => editLine line (readKeyboard scancode)) line) := by
  induction scancodes generalizing s line with
  | nil => exact ⟨s, rfl, h⟩
  | cons scancode scancodes ih =>
      have hfirst := hlen [] (List.nil_prefix)
      have hnext := hlen [scancode] (List.prefix_append [scancode] scancodes)
      obtain ⟨s₁, hstep, h₁⟩ := h.step out (hkeys _ (List.mem_cons_self ..)) hfirst hnext
      obtain ⟨s', hrun, h'⟩ := ih h₁ (fun code hc => hkeys code (List.mem_cons_of_mem _ hc))
        fun codes hc => hlen (scancode :: codes) ((List.prefix_cons_inj scancode).mpr hc)
      refine ⟨s', ?_, h'⟩
      rw [deliver, List.foldl_cons, hstep]
      exact hrun

/-- After any keys that edit a line of at most 64 characters behind a prompt,
the newline key compares the reference line with the commands. -/
theorem line_refines (scancodes : List UInt8) {enter : UInt8} (hu : s.username = .literal)
    (he : s.exitHKIloop = false) (hkeys : ∀ scancode ∈ scancodes, IsEditKey scancode)
    (hlen : ∀ codes, codes <+: scancodes → (referenceLine codes).length ≤ maxLine)
    (henter : readKeyboard enter = 0x0A) :
    ∃ s', deliver out (.running (s.prompt out).restart) scancodes = .running s' ∧
      shellStep out (.running s') enter = s'.terminated.enter out ∧
      s'.terminated.inputString 0 = referenceLine scancodes := by
  obtain ⟨s', hrun, h'⟩ := (Shell.edits_prompt out hu he).run out hkeys hlen
  have hline := hlen scancodes List.prefix_rfl
  refine ⟨s', hrun, ?_, h'.inputString hline⟩
  refine shellStep_newline out h'.loop henter ?_
  rw [h'.index]
  exact Nat.lt_of_le_of_lt hline (by decide)

theorem Shell.restart_of_zero (h₀ : s.inputBufferIndex = 0) : s.restart = s := by
  rw [Shell.restart, ← h₀]

/-- The first prompt is no different. -/
theorem Shell.start_eq_prompt (h₀ : s.inputBufferIndex = 0) :
    s.start out = ((s.task (text "Entering recovery shell...") 1).prompt out).restart := by
  have htask := s.drawn_printInv.task (text "Entering recovery shell...") 1 (.refl s)
  unfold Shell.start
  generalize s.task (text "Entering recovery shell...") 1 = s₁ at htask ⊢
  have hdrawn := s.drawn_printInv.prompt out htask
  exact (Shell.restart_of_zero (hdrawn.index.trans h₀)).symm

end

/-- "lx", a backspace, then "s": the command is "ls". -/
theorem line_refines_ls :
    ∃ s', deliver emptyOutside (.running (bootShell.start emptyOutside)) [38, 45, 14, 31]
        = .running s' ∧
      shellStep emptyOutside (.running s') 28 = s'.terminated.enter emptyOutside ∧
      s'.terminated.inputString 0 = text "ls" := by
  have htask := bootShell.drawn_printInv.task (text "Entering recovery shell...") 1 (.refl _)
  have hlen : ∀ codes ∈ List.inits [38, 45, 14, 31], (referenceLine codes).length ≤ maxLine := by
    decide
  have hkeys : ∀ scancode ∈ [38, 45, 14, 31], IsEditKey scancode := by
    simp only [List.forall_mem_cons]
    exact ⟨by decide, by decide, by decide, by decide, nofun⟩
  have hline := line_refines emptyOutside [38, 45, 14, 31] htask.username htask.exitHKIloop
    hkeys (fun codes hc => hlen codes ((List.mem_inits _ _).mpr hc))
    (show readKeyboard 28 = 0x0A by decide)
  rw [← Shell.start_eq_prompt emptyOutside (s := bootShell) rfl,
    show referenceLine [38, 45, 14, 31] = text "ls" by decide] at hline
  exact hline

end PotatoOS
