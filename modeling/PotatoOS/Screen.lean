/-
PotatoOS/Screen.lean

Where the terminal writes, and where the hardware cursor stands.

Row and column are moved by functions with different rules: a character in
the last row clears the screen and keeps the column, a newline behind the
last row clears it and starts at the top, the key 'U' and the error screen
jump to fixed places.  All of them leave the position on the screen, and all
stores go to cells of the screen (`Terminal.OnScreen`).  Text that ends in
front of the last row stands in the cells from the position on, and all other
cells stay as they are (`Terminal.Wrote`).

Not all of them program the cursor.  But the last thing that the shell does
before it waits for a key is to write a character or to go back one, and both
do.  Main results: `terminalWritestring_lands` for a text and
`terminal_position` for any sequence of calls.
-/
import PotatoOS.Shell

namespace PotatoOS

/-! ### The terminal -/

namespace Terminal

/-- The position is on the screen, and the cells behind the screen hold what
they hold in `b`.  Nothing reads a cell, so for arbitrary `b` this says that
no store has gone there. -/
structure OnScreen (b : Nat → UInt16) (t : Terminal) : Prop where
  row : t.row < vgaHeight
  column : t.column < vgaWidth
  beyond : ∀ i, vgaHeight * vgaWidth ≤ i → t.buffer i = b i

/-- The hardware cursor stands at the position. -/
def AtCursor (t : Terminal) : Prop := t.cursor.toNat = t.row * vgaWidth + t.column

variable {b : Nat → UInt16} {t : Terminal}

theorem cell_lt {x y : Nat} (hy : y < vgaHeight) (hx : x < vgaWidth) :
    y * vgaWidth + x < vgaHeight * vgaWidth := by
  rw [vgaHeight] at hy
  rw [vgaWidth] at hx
  rw [vgaHeight, vgaWidth]
  omega

/-- The registers of the cursor hold every cell, and the one behind the last. -/
theorem updateCursor_toNat {x y : Nat} (t : Terminal) (hy : y < vgaHeight) (hx : x ≤ vgaWidth) :
    (updateCursor t x y).cursor.toNat = y * vgaWidth + x := by
  rw [vgaHeight] at hy
  rw [vgaWidth] at hx
  show (UInt16.ofNat (y * vgaWidth + x)).toNat = y * vgaWidth + x
  rw [UInt16.toNat_ofNat', vgaWidth]
  omega

/-- The cell at which the next character goes. -/
def position (t : Terminal) : Nat := t.row * vgaWidth + t.column

section

variable (c : UInt8)

/-- A character in the last row is one on the cleared screen. -/
theorem putchar_scrolled (t : Terminal) :
    terminalPutchar t c
      = terminalPutchar (if t.row = vgaHeight - 1 then terminalScroll t else t) c := by
  by_cases h : t.row = vgaHeight - 1
  · have hrow : (terminalScroll t).row ≠ vgaHeight - 1 := (by decide : 1 ≠ vgaHeight - 1)
    rw [if_pos h, terminalPutchar, if_pos h, terminalPutchar, if_neg hrow]
  · rw [if_neg h]

/-- Off the last row nothing is cleared. -/
theorem putchar_buffer (hrow : t.row ≠ vgaHeight - 1) :
    (terminalPutchar t c).buffer
      = Function.update t.buffer t.position (vgaEntry c t.color) := by
  rw [terminalPutchar, if_neg hrow]
  split <;> rfl

theorem putchar_color (hrow : t.row ≠ vgaHeight - 1) : (terminalPutchar t c).color = t.color := by
  rw [terminalPutchar, if_neg hrow]
  split <;> rfl

theorem putchar_cursor (hrow : t.row ≠ vgaHeight - 1) :
    (terminalPutchar t c).cursor = (updateCursor t (t.column + 1) t.row).cursor := by
  rw [terminalPutchar, if_neg hrow]
  split <;> rfl

/-- The end of a row is followed by the start of the next one. -/
theorem putchar_position (hrow : t.row < vgaHeight - 1) :
    (terminalPutchar t c).position = t.position + 1 := by
  rw [terminalPutchar, if_neg hrow.ne]
  split
  next hwrap =>
    have hwrap' : t.column + 1 = vgaWidth := hwrap
    have hnext : ¬ t.row + 1 = vgaHeight := by
      rw [vgaHeight] at hrow ⊢
      omega
    show (if t.row + 1 = vgaHeight then 0 else t.row + 1) * vgaWidth + 0
      = t.row * vgaWidth + t.column + 1
    rw [if_neg hnext, Nat.add_assoc, hwrap', Nat.succ_mul, Nat.add_zero]
  next => rfl

end

namespace OnScreen

theorem clear (h : t.OnScreen b) : (clearCells t).OnScreen b where
  row := h.row
  column := h.column
  beyond i hi := by
    show (if i < vgaHeight * vgaWidth then _ else t.buffer i) = b i
    rw [if_neg (Nat.not_lt.mpr hi)]
    exact h.beyond i hi

theorem putentryat {x y : Nat} (c color : UInt8) (h : t.OnScreen b) (hy : y < vgaHeight)
    (hx : x < vgaWidth) : (terminalPutentryat t c color x y).OnScreen b where
  row := h.row
  column := h.column
  beyond i hi := by
    show Function.update t.buffer (y * vgaWidth + x) (vgaEntry c color) i = b i
    rw [Function.update_of_ne (Nat.lt_of_lt_of_le (cell_lt hy hx) hi).ne']
    exact h.beyond i hi

/-- Before a character is written the position is in front of the last row. -/
theorem scrolled (h : t.OnScreen b) :
    (if t.row = vgaHeight - 1 then terminalScroll t else t).OnScreen b ∧
      (if t.row = vgaHeight - 1 then terminalScroll t else t).row < vgaHeight - 1 := by
  split
  · exact ⟨clear ⟨(by decide : 1 < vgaHeight), h.column, h.beyond⟩, (by decide : 1 < vgaHeight - 1)⟩
  next hrow => exact ⟨h, Nat.lt_of_le_of_ne (Nat.le_sub_one_of_lt h.row) hrow⟩

/-- A character leaves the position on the screen and the cursor there. -/
theorem putchar (h : t.OnScreen b) (c : UInt8) :
    (terminalPutchar t c).OnScreen b ∧ (terminalPutchar t c).AtCursor := by
  obtain ⟨hs, hrow⟩ := h.scrolled
  rw [putchar_scrolled]
  generalize (if t.row = vgaHeight - 1 then terminalScroll t else t) = t' at hs hrow ⊢
  have hpos := putchar_position c hrow
  refine ⟨⟨?_, terminalPutchar_column_lt t' c hs.column, fun i hi => ?_⟩, ?_⟩
  · -- one cell behind a row in front of the last one
    have hcol := hs.column
    rw [position, position, vgaWidth] at hpos
    rw [vgaHeight] at hrow ⊢
    rw [vgaWidth] at hcol
    omega
  · have hne : i ≠ t'.position := (Nat.lt_of_lt_of_le (cell_lt hs.row hs.column) hi).ne'
    rw [putchar_buffer c hrow.ne, Function.update_of_ne hne]
    exact hs.beyond i hi
  · rw [AtCursor, putchar_cursor c hrow.ne]
    exact (updateCursor_toNat t' hs.row hs.column).trans hpos.symm

theorem newline (h : t.OnScreen b) : (terminalNewline t).OnScreen b := by
  rw [terminalNewline]
  split
  · exact ⟨(by decide : 0 < vgaHeight), (by decide : 0 < vgaWidth), h.clear.beyond⟩
  next hrow =>
    exact ⟨Nat.lt_of_le_of_ne h.row hrow, (by decide : 0 < vgaWidth), h.beyond⟩

/-- A text that is not empty leaves the cursor at the position. -/
theorem write (h : t.OnScreen b) (data : List UInt8) :
    (terminalWrite t data).OnScreen b ∧ (data ≠ [] → (terminalWrite t data).AtCursor) := by
  induction data generalizing t with
  | nil => exact ⟨h, fun hne => absurd rfl hne⟩
  | cons c data ih =>
      obtain ⟨hput, hcursor⟩ := h.putchar c
      obtain ⟨hrest, hlast⟩ := ih hput
      refine ⟨hrest, fun _ => ?_⟩
      rcases data with - | ⟨c', data⟩
      · exact hcursor
      · exact hlast (List.cons_ne_nil c' data)

end OnScreen

/-! ### Where text lands -/

/-- From `t` to `t'` the string was written from the position on, in the
colour of `t`; the other cells are as they were and the position is behind
the string. -/
structure Wrote (t : Terminal) (s : List UInt8) (t' : Terminal) : Prop where
  color : t'.color = t.color
  column : t'.column < vgaWidth
  position : t'.position = t.position + s.length
  cells : ∀ i (h : i < s.length), t'.buffer (t.position + i) = vgaEntry s[i] t.color
  others : ∀ k, k < t.position ∨ t.position + s.length ≤ k → t'.buffer k = t.buffer k

namespace Wrote

variable {t' t'' : Terminal} {s s' : List UInt8}

theorem nil (h : t.column < vgaWidth) : t.Wrote [] t :=
  ⟨rfl, h, rfl, fun i hi => absurd hi (Nat.not_lt_zero i), fun _ _ => rfl⟩

/-- One string behind the other. -/
theorem append (h : t.Wrote s t') (h' : t'.Wrote s' t'') : t.Wrote (s ++ s') t'' where
  color := h'.color.trans h.color
  column := h'.column
  position := by rw [h'.position, h.position, List.length_append, Nat.add_assoc]
  cells i hi := by
    have hp := h.position
    rw [List.length_append] at hi
    by_cases hs : i < s.length
    · rw [List.getElem_append_left hs, h'.others _ (.inl (by omega))]
      exact h.cells i hs
    · have hi' : i - s.length < s'.length := by omega
      have hcell : t.position + i = t'.position + (i - s.length) := by omega
      rw [List.getElem_append_right (Nat.not_lt.mp hs), hcell, h'.cells _ hi', h.color]
  others k hk := by
    have hp := h.position
    rw [List.length_append] at hk
    rw [h'.others k (by omega), h.others k (by omega)]

/-- A character in front of the last row. -/
theorem putchar (c : UInt8) (hrow : t.row < vgaHeight - 1) (hcol : t.column < vgaWidth) :
    t.Wrote [c] (terminalPutchar t c) where
  color := putchar_color c hrow.ne
  column := terminalPutchar_column_lt t c hcol
  position := putchar_position c hrow
  cells i hi := by
    obtain rfl : i = 0 := Nat.lt_one_iff.mp hi
    rw [putchar_buffer c hrow.ne]
    exact Function.update_self t.position _ t.buffer
  others k hk := by
    have hne : k ≠ t.position := by
      rw [List.length_singleton] at hk
      omega
    rw [putchar_buffer c hrow.ne, Function.update_of_ne hne]

/-- A string that ends in front of the last row. -/
theorem write (s : List UInt8) (hcol : t.column < vgaWidth)
    (hfit : t.position + s.length ≤ (vgaHeight - 1) * vgaWidth) :
    t.Wrote s (terminalWrite t s) := by
  induction s generalizing t with
  | nil => exact .nil hcol
  | cons c s ih =>
      rw [List.length_cons] at hfit
      have hrow : t.row < vgaHeight - 1 := by
        refine Nat.lt_of_mul_lt_mul_right (a := vgaWidth) ?_
        rw [Terminal.position] at hfit
        omega
      have hc := Wrote.putchar c hrow hcol
      exact hc.append (ih hc.column (by rw [hc.position, List.length_singleton]; omega))

end Wrote

end Terminal

/-- Text lands where it should: a string that ends in front of the last row
is written from the position on, over as many rows as it takes, and nothing
else on the screen changes.  A row up to 23 need not be asked for: it follows
as soon as there is a character to write. -/
theorem terminalWritestring_lands (t : Terminal) (s : List UInt8) (hcol : t.column < vgaWidth)
    (hfit : t.position + s.length ≤ 24 * vgaWidth) :
    t.Wrote s (terminalWritestring t s) :=
  .write s hcol hfit

/-- Two characters at the end of the first row. -/
theorem terminalWritestring_lands_wrap :
    Terminal.Wrote ⟨0, 79, 7, fun _ => 0, 0⟩ [0x41, 0x42]
        (terminalWritestring ⟨0, 79, 7, fun _ => 0, 0⟩ [0x41, 0x42]) ∧
      (terminalWritestring ⟨0, 79, 7, fun _ => 0, 0⟩ [0x41, 0x42]).row = 1 ∧
      (terminalWritestring ⟨0, 79, 7, fun _ => 0, 0⟩ [0x41, 0x42]).buffer 80 = 0x742 :=
  ⟨terminalWritestring_lands _ _ (by decide) (by decide), by decide, by decide⟩

/-! ### The shell -/

/-- The terminal of the machine is on the screen. -/
structure Shell.Shows (b : Nat → UInt16) (s : Shell) : Prop where
  terminal : s.terminal.OnScreen b

theorem shows_commandInv (b : Nat → UInt16) :
    Shell.CommandInv (fun _ => True) (Shell.Shows b) where
  putchar c h := ⟨(h.terminal.putchar c).1⟩
  newline h := ⟨h.terminal.newline⟩
  clear h := ⟨h.terminal.clear⟩
  color _ h := ⟨h.terminal.row, h.terminal.column, h.terminal.beyond⟩
  row hy h := ⟨hy, h.terminal.column, h.terminal.beyond⟩
  column hx h := ⟨h.terminal.row, hx, h.terminal.beyond⟩
  addevent e h := by
    unfold Shell.addevent
    split
    · exact ⟨h.terminal⟩
    · exact h
  record _ h := ⟨h.terminal⟩
  other h ht _ := ⟨ht ▸ h.terminal⟩

namespace Shell

variable {b : Nat → UInt16} (out : Outside) {s : Shell}

@[simp] theorem restart_terminal : s.restart.terminal = s.terminal := rfl

theorem Shows.backspace (h : s.Shows b) : (s.backspace out).Shows b := by
  rw [Shell.backspace]
  split
  · have hx : s.terminal.column - 1 < vgaWidth :=
      Nat.lt_of_le_of_lt (Nat.sub_le _ _) h.terminal.column
    have hback : Terminal.OnScreen b { s.terminal with column := s.terminal.column - 1 } :=
      ⟨h.terminal.row, hx, h.terminal.beyond⟩
    have hput := hback.putentryat 0x20 s.terminal.color h.terminal.row hx
    exact ⟨hput.row, hput.column, hput.beyond⟩
  · exact h

end Shell

/-! ### The cursor -/

section

variable {b : Nat → UInt16} (out : Outside) {s : Shell} {st st' : Status}

/-- Behind a prompt the cursor stands at the position. -/
theorem Shell.Shows.prompt_atCursor (h : s.Shows b) : (s.prompt out).terminal.AtCursor := by
  have hP := shows_commandInv b
  have hfront : Shell.Shows b (((s.newline.writestring (s.usernameString out)).writestring
      (text "@")).writestring hostname) := by
    apply hP.writestring
    apply hP.writestring
    apply hP.writestring
    exact hP.newline h
  unfold Shell.prompt
  rw [Shell.writestring_terminal]
  exact (hfront.terminal.write (text " /> ")).2 (by decide)

theorem Shell.Shows.typed_atCursor (h : s.Shows b) (hc : s.terminal.AtCursor) (data : UInt8) :
    (s.typed data).terminal.AtCursor := by
  rw [Shell.typed]
  split
  · exact (h.terminal.putchar data).2
  · exact hc

theorem Shell.Shows.backspace_atCursor (h : s.Shows b) (hc : s.terminal.AtCursor) :
    (s.backspace out).terminal.AtCursor := by
  rw [Shell.backspace]
  split
  · have hx : s.terminal.column - 1 ≤ vgaWidth :=
      Nat.le_trans (Nat.sub_le _ _) h.terminal.column.le
    exact Terminal.updateCursor_toNat _ h.terminal.row hx
  · exact hc

theorem Shell.Shows.reset_atCursor (h : s.Shows b) : s.reset.terminal.AtCursor := by
  unfold Shell.reset Shell.draw terminalWritestring
  dsimp only
  have hcells : Terminal.OnScreen b (clearCells { s.terminal with
      color := vgaEntryColor (s.terminal.row * s.inputBufferIndex) s.inputBufferIndex }) :=
    .clear ⟨h.terminal.row, h.terminal.column, h.terminal.beyond⟩
  generalize clearCells { s.terminal with
      color := vgaEntryColor (s.terminal.row * s.inputBufferIndex) s.inputBufferIndex } = t
    at hcells ⊢
  have hmoved : Terminal.OnScreen b { t with row := 6, column := 6 } :=
    ⟨(by decide : 6 < vgaHeight), (by decide : 6 < vgaWidth), hcells.beyond⟩
  exact (hmoved.write (text "Select a color")).2 (by decide)

/-- In the loop of the shell the cursor stands at the position. -/
structure Status.Waits (b : Nat → UInt16) (st : Status) : Prop extends st.Has (Shell.Shows b) where
  cursor : ∀ s, st = .running s → s.terminal.AtCursor

theorem Status.Waits.running (h : s.Shows b) (hc : s.terminal.AtCursor) :
    (Status.running s).Waits b := by
  refine ⟨.running h, fun s' hs => ?_⟩
  cases hs
  exact hc

theorem Status.Waits.ite {p : Prop} [Decidable p] (h : st.Waits b) (h' : st'.Waits b) :
    (if p then st else st').Waits b := by
  split
  · exact h
  · exact h'

theorem Shell.Shows.enter (h : s.Shows b) : (s.enter out).Waits b := by
  have hP := shows_commandInv b
  have hcmd := hP.command out (fun _ _ => trivial) (fun _ => trivial) h
  unfold Shell.enter
  generalize s.command out = st at hcmd ⊢
  rcases st with s' | s' | s' | s'
  · refine .running (hP.restart (hP.prompt out hcmd.shell)) ?_
    rw [Shell.restart_terminal]
    exact Shell.Shows.prompt_atCursor out hcmd.shell
  · exact ⟨hcmd, fun _ hs => by cases hs⟩
  · exact ⟨hcmd, fun _ hs => by cases hs⟩
  · exact ⟨hcmd, fun _ hs => by cases hs⟩

/-- One key in the loop of the shell. -/
theorem Shell.Shows.handle_waits (h : s.Shows b) (hc : s.terminal.AtCursor) (scancode : UInt8) :
    (s.handleKeyboardInput out scancode).Waits b := by
  have hP := shows_commandInv b
  have hterm := hP.terminated h
  have hcterm : s.terminated.terminal.AtCursor := hc
  have hreset := hP.reset hterm
  unfold Shell.handleKeyboardInput
  refine .ite (.running h hc) (.ite ⟨.overrun h, fun _ hs => by cases hs⟩ ?_)
  refine .ite (.running (hterm.backspace out) (hterm.backspace_atCursor out hcterm)) ?_
  refine .ite (.running (hP.typed 0 hreset) (hreset.typed_atCursor hterm.reset_atCursor 0)) ?_
  exact .ite (hterm.enter out) (.running (hP.typed _ hterm) (hterm.typed_atCursor hcterm _))

theorem Status.Waits.step (h : st.Waits b) (scancode : UInt8) :
    (shellStep out st scancode).Waits b := by
  rcases st with s | s | s | s
  · unfold shellStep
    exact .ite h (h.shell.handle_waits out (h.cursor s rfl) scancode)
  · exact h
  · exact h
  · exact h

theorem Status.Waits.run (h : st.Waits b) (scancodes : List UInt8) :
    (deliver out st scancodes).Waits b := by
  induction scancodes generalizing st with
  | nil => exact h
  | cons scancode scancodes ih => exact ih (h.step out scancode)

end

/-! ### Any sequence of calls -/

/-- The functions of the terminal and the shell that the kernel calls. -/
inductive Call where
  | terminalInitialize
  | terminalPutchar (c : UInt8)
  | terminalWrite (data : List UInt8)
  | terminalWritestring (data : List UInt8)
  | terminalNewline
  | task (name : List UInt8) (state : Nat)
  | handleKeyboardInput (scancode : UInt8)

/-- What a call does to the shell. -/
def Call.run (out : Outside) (s : Shell) : Call → Status
  | .terminalInitialize => .running (s.draw PotatoOS.terminalInitialize)
  | .terminalPutchar c => .running (s.draw (PotatoOS.terminalPutchar · c))
  | .terminalWrite data => .running (s.draw (PotatoOS.terminalWrite · data))
  | .terminalWritestring data => .running (s.writestring data)
  | .terminalNewline => .running s.newline
  | .task name state => .running (s.task name state)
  | .handleKeyboardInput scancode => s.handleKeyboardInput out scancode

/-- One call; a machine that is not running does not come to it. -/
def callStep (out : Outside) (st : Status) (call : Call) : Status :=
  match st with
  | .running s => call.run out s
  | st => st

/-- A sequence of calls. -/
def runCalls (out : Outside) (st : Status) (calls : List Call) : Status :=
  calls.foldl (callStep out) st

section

variable {b : Nat → UInt16} (out : Outside) {s : Shell} {st : Status}

theorem Shell.Shows.call (h : s.Shows b) (call : Call) : (call.run out s).Has (Shell.Shows b) := by
  have hP := shows_commandInv b
  cases call with
  | terminalInitialize => exact .running (hP.cleared h)
  | terminalPutchar c => exact .running (hP.putchar c h)
  | terminalWrite data => exact .running (hP.writestring data h)
  | terminalWritestring data => exact .running (hP.writestring data h)
  | terminalNewline => exact .running (hP.newline h)
  | task name state => exact .running (hP.task name state h)
  | handleKeyboardInput scancode =>
      -- the cursor may stand elsewhere here
      exact hP.handle out (fun _ _ => trivial) ((hP.terminated h).backspace out)
        (fun _ _ _ => trivial) h

theorem Status.Has.callStep (h : st.Has (Shell.Shows b)) (call : Call) :
    (callStep out st call).Has (Shell.Shows b) := by
  rcases st with s | s | s | s
  · exact h.shell.call out call
  · exact h
  · exact h
  · exact h

theorem Status.Has.runCalls (h : st.Has (Shell.Shows b)) (calls : List Call) :
    (runCalls out st calls).Has (Shell.Shows b) := by
  induction calls generalizing st with
  | nil => exact h
  | cons call calls ih => exact ih (h.callStep out call)

/-- From the first cell on, after any sequence of calls the position is on the
screen and no store has gone behind it.  So it is in the shell, and whenever
the shell waits for a key the cursor stands at the position. -/
theorem terminal_position (hrow : s.terminal.row = 0) (hcol : s.terminal.column = 0)
    (calls : List Call) :
    (runCalls out (.running s) calls).shell.terminal.OnScreen s.terminal.buffer ∧
      ∀ s₁, runCalls out (.running s) calls = .running s₁ → ∀ scancodes,
        (deliver out (.running (s₁.start out)) scancodes).shell.terminal.OnScreen
            s.terminal.buffer ∧
          ∀ s₂, deliver out (.running (s₁.start out)) scancodes = .running s₂ →
            s₂.terminal.AtCursor := by
  have hfirst : s.Shows s.terminal.buffer := by
    refine ⟨?_, ?_, fun _ _ => rfl⟩
    · rw [hrow]
      decide
    · rw [hcol]
      decide
  have hcalls : (runCalls out (.running s) calls).Has (Shell.Shows s.terminal.buffer) :=
    Status.Has.runCalls out (.running hfirst) calls
  refine ⟨hcalls.shell.terminal, fun s₁ hs₁ scancodes => ?_⟩
  rw [hs₁] at hcalls
  have hP := shows_commandInv s.terminal.buffer
  have htask := hP.task (text "Entering recovery shell...") 1 hcalls.shell
  have hwaits : (Status.running (s₁.start out)).Waits s.terminal.buffer := by
    unfold Shell.start
    exact .running (hP.prompt out htask) (htask.prompt_atCursor out)
  have hrun := hwaits.run out scancodes
  exact ⟨hrun.shell.terminal, hrun.cursor⟩

end

/-- The machine before anything was written. -/
def firstShell : Shell := { bootShell with terminal := ⟨0, 0, 0, fun _ => 0, 0⟩ }

/-- The sample keys, in the shell that is started at once. -/
theorem terminal_position_sampleKeys :
    (deliver emptyOutside (.running (firstShell.start emptyOutside))
        sampleKeys).shell.terminal.OnScreen (fun _ => 0) ∧
      ∀ s₂, deliver emptyOutside (.running (firstShell.start emptyOutside)) sampleKeys
          = .running s₂ →
        s₂.terminal.AtCursor :=
  (terminal_position emptyOutside (s := firstShell) rfl rfl []).2 firstShell rfl sampleKeys

end PotatoOS
