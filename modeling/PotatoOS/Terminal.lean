/-
PotatoOS/Terminal.lean

The text terminal of `tty.c`, and the `printf` that writes to it.

A terminal is the video memory, one word for each cell, with the position at
which the next character goes, the colour and the hardware cursor.  The busy
loops that `waitwrite` asks for only take time, so they are left out.  A C
string is the list of its bytes in front of the 0.

A variadic argument is given by what `printf` can make of it: a character, or
the string at the address.  An argument that the caller has not passed is
whatever the stack holds there, so the arguments are a function on all numbers.
Main result: `terminalWrite_column`, how far a text moves along the row.
-/
import PotatoOS.Bytes

namespace PotatoOS

/-! ### Characters and colours -/

/-- The bytes of a string literal. -/
def text (s : String) : List UInt8 := s.toList.map fun c => c.toNat.toUInt8

/-- `VGA_WIDTH`. -/
def vgaWidth : Nat := 80

/-- `VGA_HEIGHT`. -/
def vgaHeight : Nat := 25

/-- `VGA_COLOR_BLACK`. -/
def vgaColorBlack : Nat := 0

/-- `VGA_COLOR_LIGHT_GREEN`. -/
def vgaColorLightGreen : Nat := 10

/-- `VGA_COLOR_LIGHT_RED`. -/
def vgaColorLightRed : Nat := 12

/-- `VGA_COLOR_WHITE`. -/
def vgaColorWhite : Nat := 15

/-- The colour byte; callers pass other numbers than those of `vga_color`. -/
def vgaEntryColor (fg bg : Nat) : UInt8 := UInt8.ofNat (fg ||| (bg <<< 4))

/-- `vga_entry`: a character with its colours. -/
def vgaEntry (c color : UInt8) : UInt16 := c.toUInt16 ||| (color.toUInt16 <<< 8)

/-! ### The terminal -/

/-- The position of the next character, the colour, the cells of the screen and the cursor that
the video card shows. -/
structure Terminal where
  row : Nat
  column : Nat
  color : UInt8
  buffer : Nat → UInt16
  cursor : UInt16

/-- `update_cursor`: the position is cut to the 16 bits of the two registers. -/
def updateCursor (t : Terminal) (x y : Nat) : Terminal :=
  { t with cursor := UInt16.ofNat (y * vgaWidth + x) }

/-- Blank all cells, in the current colour. -/
def clearCells (t : Terminal) : Terminal :=
  { t with buffer := fun i =>
      if i < vgaHeight * vgaWidth then vgaEntry 0x20 t.color else t.buffer i }

/-- The column stays.  A first pass in the old colour is overwritten by the
second one. -/
def terminalInitialize (t : Terminal) : Terminal :=
  clearCells { t with row := 1, color := vgaEntryColor vgaColorWhite vgaColorBlack }

/-- `terminal_scroll`: the screen is cleared. -/
def terminalScroll (t : Terminal) : Terminal := terminalInitialize t

/-- `terminal_putentryat`: a cell, and the cursor behind it. -/
def terminalPutentryat (t : Terminal) (c color : UInt8) (x y : Nat) : Terminal :=
  updateCursor { t with buffer := Function.update t.buffer (y * vgaWidth + x) (vgaEntry c color) }
    (x + 1) y

/-- `terminal_putchar`: in the last row the screen is cleared first, and the column is kept. -/
def terminalPutchar (t : Terminal) (c : UInt8) : Terminal :=
  let t := if t.row = vgaHeight - 1 then terminalScroll t else t
  let t := terminalPutentryat t c t.color t.column t.row
  if t.column + 1 = vgaWidth then
    { t with column := 0, row := if t.row + 1 = vgaHeight then 0 else t.row + 1 }
  else { t with column := t.column + 1 }

/-- `terminal_write`. -/
def terminalWrite (t : Terminal) (data : List UInt8) : Terminal := data.foldl terminalPutchar t

/-- `terminal_writestring`. -/
def terminalWritestring (t : Terminal) (data : List UInt8) : Terminal := terminalWrite t data

/-- `terminal_newline`: behind the last row the screen is cleared. -/
def terminalNewline (t : Terminal) : Terminal :=
  if t.row + 1 = vgaHeight then { clearCells t with row := 0, column := 0 }
  else { t with row := t.row + 1, column := 0 }

section

variable (t : Terminal) (c color : UInt8) (x y : Nat)

@[simp] theorem terminalNewline_column : (terminalNewline t).column = 0 := by
  rw [terminalNewline]
  split <;> rfl

/-- A character moves one column on, or to the start of the next row. -/
theorem terminalPutchar_column :
    (terminalPutchar t c).column = if t.column + 1 = vgaWidth then 0 else t.column + 1 := by
  have hscroll : (if t.row = vgaHeight - 1 then terminalScroll t else t).column = t.column := by
    split <;> rfl
  rw [terminalPutchar]
  generalize (if t.row = vgaHeight - 1 then terminalScroll t else t) = t' at hscroll ⊢
  rw [← hscroll]
  show (if t'.column + 1 = vgaWidth then _ else _ : Terminal).column = _
  split <;> rfl

theorem terminalPutchar_column_le : (terminalPutchar t c).column ≤ t.column + 1 := by
  rw [terminalPutchar_column]
  split
  · exact Nat.zero_le _
  · exact Nat.le_refl _

theorem terminalPutchar_column_lt (h : t.column < vgaWidth) :
    (terminalPutchar t c).column < vgaWidth := by
  rw [terminalPutchar_column]
  split
  · decide
  next hwrap => exact Nat.lt_of_le_of_ne h hwrap

theorem terminalWrite_append (data data' : List UInt8) :
    terminalWrite t (data ++ data') = terminalWrite (terminalWrite t data) data' :=
  List.foldl_append

/-- A text moves its length on, around the row. -/
theorem terminalWrite_column (data : List UInt8) (h : t.column < vgaWidth) :
    (terminalWrite t data).column = (t.column + data.length) % vgaWidth := by
  induction data generalizing t with
  | nil => exact (Nat.mod_eq_of_lt h).symm
  | cons c data ih =>
      refine (ih (terminalPutchar t c) (terminalPutchar_column_lt t c h)).trans ?_
      rw [terminalPutchar_column, List.length_cons]
      rw [vgaWidth] at h ⊢
      split <;> omega

end

/-! ### Formatted output -/

/-- A variadic argument, as a character and as the string at an address. -/
structure Vararg where
  char : UInt8
  string : List UInt8

/-- The loop of `printf`: `i` arguments have been read and `written` characters
have been written. -/
def printfLoop (args : Nat → Vararg) (format : List UInt8) (i written : Nat) (t : Terminal) :
    Int × Terminal :=
  match format with
  | [] => (written, t)
  | c :: rest =>
      let maxrem := 2 ^ 31 - 1 - written
      if c ≠ 0x25 ∨ rest.head? = some 0x25 then
        -- of two percent signs the first is skipped
        let format := if c = 0x25 then rest else c :: rest
        let amount := ((format.drop 1).takeWhile (· ≠ 0x25)).length + 1
        if maxrem < amount then (-1, t)
        else printfLoop args (format.drop amount) i (written + amount)
          (terminalWrite t (format.take amount))
      else match rest with
        | 0x63 :: rest =>
            if maxrem = 0 then (-1, t)
            else printfLoop args rest (i + 1) (written + 1) (terminalWrite t [(args i).char])
        | 0x6E :: rest => printfLoop args rest i (written + 1) (terminalNewline t)
        | 0x73 :: rest =>
            if maxrem < (args i).string.length then (-1, t)
            else printfLoop args rest (i + 1) (written + (args i).string.length)
              (terminalWrite t (args i).string)
        | rest =>
            -- an unknown conversion ends the interpretation
            if maxrem < rest.length + 1 then (-1, t)
            else (written + (rest.length + 1 : Nat), terminalWrite t (0x25 :: rest))
termination_by format.length
decreasing_by
  · simp_wf
    split
    · omega
    · simp
  all_goals simp_wf

/-- `printf`, as far as the terminal goes. -/
def printf (args : Nat → Vararg) (format : List UInt8) (t : Terminal) : Terminal :=
  (printfLoop args format 0 0 t).2

/-- What characters and newlines respect, formatted output respects. -/
theorem printf_preserves {Q : Terminal → Prop} (hchar : ∀ t c, Q t → Q (terminalPutchar t c))
    (hline : ∀ t, Q t → Q (terminalNewline t)) (args : Nat → Vararg) (format : List UInt8)
    {t : Terminal} (h : Q t) : Q (printf args format t) := by
  have hwrite : ∀ data t, Q t → Q (terminalWrite t data) := by
    intro data
    induction data with
    | nil => exact fun t h => h
    | cons c data ih => exact fun t h => ih _ (hchar t c h)
  have hloop : ∀ i written, Q (printfLoop args format i written t).2 := by
    intro i written
    fun_induction printfLoop args format i written t with
    | case1 => exact h
    | case2 => exact h
    | case3 _ _ _ _ _ _ _ _ _ _ ih => exact ih (hwrite _ _ h)
    | case4 => exact h
    | case5 _ _ _ _ _ _ _ _ ih => exact ih (hwrite _ _ h)
    | case6 _ _ _ _ _ _ ih => exact ih (hline _ h)
    | case7 => exact h
    | case8 _ _ _ _ _ _ _ _ ih => exact ih (hwrite _ _ h)
    | case9 => exact h
    | case10 => exact hwrite _ _ h
  exact hloop 0 0

end PotatoOS
