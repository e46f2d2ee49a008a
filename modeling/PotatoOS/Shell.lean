/-
PotatoOS/Shell.lean

The shell of `tty.c`: one key after the other is read, edited into a line of
256 bytes and, at a newline, run as a command.

Nothing compares the backspace key with the length of the line.  It is
accepted while the screen column is behind the prompt, whose length is taken
from the user name and the host name; so the index of the line is safe only as
long as column and index agree.  They do not after the key 'U', which puts the
column to a fixed place, nor after the command "un", which makes the user name
a part of the line itself.

The kernel also reads through pointers that point to nothing: the user name
may become a null pointer, the event log holds small numbers as strings, and a
command line is used as a format.  What is found there is up to the machine
(`Outside`), and all results hold whatever it is.  Main result:
`bounded_of_clean`.
-/
import PotatoOS.Terminal
import PotatoOS.Path

namespace PotatoOS

/-! ### The keyboard -/

/-- The characters by scancode. -/
def keyboardLayout : List UInt8 :=
  [0, 0] ++ text "1234567890-=" ++ [0x08, 0x09] ++ text "qwertyuiop[]" ++ [0x0A, 0] ++
    text "asdfghjkl;'`" ++ [0] ++ text "\\zxcvbnm,./ " ++ text "!@ $%^&*()~" ++
    text "QWERTYUIOPASDFGHJKLZXCVBNM<>/|"

/-- The character of a scancode; releases and keys without one give 0. -/
def readKeyboard (data : UInt8) : UInt8 :=
  if data &&& 0x80 ≠ 0 then 0 else keyboardLayout.getD data.toNat 0

/-! ### The state -/

/-- What the machine holds outside the objects of the kernel: the string at an
address, and the words on the stack behind the arguments of a call. -/
structure Outside where
  stringAt : Nat → List UInt8
  stack : Nat → Vararg

/-- Where the pointer `username` points to. -/
inductive Username where
  | literal
  | inputBuffer (offset : Nat)
  | null
  deriving DecidableEq, Repr

/-- An entry of the event log: a string, or a number used as an address. -/
inductive Event where
  | name (data : List UInt8)
  | state (n : Nat)
  deriving DecidableEq, Repr

/-- A call of `printf`: the format, the number of arguments that were passed,
and what the call finds where it looks for arguments. -/
structure PrintfCall where
  format : List UInt8
  given : Nat
  args : Nat → Vararg

/-- The machine of the shell.  The calls of `printf` that were made are
recorded, the last one first. -/
structure Shell where
  terminal : Terminal
  inputBuffer : Mem
  inputBufferIndex : Nat
  username : Username
  eventlog : List Event
  fsinit : Bool
  waitwrite : Bool
  exitHKIloop : Bool
  paniccolor : Nat := 8
  calls : List PrintfCall := []

/-- `INPUT_BUFFER_SIZE`. -/
def inputBufferSize : Nat := 256

/-- `MAX_EVENTS`. -/
def maxEvents : Nat := 10000

/-- `osname`. -/
def osname : List UInt8 := text "PotatoOS"

/-- `hostname`. -/
def hostname : List UInt8 := text "live"

/-- `version`. -/
def version : List UInt8 := text "0"

/-- `subversion`. -/
def subversion : List UInt8 := text "2.5.2"

/-- `fakeroot`: the directories that "ls" lists. -/
def fakeroot : List (List UInt8) :=
  [text "/usr", text "/root", text "/var", text "/sys", text "/boot", text "/dev",
    text "/dev/console", text "/dev/random", text "/dev/stdout", text "/dev/stdin",
    text "/dev/stderr"]

namespace Shell

variable (out : Outside) (s : Shell)

/-- Apply an operation of the terminal. -/
def draw (f : Terminal → Terminal) : Shell := { s with terminal := f s.terminal }

/-- The string at an offset of the input buffer. -/
def inputString (offset : Nat) : List UInt8 :=
  ((List.range (inputBufferSize - offset)).map fun i => s.inputBuffer (offset + i)).takeWhile
    (· ≠ 0)

/-- What the pointer to the user name points to. -/
def usernameString : List UInt8 :=
  match s.username with
  | .literal => text "potato"
  | .inputBuffer offset => s.inputString offset
  | .null => out.stringAt 0

/-- What an entry of the event log points to; a state is a number taken for an address. -/
def eventString : Event → List UInt8
  | .name data => data
  | .state n => out.stringAt n

/-- `terminal_newline`. -/
def newline : Shell := s.draw terminalNewline

/-- `terminal_writestring`. -/
def writestring (data : List UInt8) : Shell := s.draw (terminalWritestring · data)

/-- `printf`; the call is kept with the number of arguments that it is given. -/
def print (given : Nat) (args : Nat → Vararg) (format : List UInt8) : Shell :=
  { s.draw (printf args format) with calls := ⟨format, given, args⟩ :: s.calls }

/-- Print one text after the other, without arguments. -/
def printAll (formats : List (List UInt8)) : Shell := formats.foldl (·.print 0 out.stack ·) s

/-- The arguments of a call that passes one string. -/
def oneString (data : List UInt8) : Nat → Vararg
  | 0 => ⟨0, data⟩
  | i + 1 => out.stack i

/-- `addevent`: a full log takes no more events. -/
def addevent (e : Event) : Shell :=
  if s.eventlog.length < maxEvents then { s with eventlog := s.eventlog ++ [e] } else s

/-- Write in another colour, then in white. -/
def writeIn (color : Nat) (data : List UInt8) : Shell :=
  ((s.draw ({ · with color := vgaEntryColor color vgaColorBlack })).writestring data).draw
    ({ · with color := vgaEntryColor vgaColorWhite vgaColorBlack })

/-- `task`: log the state and the name, and show both on a new line. -/
def task (name : List UInt8) (state : Nat) : Shell :=
  let s := (s.newline.addevent (.state state)).addevent (.name name)
  if state = 0 then (s.writestring (text "[      ] ")).writestring name
  else if state = 1 then
    (((s.writestring (text "[  ")).writeIn vgaColorLightGreen (text "OK")).writestring
      (text "  ] ")).writestring name
  else if state = 2 then
    (((s.writestring (text "[ ")).writeIn vgaColorLightRed (text "FAIL")).writestring
      (text " ] ")).writestring name
  else s

/-- The prompt, on a line of its own. -/
def prompt : Shell :=
  (((s.newline.writestring (s.usernameString out)).writestring (text "@")).writestring
    hostname).writestring (text " /> ")

end Shell

/-! ### Tokens -/

/-- The first position from `p` on whose byte does not pass; `n` bounds the
string. -/
def skipWhile (m : Mem) (pass : UInt8 → Bool) : Nat → Nat → Nat
  | 0, p => p
  | n + 1, p => if pass (m p) then skipWhile m pass n (p + 1) else p

/-- `strtok` on a string that starts at `str` and ends before `size`: the
position of the token, and the memory with a 0 behind it.  The static pointer
to the rest is left out, since the shell never asks for a second token. -/
def strtok (m : Mem) (size str : Nat) (delim : List UInt8) : Option Nat × Mem :=
  let token := skipWhile m (fun b => b ≠ 0 && b ∈ delim) (size - str) str
  if m token = 0 then (none, m)
  else
    let stop := skipWhile m (fun b => b ≠ 0 && b ∉ delim) (size - token) token
    (some token, if m stop ≠ 0 then Function.update m stop 0 else m)

/-! ### The commands -/

/-- Where the handling of a key leaves the machine: in the loop of the shell,
halted, in the endless loop of the command "color", or behind a store outside
the input buffer. -/
inductive Status where
  | running (s : Shell)
  | halted (s : Shell)
  | looping (s : Shell)
  | overrun (s : Shell)

/-- The state that the machine is in. -/
def Status.shell : Status → Shell
  | .running s => s
  | .halted s => s
  | .looping s => s
  | .overrun s => s

namespace Shell

variable (out : Outside) (s : Shell)

/-- The processor is halted if the reset does not come. -/
def reboot : Shell :=
  ((s.task (text "Reboot computer...") 0).task (text "Reboot computer...") 2).task
    (text "Sending hlt...") 0

/-- Go on in the next row, in column 6. -/
def indented : Shell := s.newline.draw ({ · with column := 6 })

/-- The screen that `panic` clears for its texts. -/
def panicScreen : Shell :=
  { (s.writestring (text "PANIC!!!")).draw fun t =>
      { clearCells { t with color := vgaEntryColor vgaColorWhite s.paniccolor } with row := 6 } with
    inputBufferIndex := 0
    waitwrite := true }

/-- The texts of the error screen. -/
def panicTexts (msg : List UInt8) : Shell :=
  let s := s.indented.writestring (text "An error occurred and the system has been shutdown.")
  let s := s.indented.writestring
    (text "Contact me at ospotato3@gmail.com with the error message below.")
  let s := s.indented.writestring
    (text "Github: https://github.com/winvistalover/PotatoOS/tree/nightly")
  let s := (s.newline.indented.writestring (text "Panic: ")).writestring msg
  let s := (((((s.indented.writestring (text "Kernel: ")).writestring osname).writestring
    (text " ")).writestring version).writestring (text ".")).writestring subversion
  s.newline.newline.indented.writestring (text "The system will automatically reboot")

/-- The bar that fills while `panic` waits. -/
def panicTimeout : Shell :=
  let s := (s.newline.draw ({ · with row := vgaHeight - 3, column := 0 })).writestring
    (text "Timeout:")
  let s := s.draw ({ · with
    column := 0, row := vgaHeight - 2, color := vgaEntryColor vgaColorWhite vgaColorWhite })
  (List.replicate vgaWidth (text "#")).foldl (·.writestring ·) s

/-- `panic`: the error screen, the count-down and the restart. -/
def panic (msg : List UInt8) : Shell := ((s.panicScreen.panicTexts msg).panicTimeout).reboot

/-- None of the ports turns the machine off, or it does not come to the panic. -/
def shutdown : Shell :=
  let s := (s.task (text "Attempting to shutdown computer...") 0).task
    (text "Shutdown computer using old QEMU...") 0
  let s := (s.task (text "Shutdown computer using new QEMU...") 0).task
    (text "Shutdown computer using Virtualbox...") 0
  ((s.task (text "Shutdown computer...") 2).task (text "Sending panic...") 0).panic
    (text "Failed to shutdown computer. It is now safe to turn off your computer.")

/-- "ls": the made-up directories, or a panic without a file system. -/
def ls : Status :=
  if s.fsinit then
    .running (fakeroot.foldl (fun s dir => s.print 1 (oneString out dir) (text "%s ")) s.newline)
  else .halted (s.newline.panic (text "FS NOT INIT!"))

/-- "le": the event log. -/
def le : Shell :=
  s.eventlog.foldl (fun s e => s.print 1 (oneString out (eventString out e)) (text "%s | "))
    (s.print 0 out.stack (text "%n"))

/-- "echo": the rest of the line up to the next blank. -/
def echo : Shell :=
  let content := strtok s.inputBuffer inputBufferSize 5 (text " ")
  let s := { s with inputBuffer := content.2 }
  s.newline.writestring (match content.1 with
    | some p => s.inputString p
    | none => out.stringAt 0)

/-- "ppm". -/
def ppm : Shell :=
  ((s.newline.writestring (text "PotatoOS Package Manager")).newline.writestring
    (text "Usage ppm [install][remove][update] [package name]")).newline.writestring
    (text "This is a placeholder.")

/-- The lines of "help". -/
def helpLines : List (List UInt8) :=
  [text "fatinit         - Initialize the FAT.",
    text "shutdown        - Shut down the computer.",
    text "color           - Show the color test screen.",
    text "ls              - List all the contents of the currently open directory.",
    text "echo            - Output text onto the terminal.",
    text "cat             - View the contents of a file.",
    text ("waitwrite       - Wait a duration of time before outputting a character onto the " ++
      "terminal, an example of this is in the kernel panic screen."),
    text "ld              - Link object files and libraries."]

/-- "help". -/
def help : Shell :=
  let s := (s.newline.printAll out [text "PotatoOS ", version, text ".", subversion]).newline
  helpLines.foldl (·.newline.print 0 out.stack ·) s

/-- `mainfat` always fails. -/
def fatinit : Shell :=
  let s := s.newline.writestring (text "[      ] Attempting to initialize FAT...")
  { s.task (text "No FAT FS support yet.") 2 with fsinit := false }

/-- The buffer counts as an array of pointers here, so the token is looked for
from byte 8 on. -/
def un : Shell :=
  let content := strtok s.inputBuffer inputBufferSize 8 (text " ")
  let s := { s with
    inputBuffer := content.2
    username := match content.1 with
      | some p => .inputBuffer p
      | none => .null }
  (s.newline.writestring (text "Username is now: ")).writestring (s.usernameString out)

/-- The line itself is the format. -/
def unknown : Shell :=
  if s.inputBufferIndex ≠ 0 then
    s.newline.printAll out
      [text "'", s.inputString 0, text "'", text " unknown command or file name."]
  else s

/-- The line starts with the given characters. -/
def starts (data : List UInt8) (n : Nat) : Prop := strncmp s.inputBuffer (textOf data) n = 0

instance (data : List UInt8) (n : Nat) : Decidable (s.starts data n) :=
  inferInstanceAs (Decidable (_ = _))

/-- The command that the line asks for. -/
def command : Status :=
  let line := s.inputString 0
  if line = text "ls" then s.ls out
  else if line = text "le" then .running (s.le out)
  else if s.starts (text "echo ") 5 then .running (s.echo out)
  else if line = text "m" then
    .running (s.draw fun t => terminalInitialize (terminalInitialize t))
  else if line = text "ppm" then .running s.ppm
  else if line = text "help" then .running (s.help out)
  else if line = text "clear" then .running (s.draw terminalInitialize)
  else if line = text "exit" then .running { s with exitHKIloop := true }
  else if line = text "panic" then .running { s with fsinit := false }
  else if line = text "reboot" then .halted s.reboot
  else if line = text "g" then .running s
  else if line = text "fatinit" then .running s.fatinit
  else if line = text "waitwrite" then .running { s with waitwrite := true }
  else if line = text "shutdown" then .halted s.shutdown
  else if s.starts (text "un ") 2 then .running (s.un out)
  else if line = text "color" then .looping s
  else .running (s.unknown out)

/-! ### One key -/

/-- The key 'U': clear the screen in a new colour and ask for one. -/
def reset : Shell :=
  s.draw fun t =>
    let t := clearCells
      { t with color := vgaEntryColor (t.row * s.inputBufferIndex) s.inputBufferIndex }
    terminalWritestring { t with row := 6, column := 6 } (text "Select a color")

/-- A character goes to the line while there is room. -/
def typed (data : UInt8) : Shell :=
  if s.inputBufferIndex < inputBufferSize - 1 then
    { s with
      inputBuffer := Function.update s.inputBuffer s.inputBufferIndex data
      inputBufferIndex := s.inputBufferIndex + 1
      terminal := terminalPutchar s.terminal data }
  else s

/-- The backspace key; the index is an unsigned number of 32 bits. -/
def backspace : Shell :=
  if s.terminal.column > (s.usernameString out).length + hostname.length + 5 then
    let column := s.terminal.column - 1
    { s with
      inputBufferIndex := (s.inputBufferIndex + (2 ^ 32 - 1)) % 2 ^ 32
      terminal := updateCursor (terminalPutentryat { s.terminal with column := column } 0x20
        s.terminal.color column s.terminal.row) column s.terminal.row }
  else s

/-- The line ends at the index. -/
def terminated : Shell :=
  { s with inputBuffer := Function.update s.inputBuffer s.inputBufferIndex 0 }

/-- The index goes back to the start of the line. -/
def restart : Shell := { s with inputBufferIndex := 0 }

/-- The newline key: run the command and start a new line. -/
def enter : Status :=
  match s.command out with
  | .running s => .running (s.prompt out).restart
  | st => st

/-- `handle_keyboard_input`: a key with a character first ends the line at the index, which is a
store outside of the buffer when the line is full; then the key is handled. -/
def handleKeyboardInput (scancode : UInt8) : Status :=
  let data := readKeyboard scancode
  if data = 0 then .running s
  else if inputBufferSize ≤ s.inputBufferIndex then .overrun s
  else if data = 0x08 then .running (s.terminated.backspace out)
  else if data = 0x55 then .running (s.terminated.reset.typed 0)
  else if data = 0x0A then s.terminated.enter out
  else .running (s.terminated.typed data)

/-- What `shell` prints before its loop. -/
def start : Shell := (s.task (text "Entering recovery shell...") 1).prompt out

end Shell

/-- One round of the loop of `shell`; after "exit" no key is read. -/
def shellStep (out : Outside) (st : Status) (scancode : UInt8) : Status :=
  match st with
  | .running s => if s.exitHKIloop then .running s else s.handleKeyboardInput out scancode
  | st => st

/-- The newline key in the loop of the shell. -/
theorem shellStep_newline (out : Outside) {s : Shell} {scancode : UInt8}
    (hloop : s.exitHKIloop = false) (hkey : readKeyboard scancode = 0x0A)
    (hroom : s.inputBufferIndex < inputBufferSize) :
    shellStep out (.running s) scancode = s.terminated.enter out := by
  rw [shellStep, hloop, if_neg (by decide), Shell.handleKeyboardInput, hkey,
    if_neg (by decide), if_neg (Nat.not_le.mpr hroom), if_neg (by decide), if_neg (by decide),
    if_pos rfl]

/-- Deliver a sequence of scancodes. -/
def deliver (out : Outside) (st : Status) (scancodes : List UInt8) : Status :=
  scancodes.foldl (shellStep out) st

/-! ### What output respects -/

/-- Wherever the machine is, it has the property. -/
structure Status.Has (P : Shell → Prop) (st : Status) : Prop where
  shell : P st.shell

namespace Status.Has

variable {P : Shell → Prop} {s : Shell} {st st' : Status}

theorem running (h : P s) : (Status.running s).Has P := ⟨h⟩

theorem halted (h : P s) : (Status.halted s).Has P := ⟨h⟩

theorem looping (h : P s) : (Status.looping s).Has P := ⟨h⟩

theorem overrun (h : P s) : (Status.overrun s).Has P := ⟨h⟩

theorem ite {p : Prop} [Decidable p] (h : p → st.Has P) (h' : ¬ p → st'.Has P) :
    (if p then st else st').Has P := by
  split
  · exact h (by assumption)
  · exact h' (by assumption)

end Status.Has

namespace Shell

/-- A property of the machine that output respects: the terminal is written to
and the event log grows. -/
structure OutputInv (P : Shell → Prop) : Prop where
  putchar : ∀ {s : Shell} c, P s → P (s.draw (terminalPutchar · c))
  newline : ∀ {s : Shell}, P s → P s.newline
  clear : ∀ {s : Shell}, P s → P (s.draw clearCells)
  color : ∀ {s : Shell} c, P s → P (s.draw ({ · with color := c }))
  row : ∀ {s : Shell} {y}, y < vgaHeight → P s → P (s.draw ({ · with row := y }))
  column : ∀ {s : Shell} {x}, x < vgaWidth → P s → P (s.draw ({ · with column := x }))
  addevent : ∀ {s : Shell} e, P s → P (s.addevent e)

/-- It also respects the calls of `printf` that are all right. -/
structure PrintInv (ok : PrintfCall → Prop) (P : Shell → Prop) : Prop extends OutputInv P where
  record : ∀ {s : Shell} {call : PrintfCall}, ok call → P s → P { s with calls := call :: s.calls }

/-- It depends on the terminal and these calls only. -/
structure CommandInv (ok : PrintfCall → Prop) (P : Shell → Prop) : Prop extends PrintInv ok P where
  other : ∀ {s s' : Shell}, P s → s'.terminal = s.terminal → s'.calls = s.calls → P s'

/-- The texts that the shell prints, and its formats for a string. -/
def ownTexts : List (List UInt8) :=
  [text "%n", text "PotatoOS ", version, text ".", subversion, text "'",
    text " unknown command or file name."] ++ helpLines

/-- The formats of the shell that read an argument. -/
def ownFormats : List (List UInt8) := [text "%s ", text "%s | "]

/-- A call of `printf` with one of these. -/
inductive OwnCall (out : Outside) : PrintfCall → Prop
  | text {format : List UInt8} (h : format ∈ ownTexts) : OwnCall out ⟨format, 0, out.stack⟩
  | string {format : List UInt8} (h : format ∈ ownFormats) (data : List UInt8) :
      OwnCall out ⟨format, 1, oneString out data⟩

/-- The call that repeats the line. -/
def echoCall (out : Outside) (s : Shell) : PrintfCall := ⟨s.inputString 0, 0, out.stack⟩

/-- The commands that are compared with the whole line. -/
def commandNames : List (List UInt8) :=
  [text "ls", text "le", text "m", text "ppm", text "help", text "clear", text "exit",
    text "panic", text "reboot", text "g", text "fatinit", text "waitwrite", text "shutdown",
    text "color"]

/-- The line is not empty, and it is no command. -/
structure IsUnknown (s : Shell) : Prop where
  line : s.inputString 0 ∉ commandNames
  echo : ¬ s.starts (text "echo ") 5
  un : ¬ s.starts (text "un ") 2
  typed : s.inputBufferIndex ≠ 0

theorem mem_ownTexts {format : List UInt8} (h : format ∈ helpLines) : format ∈ ownTexts :=
  List.mem_append_right _ h

section

variable {ok : PrintfCall → Prop} {P : Shell → Prop} {s : Shell}

namespace OutputInv

variable (hP : OutputInv P)

include hP

theorem writestring (data : List UInt8) (h : P s) : P (s.writestring data) := by
  have hwrite : ∀ t, P { s with terminal := t } →
      P { s with terminal := terminalWrite t data } := by
    induction data with
    | nil => exact fun t h => h
    | cons c data ih => exact fun t h => ih _ (hP.putchar c h)
  exact hwrite s.terminal h

theorem cleared (h : P s) : P (s.draw terminalInitialize) :=
  hP.clear (hP.color _ (hP.row (by decide) h))

theorem move {x y : Nat} (hy : y < vgaHeight) (hx : x < vgaWidth) (h : P s) :
    P (s.draw ({ · with row := y, column := x })) := hP.column hx (hP.row hy h)

theorem place {x y : Nat} (c : UInt8) (hy : y < vgaHeight) (hx : x < vgaWidth) (h : P s) :
    P (s.draw ({ · with column := x, row := y, color := c })) := hP.color c (hP.move hy hx h)

theorem writeIn (color : Nat) (data : List UInt8) (h : P s) : P (s.writeIn color data) :=
  hP.color _ (hP.writestring data (hP.color _ h))

theorem task (name : List UInt8) (state : Nat) (h : P s) : P (s.task name state) := by
  unfold Shell.task
  have hevents := hP.addevent (.name name) (hP.addevent (.state state) (hP.newline h))
  generalize (s.newline.addevent (.state state)).addevent (.name name) = s₁ at hevents
  split
  · exact hP.writestring _ (hP.writestring _ hevents)
  split
  · exact hP.writestring _ (hP.writestring _ (hP.writeIn _ _ (hP.writestring _ hevents)))
  split
  · exact hP.writestring _ (hP.writestring _ (hP.writeIn _ _ (hP.writestring _ hevents)))
  · exact hevents

theorem prompt (out : Outside) (h : P s) : P (s.prompt out) := by
  unfold Shell.prompt
  apply hP.writestring
  apply hP.writestring
  apply hP.writestring
  apply hP.writestring
  exact hP.newline h

theorem reboot (h : P s) : P s.reboot := hP.task _ 0 (hP.task _ 2 (hP.task _ 0 h))

theorem indented (h : P s) : P s.indented := hP.column (by decide) (hP.newline h)

theorem panicTexts (msg : List UInt8) (h : P s) : P (s.panicTexts msg) := by
  have hline : ∀ {s} data, P s → P (s.indented.writestring data) :=
    fun data h => hP.writestring data (hP.indented h)
  unfold Shell.panicTexts
  dsimp only
  -- the last line, the two empty ones and the line of the kernel
  apply hline
  apply hP.newline
  apply hP.newline
  apply hP.writestring
  apply hP.writestring
  apply hP.writestring
  apply hP.writestring
  apply hP.writestring
  apply hline
  -- the message, and what stands above it
  apply hP.writestring
  apply hline
  apply hP.newline
  apply hline
  apply hline
  apply hline
  exact h

theorem panicTimeout (h : P s) : P s.panicTimeout := by
  unfold Shell.panicTimeout
  dsimp only
  refine List.foldlRecOn _ _ ?_ fun s hs _ _ => hP.writestring _ hs
  have htitle : P ((s.newline.draw ({ · with row := vgaHeight - 3, column := 0 })).writestring
      (text "Timeout:")) := by
    apply hP.writestring
    exact hP.move (by decide) (by decide) (hP.newline h)
  exact hP.place _ (by decide) (by decide) htitle

/-- The key 'U'. -/
theorem reset (h : P s) : P s.reset := by
  have hclear : P (s.draw fun t => { clearCells { t with
      color := vgaEntryColor (t.row * s.inputBufferIndex) s.inputBufferIndex } with
        row := 6, column := 6 }) :=
    hP.move (by decide) (by decide) (hP.clear (hP.color _ h))
  have hwrite := hP.writestring (text "Select a color") hclear
  unfold Shell.writestring at hwrite
  unfold Shell.reset
  exact hwrite

theorem ppm (h : P s) : P s.ppm :=
  hP.writestring _ (hP.newline (hP.writestring _ (hP.newline (hP.writestring _ (hP.newline h)))))

end OutputInv

namespace PrintInv

variable (hP : PrintInv ok P) (out : Outside) (own : ∀ call, OwnCall out call → ok call)

include hP

theorem print {given : Nat} {args : Nat → Vararg} {format : List UInt8}
    (hok : ok ⟨format, given, args⟩) (h : P s) : P (s.print given args format) := by
  have hdraw : P (s.draw (printf args format)) :=
    printf_preserves (Q := fun t => P { s with terminal := t })
      (fun _ c h => hP.putchar c h) (fun _ h => hP.newline h) args format h
  exact hP.record hok hdraw

include own

theorem printText {format : List UInt8} (hmem : format ∈ ownTexts) (h : P s) :
    P (s.print 0 out.stack format) := hP.print (own _ (.text hmem)) h

theorem printString {format : List UInt8} (hmem : format ∈ ownFormats) (data : List UInt8)
    (h : P s) : P (s.print 1 (oneString out data) format) := hP.print (own _ (.string hmem data)) h

theorem list (h : P s) :
    P (fakeroot.foldl (fun s dir => s.print 1 (oneString out dir) (text "%s ")) s.newline) :=
  List.foldlRecOn _ _ (hP.newline h) fun _ hs dir _ =>
    hP.printString out own (List.mem_cons_self ..) dir hs

theorem le (h : P s) : P (s.le out) :=
  List.foldlRecOn _ _ (hP.printText out own (List.mem_cons_self ..) h) fun _ hs _ _ =>
    hP.printString out own (List.mem_cons_of_mem _ (List.mem_cons_self ..)) _ hs

theorem help (h : P s) : P (s.help out) := by
  have hversion : P (s.newline.printAll out [text "PotatoOS ", version, text ".", subversion]) := by
    have hmem : ∀ format ∈ [text "PotatoOS ", version, text ".", subversion],
        format ∈ ownTexts := by decide
    exact List.foldlRecOn _ _ (hP.newline h) fun _ hs format hf =>
      hP.printText out own (hmem format hf) hs
  exact List.foldlRecOn _ _ (hP.newline hversion) fun _ hs _ hf =>
    hP.printText out own (mem_ownTexts hf) (hP.newline hs)

theorem unknown (hline : s.inputBufferIndex ≠ 0 → ok (s.echoCall out)) (h : P s) :
    P (s.unknown out) := by
  unfold Shell.unknown
  split
  next hindex =>
    have hquote : P (s.newline.print 0 out.stack (text "'")) :=
      hP.printText out own (by decide) (hP.newline h)
    have hecho := hP.print (hline hindex) hquote
    exact hP.printText out own (by decide) (hP.printText out own (by decide) hecho)
  · exact h

end PrintInv

namespace CommandInv

variable (hP : CommandInv ok P)

include hP

theorem terminated (h : P s) : P s.terminated := hP.other h rfl rfl

theorem restart (h : P s) : P s.restart := hP.other h rfl rfl

theorem typed (data : UInt8) (h : P s) : P (s.typed data) := by
  rw [Shell.typed]
  split
  · exact hP.other (hP.putchar data h) rfl rfl
  · exact h

theorem panicScreen (h : P s) : P s.panicScreen := by
  have hwrite := hP.writestring (text "PANIC!!!") h
  unfold Shell.panicScreen
  generalize s.writestring (text "PANIC!!!") = s₁ at hwrite ⊢
  have hcells : P (s₁.draw fun t =>
      { clearCells { t with color := vgaEntryColor vgaColorWhite s.paniccolor } with row := 6 }) :=
    hP.row (by decide) (hP.clear (hP.color _ hwrite))
  exact hP.other hcells rfl rfl

theorem panic (msg : List UInt8) (h : P s) : P (s.panic msg) :=
  hP.reboot (hP.panicTimeout (hP.panicTexts msg (hP.panicScreen h)))

theorem shutdown (h : P s) : P s.shutdown := by
  unfold Shell.shutdown
  apply hP.panic
  apply hP.task
  apply hP.task
  apply hP.task
  apply hP.task
  apply hP.task
  exact hP.task _ _ h

theorem fatinit (h : P s) : P s.fatinit := by
  have htask : P ((s.newline.writestring (text "[      ] Attempting to initialize FAT...")).task
      (text "No FAT FS support yet.") 2) := by
    apply hP.task
    apply hP.writestring
    exact hP.newline h
  simp only [Shell.fatinit]
  generalize (s.newline.writestring (text "[      ] Attempting to initialize FAT...")).task
    (text "No FAT FS support yet.") 2 = s₁ at htask ⊢
  exact hP.other htask rfl rfl

theorem echo (out : Outside) (h : P s) : P (s.echo out) := by
  unfold Shell.echo
  apply hP.writestring
  apply hP.newline
  exact hP.other h rfl rfl

theorem un (out : Outside) (h : P s) : P (s.un out) := by
  unfold Shell.un
  apply hP.writestring
  apply hP.writestring
  apply hP.newline
  exact hP.other h rfl rfl

variable (out : Outside) (own : ∀ call, OwnCall out call → ok call)

include own

theorem ls (h : P s) : (s.ls out).Has P := by
  unfold Shell.ls
  exact .ite (fun _ => .running (hP.list out own h)) fun _ => .halted (hP.panic _ (hP.newline h))

/-- Every command, if a line that is none may be printed. -/
theorem command (hline : s.IsUnknown → ok (s.echoCall out)) (h : P s) : (s.command out).Has P := by
  unfold Shell.command
  refine .ite (fun _ => hP.ls out own h) fun h₁ => ?_
  refine .ite (fun _ => .running (hP.le out own h)) fun h₂ => ?_
  refine .ite (fun _ => .running (hP.echo out h)) fun hecho => ?_
  refine .ite (fun _ => .running (hP.cleared (hP.cleared h))) fun h₃ => ?_
  refine .ite (fun _ => .running (hP.ppm h)) fun h₄ => ?_
  refine .ite (fun _ => .running (hP.help out own h)) fun h₅ => ?_
  refine .ite (fun _ => .running (hP.cleared h)) fun h₆ => ?_
  refine .ite (fun _ => .running (hP.other h rfl rfl)) fun h₇ => ?_
  refine .ite (fun _ => .running (hP.other h rfl rfl)) fun h₈ => ?_
  refine .ite (fun _ => .halted (hP.reboot h)) fun h₉ => ?_
  refine .ite (fun _ => .running h) fun h₁₀ => ?_
  refine .ite (fun _ => .running (hP.fatinit h)) fun h₁₁ => ?_
  refine .ite (fun _ => .running (hP.other h rfl rfl)) fun h₁₂ => ?_
  refine .ite (fun _ => .halted (hP.shutdown h)) fun h₁₃ => ?_
  refine .ite (fun _ => .running (hP.un out h)) fun hun => ?_
  refine .ite (fun _ => .looping h) fun h₁₄ => ?_
  refine .running (hP.unknown out own (fun hindex => hline ⟨?_, hecho, hun, hindex⟩) h)
  simp only [commandNames, List.mem_cons, List.not_mem_nil, or_false, not_or]
  exact ⟨h₁, h₂, h₃, h₄, h₅, h₆, h₇, h₈, h₉, h₁₀, h₁₁, h₁₂, h₁₃, h₁₄⟩

theorem enter (hline : s.IsUnknown → ok (s.echoCall out)) (h : P s) : (s.enter out).Has P := by
  have hcmd := hP.command out own hline h
  unfold Shell.enter
  generalize s.command out = st at hcmd ⊢
  rcases st with s' | s' | s' | s'
  · exact .running (hP.restart (hP.prompt out hcmd.shell))
  · exact hcmd
  · exact hcmd
  · exact hcmd

/-- One key.  The backspace key moves the position itself. -/
theorem handle (hback : P (s.terminated.backspace out)) {scancode : UInt8}
    (hline : readKeyboard scancode = 0x0A → s.inputBufferIndex < inputBufferSize →
      s.terminated.IsUnknown → ok (s.terminated.echoCall out)) (h : P s) :
    (s.handleKeyboardInput out scancode).Has P := by
  have hterm := hP.terminated h
  unfold Shell.handleKeyboardInput
  refine .ite (fun _ => .running h) fun _ => ?_
  refine .ite (fun _ => .overrun h) fun hroom => ?_
  refine .ite (fun _ => .running hback) fun _ => ?_
  refine .ite (fun _ => .running (hP.typed 0 (hP.reset hterm))) fun _ => ?_
  refine .ite (fun hkey => ?_) fun _ => .running (hP.typed _ hterm)
  exact hP.enter out own (hline hkey (Nat.not_le.mp hroom)) hterm

end CommandInv

end

/-! ### What the commands leave alone -/

variable (out : Outside) (s : Shell)

@[simp] theorem newline_terminal : s.newline.terminal = terminalNewline s.terminal := rfl

@[simp] theorem writestring_terminal (data : List UInt8) :
    (s.writestring data).terminal = terminalWrite s.terminal data := rfl

/-- Only the terminal and what is recorded have changed. -/
structure Drawn (s s' : Shell) : Prop where
  inputBuffer : s'.inputBuffer = s.inputBuffer
  index : s'.inputBufferIndex = s.inputBufferIndex
  username : s'.username = s.username
  fsinit : s'.fsinit = s.fsinit
  waitwrite : s'.waitwrite = s.waitwrite
  exitHKIloop : s'.exitHKIloop = s.exitHKIloop

@[refl] theorem Drawn.refl (s : Shell) : s.Drawn s := ⟨rfl, rfl, rfl, rfl, rfl, rfl⟩

variable {s} in
theorem Drawn.draw {s' : Shell} (h : s.Drawn s') (f : Terminal → Terminal) : s.Drawn (s'.draw f) :=
  ⟨h.inputBuffer, h.index, h.username, h.fsinit, h.waitwrite, h.exitHKIloop⟩

theorem drawn_printInv : PrintInv (fun _ => True) s.Drawn where
  putchar _ h := h.draw _
  newline h := h.draw _
  clear h := h.draw _
  color _ h := h.draw _
  row _ h := h.draw _
  column _ h := h.draw _
  addevent e h := by
    unfold Shell.addevent
    split
    · exact ⟨h.inputBuffer, h.index, h.username, h.fsinit, h.waitwrite, h.exitHKIloop⟩
    · exact h
  record _ h := ⟨h.inputBuffer, h.index, h.username, h.fsinit, h.waitwrite, h.exitHKIloop⟩

/-- Behind the error screen the line is empty. -/
theorem panic_index (msg : List UInt8) : (s.panic msg).inputBufferIndex = 0 := by
  have hD := s.panicScreen.drawn_printInv
  exact (hD.reboot (hD.panicTimeout (hD.panicTexts msg (.refl _)))).index

/-- What every command but one leaves: in the loop of the shell the user name
is the same, elsewhere the index is not larger. -/
def Leaves : Status → Prop
  | .running s' => s'.username = s.username
  | .halted s' => s'.inputBufferIndex ≤ s.inputBufferIndex
  | .looping s' => s' = s
  | .overrun _ => False

variable {s} in
theorem Leaves.ite {p : Prop} [Decidable p] {st st' : Status} (h : p → s.Leaves st)
    (h' : ¬ p → s.Leaves st') : s.Leaves (if p then st else st') := by
  split
  · exact h (by assumption)
  · exact h' (by assumption)

theorem ls_leaves : s.Leaves (s.ls out) := by
  have hD := s.drawn_printInv
  refine .ite (fun _ => ?_) fun _ => (panic_index _ _).trans_le (Nat.zero_le _)
  exact (hD.list out (fun _ _ => trivial) (.refl s)).username

/-- The command "echo" stores the 0 behind its word, and prints. -/
theorem echo_drawn :
    ({ s with inputBuffer := (strtok s.inputBuffer inputBufferSize 5 (text " ")).2 } : Shell).Drawn
      (s.echo out) := by
  let s₁ : Shell :=
    { s with inputBuffer := (strtok s.inputBuffer inputBufferSize 5 (text " ")).2 }
  have hD := s₁.drawn_printInv
  exact hD.writestring _ (hD.newline (.refl s₁))

/-- The command "fatinit" prints, and clears a flag. -/
theorem fatinit_eq : ∃ s', s.Drawn s' ∧ s.fatinit = { s' with fsinit := false } := by
  have hD := s.drawn_printInv
  refine ⟨(s.newline.writestring (text "[      ] Attempting to initialize FAT...")).task
    (text "No FAT FS support yet.") 2, ?_, rfl⟩
  apply hD.task
  apply hD.writestring
  exact hD.newline (.refl s)

theorem fatinit_username : s.fatinit.username = s.username := by
  obtain ⟨s', hdrawn, hs'⟩ := s.fatinit_eq
  rw [hs']
  exact hdrawn.username

theorem command_leaves (h : ¬ s.starts (text "un ") 2) : s.Leaves (s.command out) := by
  have hD := s.drawn_printInv
  unfold command
  refine .ite (fun _ => s.ls_leaves out) fun _ => ?_
  refine .ite (fun _ => (hD.le out (fun _ _ => trivial) (.refl s)).username) fun _ => ?_
  refine .ite (fun _ => (s.echo_drawn out).username) fun _ => ?_
  refine .ite (fun _ => ((Drawn.refl s).draw _).username) fun _ => ?_
  refine .ite (fun _ => (hD.ppm (.refl s)).username) fun _ => ?_
  refine .ite (fun _ => (hD.help out (fun _ _ => trivial) (.refl s)).username) fun _ => ?_
  refine .ite (fun _ => ((Drawn.refl s).draw _).username) fun _ => ?_
  refine .ite (fun _ => Eq.refl s.username) fun _ => ?_
  refine .ite (fun _ => Eq.refl s.username) fun _ => ?_
  refine .ite (fun _ => (hD.reboot (.refl s)).index.le) fun _ => ?_
  refine .ite (fun _ => Eq.refl s.username) fun _ => ?_
  refine .ite (fun _ => s.fatinit_username) fun _ => ?_
  refine .ite (fun _ => Eq.refl s.username) fun _ => ?_
  refine .ite (fun _ => (panic_index _ _).trans_le (Nat.zero_le _)) fun _ => ?_
  refine .ite (fun hun => absurd hun h) fun _ => ?_
  refine .ite (fun _ => Eq.refl s) fun _ => ?_
  exact (hD.unknown out (fun _ _ => trivial) (fun _ => trivial) (.refl s)).username

/-! ### Column and index -/

/-- The column is not further behind the prompt than the index in the line. -/
structure Coupled (s : Shell) : Prop where
  username : s.username = .literal
  index : s.inputBufferIndex ≤ 255
  column : s.terminal.column ≤ 15 + s.inputBufferIndex

variable {s}

theorem usernameString_literal (h : s.username = .literal) :
    s.usernameString out = text "potato" := by rw [usernameString, h]

/-- The backspace key is accepted behind the prompt. -/
theorem guard_eq (h : s.username = .literal) :
    (s.usernameString out).length + hostname.length + 5 = 15 := by
  rw [usernameString_literal out h]
  decide

theorem prompt_column (h : s.username = .literal) : (s.prompt out).terminal.column = 15 := by
  have hzero : (terminalNewline s.terminal).column < vgaWidth := by
    rw [terminalNewline_column]
    decide
  simp only [prompt, writestring_terminal, newline_terminal, usernameString_literal out h,
    ← terminalWrite_append]
  rw [terminalWrite_column _ _ hzero, terminalNewline_column]
  decide

theorem reset_column : s.reset.terminal.column = 20 := by
  simp only [reset, draw, terminalWritestring]
  rw [terminalWrite_column _ _ (show 6 < vgaWidth by decide)]
  show (6 + (text "Select a color").length) % vgaWidth = 20
  decide

theorem reset_drawn : s.Drawn s.reset := (Drawn.refl s).draw _

/-- A typed character moves the column and the index. -/
theorem Coupled.typed (h : s.Coupled) (data : UInt8) : (s.typed data).Coupled := by
  rw [Shell.typed]
  split
  · have hcol := terminalPutchar_column_le s.terminal data
    have := h.column
    rename_i hroom
    refine ⟨h.username, ?_, ?_⟩
    · show s.inputBufferIndex + 1 ≤ 255
      rw [inputBufferSize] at hroom
      omega
    · show (terminalPutchar s.terminal data).column ≤ 15 + (s.inputBufferIndex + 1)
      omega
  · exact h

/-- The key 'U' is harmless once the line is as long as the column it sets. -/
theorem Coupled.reset (h : s.Coupled) (h₅ : 5 ≤ s.inputBufferIndex) : s.reset.Coupled := by
  have hdrawn := reset_drawn (s := s)
  refine ⟨hdrawn.username.trans h.username, hdrawn.index.trans_le h.index, ?_⟩
  rw [reset_column, hdrawn.index]
  omega

/-- The backspace key moves both, and the column says that there is something
to delete. -/
theorem Coupled.backspace (h : s.Coupled) : (s.backspace out).Coupled := by
  rw [Shell.backspace, guard_eq out h.username]
  split
  · have hi := h.index
    have hc := h.column
    have hindex : (s.inputBufferIndex + (2 ^ 32 - 1)) % 2 ^ 32 = s.inputBufferIndex - 1 := by omega
    refine ⟨h.username, ?_, ?_⟩
    · show (s.inputBufferIndex + (2 ^ 32 - 1)) % 2 ^ 32 ≤ 255
      omega
    · show s.terminal.column - 1 ≤ 15 + (s.inputBufferIndex + (2 ^ 32 - 1)) % 2 ^ 32
      omega
  · exact h

theorem Coupled.terminated (h : s.Coupled) : s.terminated.Coupled := ⟨h.username, h.index, h.column⟩

theorem coupled_restart (h : s.username = .literal) (hcol : s.terminal.column = 15) :
    s.restart.Coupled := ⟨h, Nat.zero_le _, Nat.le_of_eq hcol⟩

/-- A new line starts behind a new prompt. -/
theorem coupled_prompt (h : s.username = .literal) : (s.prompt out).restart.Coupled :=
  coupled_restart ((s.drawn_printInv.prompt out (.refl s)).username.trans h) (prompt_column out h)

/-- So does the first one. -/
theorem coupled_start (h : s.username = .literal) (h₀ : s.inputBufferIndex = 0) :
    (s.start out).Coupled := by
  have hD := s.drawn_printInv
  have htask := hD.task (text "Entering recovery shell...") 1 (.refl s)
  have hstart : s.Drawn (s.start out) := hD.prompt out htask
  refine ⟨hstart.username.trans h, ?_, ?_⟩
  · rw [hstart.index, h₀]
    decide
  · rw [start, prompt_column out (htask.username.trans h)]
    exact Nat.le_add_right 15 _

end Shell

/-! ### Runs of the shell -/

/-- In the loop of the shell column and index agree; elsewhere the index is in
the buffer. -/
def Status.Good : Status → Prop
  | .running s => s.Coupled
  | .halted s => s.inputBufferIndex ≤ 255
  | .looping s => s.inputBufferIndex ≤ 255
  | .overrun _ => False

/-- The key is not 'U' in a line of less than five characters, and not the end
of a line that starts with "un". -/
structure Shell.Harmless (s : Shell) (scancode : UInt8) : Prop where
  reset : readKeyboard scancode = 0x55 → 5 ≤ s.inputBufferIndex
  rename : readKeyboard scancode = 0x0A → ¬ s.terminated.starts (text "un ") 2

section

variable (out : Outside) {s : Shell} {st : Status} {scancode : UInt8}

theorem Shell.Coupled.enter (h : s.Coupled) (hun : ¬ s.starts (text "un ") 2) :
    (s.enter out).Good := by
  have hleaves := s.command_leaves out hun
  rw [Shell.enter]
  generalize s.command out = st at hleaves ⊢
  rcases st with s' | s' | s' | s'
  · exact Shell.coupled_prompt out (hleaves.trans h.username)
  · exact Nat.le_trans hleaves h.index
  · exact (congrArg Shell.inputBufferIndex hleaves).trans_le h.index
  · exact hleaves.elim

/-- One key. -/
theorem Shell.Coupled.handle (h : s.Coupled) (hk : s.Harmless scancode) :
    (s.handleKeyboardInput out scancode).Good := by
  have hindex : ¬ inputBufferSize ≤ s.inputBufferIndex := by
    have := h.index
    rw [inputBufferSize]
    omega
  rw [handleKeyboardInput]
  split
  · exact h
  split
  · exact h.terminated.backspace out
  split
  next hU => exact (h.terminated.reset (hk.reset hU)).typed 0
  split
  next hnl => exact h.terminated.enter out (hk.rename hnl)
  · exact h.terminated.typed _

/-- The condition on one round of the loop. -/
def Status.Harmless : Status → UInt8 → Prop
  | .running s, scancode => s.exitHKIloop = false → s.Harmless scancode
  | _, _ => True

/-- All keys that are handled are harmless. -/
def Clean (out : Outside) : Status → List UInt8 → Prop
  | _, [] => True
  | st, scancode :: scancodes =>
      st.Harmless scancode ∧ Clean out (shellStep out st scancode) scancodes

instance (s : Shell) (scancode : UInt8) : Decidable (s.Harmless scancode) :=
  decidable_of_iff ((readKeyboard scancode = 0x55 → 5 ≤ s.inputBufferIndex) ∧
    (readKeyboard scancode = 0x0A → ¬ s.terminated.starts (text "un ") 2))
    ⟨fun h => ⟨h.1, h.2⟩, fun h => ⟨h.1, h.2⟩⟩

instance : (st : Status) → (scancode : UInt8) → Decidable (st.Harmless scancode)
  | .running s, scancode =>
      inferInstanceAs (Decidable (s.exitHKIloop = false → s.Harmless scancode))
  | .halted _, _ => .isTrue trivial
  | .looping _, _ => .isTrue trivial
  | .overrun _, _ => .isTrue trivial

instance decidableClean (out : Outside) :
    (st : Status) → (scancodes : List UInt8) → Decidable (Clean out st scancodes)
  | _, [] => .isTrue trivial
  | st, scancode :: scancodes =>
      have := decidableClean out (shellStep out st scancode) scancodes
      inferInstanceAs (Decidable (_ ∧ _))

theorem Status.Good.step (h : st.Good) (hk : st.Harmless scancode) :
    (shellStep out st scancode).Good := by
  rcases st with s | s | s | s
  · rw [shellStep]
    split
    · exact h
    next hexit => exact Shell.Coupled.handle out h (hk (Bool.eq_false_iff.mpr hexit))
  · exact h
  · exact h
  · exact h

theorem Status.Good.run {scancodes : List UInt8} (h : st.Good) (hc : Clean out st scancodes) :
    (deliver out st scancodes).Good := by
  induction scancodes generalizing st with
  | nil => exact h
  | cons scancode scancodes ih => exact ih (h.step out hc.1) hc.2

theorem Clean.of_append {codes codes' : List UInt8} (h : Clean out st (codes ++ codes')) :
    Clean out st codes := by
  induction codes generalizing st with
  | nil => trivial
  | cons code codes ih => exact ⟨h.1, ih h.2⟩

theorem Status.Good.index (h : st.Good) : st.shell.inputBufferIndex ≤ 255 := by
  rcases st with s | s | s | s
  · exact h.index
  · exact h
  · exact h
  · exact h.elim

/-- In a clean run the index is in the buffer after every key. -/
theorem bounded_of_clean {scancodes : List UInt8} (hu : s.username = .literal)
    (h₀ : s.inputBufferIndex = 0) (hc : Clean out (.running (s.start out)) scancodes) :
    ∀ codes, codes <+: scancodes →
      (deliver out (.running (s.start out)) codes).shell.inputBufferIndex ≤ 255 := by
  rintro codes ⟨codes', rfl⟩
  have hgood : (Status.running (s.start out)).Good := Shell.coupled_start out hu h₀
  exact (hgood.run out (hc.of_append out)).index

end

/-! ### The key 'U' in a short line -/

section

variable (out : Outside) {s : Shell}

/-- The backspace key while the column is behind the prompt. -/
theorem shellStep_backspace (hu : s.username = .literal) (he : s.exitHKIloop = false)
    (hi : s.inputBufferIndex < 256) (hc : 15 < s.terminal.column) :
    ∃ s', shellStep out (.running s) 14 = .running s' ∧ s'.username = .literal ∧
      s'.exitHKIloop = false ∧ s'.terminal.column = s.terminal.column - 1 ∧
      s'.inputBufferIndex = (s.inputBufferIndex + (2 ^ 32 - 1)) % 2 ^ 32 := by
  have hguard : s.terminated.terminal.column
      > (s.terminated.usernameString out).length + hostname.length + 5 := by
    rw [Shell.guard_eq out (show s.terminated.username = .literal from hu)]
    exact hc
  have hkey : readKeyboard 14 = 0x08 := by decide
  refine ⟨s.terminated.backspace out, ?_, ?_⟩
  · rw [shellStep, he, Shell.handleKeyboardInput, hkey]
    simp only [Bool.false_eq_true, if_false, inputBufferSize, Nat.not_le.mpr hi, if_true,
      show ¬ (0x08 : UInt8) = 0 by decide]
  · rw [Shell.backspace, if_pos hguard]
    exact ⟨hu, he, rfl, rfl⟩

/-- As many backspaces as the column and the line allow. -/
theorem deliver_backspaces (n : Nat) (hu : s.username = .literal) (he : s.exitHKIloop = false)
    (hi : s.inputBufferIndex < 256) (hn : n ≤ s.inputBufferIndex)
    (hc : 15 + n ≤ s.terminal.column) :
    ∃ s', deliver out (.running s) (List.replicate n 14) = .running s' ∧ s'.username = .literal ∧
      s'.exitHKIloop = false ∧ s'.terminal.column = s.terminal.column - n ∧
      s'.inputBufferIndex = s.inputBufferIndex - n := by
  induction n generalizing s with
  | zero => exact ⟨s, rfl, hu, he, rfl, rfl⟩
  | succ n ih =>
      obtain ⟨s₁, hstep, hu₁, he₁, hc₁, hi₁⟩ := shellStep_backspace out hu he hi (by omega)
      obtain ⟨s₂, hrun, hu₂, he₂, hc₂, hi₂⟩ := ih hu₁ he₁ (by omega) (by omega) (by omega)
      refine ⟨s₂, ?_, hu₂, he₂, by omega, by omega⟩
      rw [List.replicate_succ, deliver, List.foldl_cons, hstep]
      exact hrun

/-- The key 'U' puts the column to 21, whatever the line. -/
theorem shellStep_reset (hu : s.username = .literal) (he : s.exitHKIloop = false)
    (hi : s.inputBufferIndex < 255) :
    ∃ s', shellStep out (.running s) 72 = .running s' ∧ s'.username = .literal ∧
      s'.exitHKIloop = false ∧ s'.terminal.column = 21 ∧
      s'.inputBufferIndex = s.inputBufferIndex + 1 := by
  have hkey : readKeyboard 72 = 0x55 := by decide
  have hcol := Shell.reset_column (s := s.terminated)
  have hdrawn := Shell.reset_drawn (s := s.terminated)
  have hindex : s.terminated.reset.inputBufferIndex = s.inputBufferIndex := hdrawn.index
  have huser : s.terminated.reset.username = .literal := hdrawn.username.trans hu
  have hexit : s.terminated.reset.exitHKIloop = false := hdrawn.exitHKIloop.trans he
  refine ⟨s.terminated.reset.typed 0, ?_, ?_⟩
  · rw [shellStep, he, Shell.handleKeyboardInput, hkey]
    simp only [Bool.false_eq_true, if_false, inputBufferSize,
      Nat.not_le.mpr (Nat.lt_succ_of_lt hi), if_true, show ¬ (0x55 : UInt8) = 0 by decide,
      show ¬ (0x55 : UInt8) = 0x08 by decide]
  · generalize s.terminated.reset = s₁ at hcol hindex huser hexit
    rw [Shell.typed, if_pos (show s₁.inputBufferIndex < inputBufferSize - 1 from hindex ▸ hi)]
    refine ⟨huser, hexit, ?_, congrArg (· + 1) hindex⟩
    exact (terminalPutchar_column s₁.terminal 0).trans (by rw [hcol]; decide)

/-- A line of less than five characters, 'U', and backspaces for all of it and
one more: the index wraps around. -/
theorem index_wraps (h : s.Coupled) (he : s.exitHKIloop = false)
    (h₅ : s.inputBufferIndex < 5) :
    (deliver out (.running s)
      (72 :: (List.replicate (s.inputBufferIndex + 1) 14 ++ [14]))).shell.inputBufferIndex
        = 2 ^ 32 - 1 := by
  obtain ⟨s₁, hreset, hu₁, he₁, hc₁, hi₁⟩ := shellStep_reset out h.username he (by omega)
  obtain ⟨s₂, hback, hu₂, he₂, hc₂, hi₂⟩ := deliver_backspaces out (s.inputBufferIndex + 1) hu₁ he₁
    (by omega) (by omega) (by omega)
  obtain ⟨s₃, hlast, -, -, -, hi₃⟩ := shellStep_backspace out hu₂ he₂ (by omega) (by omega)
  have hrun : deliver out (.running s) (72 :: (List.replicate (s.inputBufferIndex + 1) 14 ++ [14]))
      = .running s₃ := by
    rw [deliver, List.foldl_cons, hreset, List.foldl_append]
    rw [deliver] at hback
    rw [hback]
    exact hlast
  rw [hrun]
  show s₃.inputBufferIndex = 2 ^ 32 - 1
  omega

end

/-! ### Runs from the start -/

/-- Nothing but empty strings outside. -/
def emptyOutside : Outside := ⟨fun _ => [], fun _ => ⟨0, []⟩⟩

/-- The machine when it comes to the shell. -/
def bootShell : Shell where
  terminal := ⟨1, 0, vgaEntryColor vgaColorWhite vgaColorBlack, fun _ => 0, 0⟩
  inputBuffer := fun _ => 0
  inputBufferIndex := 0
  username := .literal
  eventlog := [.name (text "test")]
  fsinit := false
  waitwrite := false
  exitHKIloop := false

/-- Five letters, 'U', a backspace and the newline key, then a letter and a
backspace. -/
def sampleKeys : List UInt8 := [30, 31, 32, 33, 34, 72, 14, 28, 30, 14]

/-- The index is in the buffer at the end of this run. -/
theorem bounded_sampleKeys :
    (deliver emptyOutside (.running (bootShell.start emptyOutside))
      sampleKeys).shell.inputBufferIndex ≤ 255 :=
  bounded_of_clean emptyOutside (s := bootShell) rfl rfl (by decide +kernel) sampleKeys
    List.prefix_rfl

/-- Whether a store has gone outside the input buffer. -/
def Status.overran : Status → Bool
  | .overrun _ => true
  | _ => false

/-- 'U' in an empty line and two backspaces: the index is out of the buffer,
and with the next key so is a store. -/
theorem not_bounded_afterReset :
    bootShell.username = .literal ∧ bootShell.inputBufferIndex = 0 ∧
      (deliver emptyOutside (.running (bootShell.start emptyOutside))
        [72, 14, 14]).shell.inputBufferIndex = 2 ^ 32 - 1 ∧
      (deliver emptyOutside (.running (bootShell.start emptyOutside))
        [72, 14, 14, 30]).overran = true := by
  refine ⟨rfl, rfl, ?_, by decide +kernel⟩
  have h₀ : (bootShell.start emptyOutside).inputBufferIndex = 0 := by decide +kernel
  have hwrap := index_wraps emptyOutside
    (Shell.coupled_start (s := bootShell) emptyOutside rfl rfl) (by decide +kernel)
    (by rw [h₀]; decide)
  rw [h₀] at hwrap
  exact hwrap

end PotatoOS
