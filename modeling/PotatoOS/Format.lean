/-
PotatoOS/Format.lean

What `printf` makes of a command line.

The shell answers an unknown command with the line itself as a format.
`printfTrace` follows the loop of `printf` and says which characters it writes
and how many arguments it reads.  A line comes out as it is, without a read
behind the arguments, exactly when its first percent sign is not followed by
another one or by a conversion (`Plain`): any other character ends the
interpretation.

All other formats of the shell are its own and read what they are given.  Main
result: `faithfulRun_iff_plainRun`.
-/
import PotatoOS.Line

namespace PotatoOS

/-! ### What a format writes and reads -/

/-- What `printf` sends to the terminal. -/
inductive Output where
  | char (c : UInt8)
  | newline
  deriving DecidableEq, Repr

/-- What an output does to the terminal. -/
def Output.apply (t : Terminal) : Output → Terminal
  | .char c => terminalPutchar t c
  | .newline => terminalNewline t

/-- Write some characters and go on, or fail for want of room. -/
def emit (written i : Nat) (data : List UInt8) (next : List Output × Nat) : List Output × Nat :=
  if 2 ^ 31 - 1 - written < data.length then ([], i) else (data.map .char ++ next.1, next.2)

/-- The loop of `printf`, as what it writes and the number of arguments that
it has read in the end. -/
def printfTrace (args : Nat → Vararg) (format : List UInt8) (i written : Nat) :
    List Output × Nat :=
  match format with
  | [] => ([], i)
  | c :: rest =>
      if c ≠ 0x25 then
        let run := c :: rest.takeWhile (· ≠ 0x25)
        emit written i run
          (printfTrace args (rest.dropWhile (· ≠ 0x25)) i (written + run.length))
      else match rest with
        | [] => emit written i [0x25] ([], i)
        | d :: rest =>
            if d = 0x25 then
              let run := 0x25 :: rest.takeWhile (· ≠ 0x25)
              emit written i run
                (printfTrace args (rest.dropWhile (· ≠ 0x25)) i (written + run.length))
            else if d = 0x63 then
              emit written (i + 1) [(args i).char] (printfTrace args rest (i + 1) (written + 1))
            else if d = 0x6E then
              let next := printfTrace args rest i (written + 1)
              (.newline :: next.1, next.2)
            else if d = 0x73 then
              emit written (i + 1) (args i).string
                (printfTrace args rest (i + 1) (written + (args i).string.length))
            else emit written i (0x25 :: d :: rest) ([], i)
termination_by format.length
decreasing_by
  · exact Nat.lt_succ_of_le (List.dropWhile_sublist _).length_le
  · exact Nat.lt_succ_of_lt (Nat.lt_succ_of_le (List.dropWhile_sublist _).length_le)
  all_goals simp_wf

section

variable (args : Nat → Vararg) (format rest : List UInt8) (i written : Nat) (t : Terminal)

theorem take_takeWhile (p : UInt8 → Bool) (data : List UInt8) :
    data.take (data.takeWhile p).length = data.takeWhile p :=
  (List.prefix_iff_eq_take.mp (List.takeWhile_prefix p)).symm

theorem drop_takeWhile (p : UInt8 → Bool) (data : List UInt8) :
    data.drop (data.takeWhile p).length = data.dropWhile p := by
  conv_lhs => arg 2; rw [← List.takeWhile_append_dropWhile (p := p) (l := data)]
  exact List.drop_left

/-- Without a percent sign at its front, or with two of them, a format is
written up to the next one. -/
theorem printfLoop_literal {c : UInt8} (h : c ≠ 0x25) :
    printfLoop args (c :: rest) i written t =
      let run := c :: rest.takeWhile (· ≠ 0x25)
      if 2 ^ 31 - 1 - written < run.length then (-1, t)
      else printfLoop args (rest.dropWhile (· ≠ 0x25)) i (written + run.length)
        (terminalWrite t run) := by
  conv_lhs => unfold printfLoop
  simp only [if_pos (Or.inl h), if_neg h, List.drop_succ_cons, List.drop_zero,
    List.take_succ_cons, take_takeWhile, drop_takeWhile]
  rfl

theorem printfLoop_escape :
    printfLoop args (0x25 :: 0x25 :: rest) i written t =
      let run := 0x25 :: rest.takeWhile (· ≠ 0x25)
      if 2 ^ 31 - 1 - written < run.length then (-1, t)
      else printfLoop args (rest.dropWhile (· ≠ 0x25)) i (written + run.length)
        (terminalWrite t run) := by
  conv_lhs => unfold printfLoop
  simp only [List.head?_cons, or_true, if_true, List.drop_succ_cons, List.drop_zero,
    List.take_succ_cons, take_takeWhile, drop_takeWhile]
  rfl

theorem foldl_apply_chars (data : List UInt8) :
    (data.map Output.char).foldl Output.apply t = terminalWrite t data := by
  induction data generalizing t with
  | nil => rfl
  | cons c data ih => exact ih (terminalPutchar t c)

theorem emit_apply (data : List UInt8) (next : List Output × Nat) :
    (emit written i data next).1.foldl Output.apply t =
      if 2 ^ 31 - 1 - written < data.length then t
      else next.1.foldl Output.apply (terminalWrite t data) := by
  rw [emit]
  split
  · rfl
  · rw [List.foldl_append, foldl_apply_chars]

/-- The trace is what the loop does to the terminal. -/
theorem printfLoop_eq_trace :
    (printfLoop args format i written t).2
      = (printfTrace args format i written).1.foldl Output.apply t := by
  fun_induction printfTrace args format i written generalizing t with
  | case1 => rw [printfLoop]; rfl
  | case2 i written c rest hc run ih =>
      rw [printfLoop_literal args rest i written t hc, emit_apply, ← ih, apply_ite Prod.snd]
  | case3 i written c hc =>
      obtain rfl := not_not.mp hc
      -- the `%` at the end of the format is printed as it stands
      rw [printfLoop, if_neg (by decide), emit_apply, apply_ite Prod.snd]
      · rfl
      all_goals exact fun rest h => absurd h.symm (List.cons_ne_nil _ rest)
  | case4 i written c hc rest run ih =>
      obtain rfl := not_not.mp hc
      rw [printfLoop_escape, emit_apply, ← ih, apply_ite Prod.snd]
  | case5 i written c hc rest _ ih =>
      obtain rfl := not_not.mp hc
      rw [printfLoop, if_neg (by simp), emit_apply, ← ih, apply_ite Prod.snd]
      simp
  | case6 i written c hc rest _ _ _ ih =>
      obtain rfl := not_not.mp hc
      rw [printfLoop, if_neg (by simp)]
      exact ih _
  | case7 i written c hc rest _ _ _ ih =>
      obtain rfl := not_not.mp hc
      rw [printfLoop, if_neg (by simp), emit_apply, ← ih, apply_ite Prod.snd]
  | case8 i written c hc d rest h₁ h₂ h₃ h₄ =>
      obtain rfl := not_not.mp hc
      -- an unknown conversion: the rest of the format goes out at once
      rw [printfLoop, if_neg (by simpa using h₁), emit_apply, apply_ite Prod.snd]
      · rfl
      · exact fun _ h => h₂ (List.cons.inj h).1
      · exact fun _ h => h₃ (List.cons.inj h).1
      · exact fun _ h => h₄ (List.cons.inj h).1

end

/-! ### Plain lines -/

/-- What a percent sign is interpreted in front of. -/
def conversions : List UInt8 := text "%cns"

/-- The first percent sign, if there is one, is not interpreted. -/
def Plain (line : List UInt8) : Prop :=
  ∀ d ∈ ((line.dropWhile (· ≠ 0x25)).drop 1).head?, d ∉ conversions

theorem mem_conversions {d : UInt8} :
    d ∈ conversions ↔ d = 0x25 ∨ d = 0x63 ∨ d = 0x6E ∨ d = 0x73 := by
  rw [show conversions = [0x25, 0x63, 0x6E, 0x73] by decide]
  simp

instance (line : List UInt8) : Decidable (Plain line) :=
  decidable_of_iff
    (((line.dropWhile (· ≠ 0x25)).drop 1).head?.all (fun d => decide (d ∉ conversions)) = true)
    (by simp only [Option.all_eq_true, decide_eq_true_eq, Plain, Option.mem_def])

section

variable {args : Nat → Vararg} {line data : List UInt8} {next : List Output × Nat}
  {i written : Nat}

theorem emit_fits (h : data.length ≤ 2 ^ 31 - 1 - written) :
    emit written i data next = (data.map .char ++ next.1, next.2) := if_neg (Nat.not_lt.mpr h)

@[simp] theorem emit_nil : emit written i [] next = next := emit_fits (Nat.zero_le _)

theorem le_emit {k : Nat} (hi : k ≤ i) (hnext : k ≤ next.2) :
    k ≤ (emit written i data next).2 := by
  rw [emit]
  split
  · exact hi
  · exact hnext

theorem emit_reads (h : next.2 = i) : (emit written i data next).2 = i := by
  rw [emit]
  split
  · rfl
  · exact h

/-- When nothing is read, not more is written than stands there. -/
theorem emit_length {n : Nat} (hnext : next.2 = i → next.1.length ≤ n)
    (h : (emit written i data next).2 = i) :
    (emit written i data next).1.length ≤ data.length + n := by
  rw [emit] at h ⊢
  split at h
  next hfull =>
    rw [if_pos hfull]
    exact Nat.zero_le _
  next hroom =>
    rw [if_neg hroom, List.length_append, List.length_map]
    exact Nat.add_le_add_left (hnext h) _

theorem le_printfTrace (args : Nat → Vararg) (format : List UInt8) (i written : Nat) :
    i ≤ (printfTrace args format i written).2 := by
  fun_induction printfTrace args format i written with
  | case1 => exact Nat.le_refl _
  | case2 i written c rest hc run ih => exact le_emit (Nat.le_refl _) ih
  | case3 => exact le_emit (Nat.le_refl _) (Nat.le_refl _)
  | case4 i written c hc rest run ih => exact le_emit (Nat.le_refl _) ih
  | case5 i written c hc rest _ ih => exact le_emit (Nat.le_succ _) (Nat.le_of_succ_le ih)
  | case6 i written c hc rest _ _ _ ih => exact ih
  | case7 i written c hc rest _ _ _ ih => exact le_emit (Nat.le_succ _) (Nat.le_of_succ_le ih)
  | case8 => exact le_emit (Nat.le_refl _) (Nat.le_refl _)

/-- A conversion reads its argument, whether it is written or not. -/
theorem lt_emit (args : Nat → Vararg) (rest data : List UInt8) (i written written' : Nat) :
    i < (emit written (i + 1) data (printfTrace args rest (i + 1) written')).2 :=
  le_emit (Nat.le_refl (i + 1)) (le_printfTrace args rest (i + 1) written')

theorem takeWhile_length_add (rest : List UInt8) :
    (rest.takeWhile (· ≠ 0x25)).length + (rest.dropWhile (· ≠ 0x25)).length = rest.length := by
  rw [← List.length_append, List.takeWhile_append_dropWhile]

/-- A format that reads no argument does not grow. -/
theorem printfTrace_length (args : Nat → Vararg) (format : List UInt8) (i written : Nat)
    (h : (printfTrace args format i written).2 = i) :
    (printfTrace args format i written).1.length ≤ format.length := by
  fun_induction printfTrace args format i written with
  | case1 => exact Nat.le_refl _
  | case2 i written c rest hc run ih =>
      refine (emit_length ih h).trans ?_
      have := takeWhile_length_add rest
      simp only [run, List.length_cons]
      omega
  | case3 i written c hc => exact emit_length (n := 0) (fun _ => Nat.le_refl _) h
  | case4 i written c hc rest run ih =>
      refine (emit_length ih h).trans ?_
      have := takeWhile_length_add rest
      simp only [run, List.length_cons]
      omega
  | case5 i written c hc rest _ ih => exact absurd h (lt_emit args rest _ i _ _).ne'
  | case6 i written c hc rest _ _ _ ih =>
      exact Nat.succ_le_succ ((ih h).trans (Nat.le_succ _))
  | case7 i written c hc rest _ _ _ ih => exact absurd h (lt_emit args rest _ i _ _).ne'
  | case8 i written c hc d rest _ _ _ _ => exact emit_length (n := 0) (fun _ => Nat.le_refl _) h

/-- The text in front of the first percent sign. -/
theorem printfTrace_text (args : Nat → Vararg) (line : List UInt8) (i written : Nat) :
    printfTrace args line i written =
      emit written i (line.takeWhile (· ≠ 0x25)) (printfTrace args (line.dropWhile (· ≠ 0x25)) i
        (written + (line.takeWhile (· ≠ 0x25)).length)) := by
  rcases line with - | ⟨c, rest⟩
  · simp
  · by_cases hc : c = 0x25
    · simp [hc]
    · rw [List.takeWhile_cons_of_pos (by simpa using hc),
        List.dropWhile_cons_of_pos (by simpa using hc)]
      conv_lhs => unfold printfTrace
      exact if_pos hc

/-- A percent sign that is not interpreted is written with all that follows. -/
theorem printfTrace_unknown (rest : List UInt8) (h : ∀ d ∈ rest.head?, d ∉ conversions) :
    printfTrace args (0x25 :: rest) i written = emit written i (0x25 :: rest) ([], i) := by
  conv_lhs => unfold printfTrace
  rcases rest with - | ⟨d, rest⟩
  · rfl
  · have hd := h d rfl
    simp only [mem_conversions, not_or] at hd
    simp [hd]

/-- One that is interpreted does not come out. -/
theorem printfTrace_conversion_ne {d : UInt8} {rest : List UInt8} (h : d ∈ conversions) :
    printfTrace args (0x25 :: d :: rest) i written ≠ ((0x25 :: d :: rest).map .char, i) := by
  intro heq
  conv_lhs at heq => unfold printfTrace
  have hread := congrArg Prod.snd heq
  rcases mem_conversions.mp h with rfl | rfl | rfl | rfl
  · -- of two percent signs one is lost
    have hle := emit_length (printfTrace_length args _ i _) hread
    have hlen := (congrArg (fun trace => trace.1.length) heq).symm.trans_le hle
    have := takeWhile_length_add rest
    simp only [List.length_map, List.length_cons] at hlen
    omega
  · exact absurd hread (lt_emit args rest _ i _ _).ne'
  · cases heq
  · exact absurd hread (lt_emit args rest _ i _ _).ne'

theorem dropWhile_eq_nil_or (line : List UInt8) :
    line.dropWhile (· ≠ 0x25) = [] ∨ ∃ rest, line.dropWhile (· ≠ 0x25) = 0x25 :: rest := by
  by_cases hnil : line.dropWhile (· ≠ 0x25) = []
  · exact .inl hnil
  · have hhead := List.head_dropWhile_not _ hnil
    rw [decide_eq_false_iff_not, not_not] at hhead
    exact .inr ⟨_, (List.cons_head_tail hnil).symm.trans (congrArg (List.cons · _) hhead)⟩

/-- A line is written as it is, and no argument is read, exactly when it is
plain. -/
theorem printfTrace_eq_iff (args : Nat → Vararg) (hlen : line.length < 2 ^ 31) :
    printfTrace args line 0 0 = (line.map .char, 0) ↔ Plain line := by
  have hsum := takeWhile_length_add line
  have hline : (line.takeWhile (· ≠ 0x25)).map Output.char
      ++ (line.dropWhile (· ≠ 0x25)).map Output.char = line.map Output.char := by
    rw [← List.map_append, List.takeWhile_append_dropWhile]
  rw [printfTrace_text, emit_fits (by omega), Plain, ← hline]
  rcases dropWhile_eq_nil_or line with hnil | ⟨rest, hrest⟩
  · rw [hnil, printfTrace]
    simp
  · rw [hrest] at hsum ⊢
    constructor
    · intro heq d hd hconv
      obtain ⟨rest, rfl⟩ := List.head?_eq_some_iff.mp hd
      obtain ⟨h₁, h₂⟩ := Prod.mk.inj heq
      exact printfTrace_conversion_ne hconv (Prod.ext (List.append_cancel_left h₁) h₂)
    · intro h
      rw [printfTrace_unknown rest h, emit_fits (by omega), List.append_nil]

/-- A plain format reads nothing, however long it is. -/
theorem printfTrace_reads (h : Plain line) : (printfTrace args line i written).2 = i := by
  rw [printfTrace_text]
  apply emit_reads
  rw [Plain] at h
  rcases dropWhile_eq_nil_or line with hnil | ⟨rest, hrest⟩
  · rw [hnil, printfTrace]
  · rw [hrest] at h ⊢
    rw [printfTrace_unknown rest h]
    exact emit_reads rfl

end

/-! ### The calls of the shell -/

namespace PrintfCall

variable (call : PrintfCall)

/-- What the call writes. -/
def output : List Output := (printfTrace call.args call.format 0 0).1

/-- How many arguments it reads. -/
def consumed : Nat := (printfTrace call.args call.format 0 0).2

/-- It reads as many arguments as it was given. -/
def Exact : Prop := call.consumed = call.given

/-- It writes its format as it is. -/
def Verbatim : Prop := call.output = call.format.map .char

end PrintfCall

section

variable (out : Outside) {s s' : Shell} {st : Status} {scancode : UInt8}

/-- What `printf` does to the terminal is the output of the call. -/
theorem Shell.print_terminal (s : Shell) (call : PrintfCall) :
    (s.print call.given call.args call.format).terminal
      = call.output.foldl Output.apply s.terminal :=
  printfLoop_eq_trace call.args call.format 0 0 s.terminal

theorem exact_of_plain {format : List UInt8} (h : Plain format) (args : Nat → Vararg) :
    PrintfCall.Exact ⟨format, 0, args⟩ := printfTrace_reads h

/-- A string in front of a plain text reads its argument, even if it is too
long to be written. -/
theorem exact_of_string {rest : List UInt8} (h : Plain rest) (args : Nat → Vararg) :
    PrintfCall.Exact ⟨0x25 :: 0x73 :: rest, 1, args⟩ := by
  show (printfTrace args (0x25 :: 0x73 :: rest) 0 0).2 = 1
  unfold printfTrace
  exact emit_reads (printfTrace_reads h)

theorem exact_newline (args : Nat → Vararg) : PrintfCall.Exact ⟨text "%n", 0, args⟩ := by
  show (printfTrace args [0x25, 0x6E] 0 0).2 = 0
  unfold printfTrace
  exact congrArg Prod.snd (printfTrace.eq_1 args 0 1)

/-- The formats of the shell are exact. -/
theorem Shell.OwnCall.exact {call : PrintfCall} (h : Shell.OwnCall out call) : call.Exact := by
  have htexts : ∀ format ∈ Shell.ownTexts, format ≠ PotatoOS.text "%n" → Plain format := by
    decide +kernel
  have hformats : ∀ format ∈ Shell.ownFormats,
      format.take 2 = [0x25, 0x73] ∧ Plain (format.drop 2) := by decide
  cases h with
  | @text format hmem =>
      by_cases hn : format = PotatoOS.text "%n"
      · rw [hn]
        exact exact_newline _
      · exact exact_of_plain (htexts format hmem hn) _
  | @string format hmem data =>
      obtain ⟨htake, hplain⟩ := hformats format hmem
      rw [← List.take_append_drop 2 format, htake]
      exact exact_of_string hplain _

/-- The echo of a line is exact and verbatim exactly when the line is plain. -/
theorem Shell.echoCall_iff :
    (s.echoCall out).Exact ∧ (s.echoCall out).Verbatim ↔ Plain (s.inputString 0) := by
  have hlen : (s.inputString 0).length < 2 ^ 31 := by
    have hle : (s.inputString 0).length ≤ 256 := by
      refine (List.takeWhile_sublist _).length_le.trans ?_
      rw [List.length_map, List.length_range]
      decide
    omega
  rw [← printfTrace_eq_iff out.stack hlen, Prod.ext_iff]
  exact and_comm

/-- All calls of `printf` between two states are exact. -/
structure Shell.ExactSince (s s' : Shell) : Prop where
  made : ∃ calls, s'.calls = calls ++ s.calls ∧ ∀ call ∈ calls, call.Exact

theorem Shell.ExactSince.refl (s : Shell) : s.ExactSince s :=
  ⟨[], rfl, List.forall_mem_nil _⟩

theorem exactSince_commandInv (s : Shell) : Shell.CommandInv PrintfCall.Exact s.ExactSince where
  putchar _ h := ⟨h.made⟩
  newline h := ⟨h.made⟩
  clear h := ⟨h.made⟩
  color _ h := ⟨h.made⟩
  row _ h := ⟨h.made⟩
  column _ h := ⟨h.made⟩
  addevent e h := by
    unfold Shell.addevent
    split
    · exact ⟨h.made⟩
    · exact h
  record hok h := by
    obtain ⟨calls, heq, hall⟩ := h.made
    exact ⟨_ :: calls, congrArg (List.cons _) heq, List.forall_mem_cons.mpr ⟨hok, hall⟩⟩
  other h _ hcalls := ⟨hcalls ▸ h.made⟩

/-! ### Lines that are no command -/

/-- The key ends a line that is no command; the last argument is the machine
with the line terminated. -/
inductive Submits : Status → UInt8 → Shell → Prop
  | intro {s : Shell} {scancode : UInt8} (loop : s.exitHKIloop = false)
      (key : readKeyboard scancode = 0x0A) (room : s.inputBufferIndex < inputBufferSize)
      (unknown : s.terminated.IsUnknown) : Submits (.running s) scancode s.terminated

/-- All calls of `printf` for one key are exact, and a line that is no command
is repeated as it is. -/
structure FaithfulStep (st : Status) (scancode : UInt8) : Prop where
  exact : st.shell.ExactSince (shellStep out st scancode).shell
  verbatim : ∀ s, Submits st scancode s → (s.echoCall out).Verbatim

/-- So it is for all keys. -/
def FaithfulRun : Status → List UInt8 → Prop
  | _, [] => True
  | st, scancode :: scancodes =>
      FaithfulStep out st scancode ∧ FaithfulRun (shellStep out st scancode) scancodes

/-- All lines that are no command are plain. -/
def PlainRun : Status → List UInt8 → Prop
  | _, [] => True
  | st, scancode :: scancodes =>
      (∀ s, Submits st scancode s → Plain (s.inputString 0)) ∧
        PlainRun (shellStep out st scancode) scancodes

/-- The answer to a line that is no command. -/
theorem Shell.IsUnknown.command_eq (h : s.IsUnknown) :
    s.command out = .running (s.unknown out) := by
  have hne := h.line
  simp only [Shell.commandNames, List.mem_cons, List.not_mem_nil, or_false, not_or] at hne
  simp only [Shell.command, hne, h.echo, h.un, if_false]

theorem Shell.IsUnknown.calls_eq (h : s.IsUnknown) :
    ∃ last first, (s.unknown out).calls = last ++ s.echoCall out :: first ++ s.calls := by
  rw [Shell.unknown, if_pos h.typed]
  exact ⟨[_, _], [_], rfl⟩

@[simp] theorem Shell.newline_calls : s.newline.calls = s.calls := rfl

@[simp] theorem Shell.writestring_calls (data : List UInt8) :
    (s.writestring data).calls = s.calls := rfl

@[simp] theorem Shell.restart_calls : s.restart.calls = s.calls := rfl

theorem Shell.prompt_calls : (s.prompt out).calls = s.calls := by simp [Shell.prompt]

/-- A line that is no command is among the formats of its key. -/
theorem Submits.calls_eq {s₁ : Shell} (h : Submits st scancode s₁) :
    ∃ last first, (shellStep out st scancode).shell.calls
      = last ++ s₁.echoCall out :: first ++ st.shell.calls := by
  cases h with
  | @intro s _ loop key room unknown =>
      have hstep : shellStep out (.running s) scancode
          = .running ((s.terminated.unknown out).prompt out).restart := by
        rw [shellStep_newline out loop key room, Shell.enter, unknown.command_eq out]
      have hcalls : (Status.running ((s.terminated.unknown out).prompt out).restart).shell.calls
          = (s.terminated.unknown out).calls := by
        rw [Status.shell, Shell.restart_calls, Shell.prompt_calls]
      rw [hstep, hcalls]
      exact unknown.calls_eq out

/-- One key. -/
theorem faithfulStep_iff :
    FaithfulStep out st scancode ↔ ∀ s, Submits st scancode s → Plain (s.inputString 0) := by
  constructor
  · intro h s hs
    obtain ⟨calls, heq, hall⟩ := h.exact.made
    obtain ⟨last, first, heq'⟩ := hs.calls_eq out
    -- the calls of the key are determined by the two logs
    have hcalls : calls = last ++ s.echoCall out :: first :=
      List.append_cancel_right (heq.symm.trans heq')
    have hexact : (s.echoCall out).Exact := by
      apply hall
      rw [hcalls]
      exact List.mem_append_right _ (List.mem_cons_self ..)
    exact (Shell.echoCall_iff out).mp ⟨hexact, h.verbatim s hs⟩
  · intro h
    refine ⟨?_, fun s hs => ((Shell.echoCall_iff out).mpr (h s hs)).2⟩
    -- only a machine in the loop of the shell handles the key
    rcases st with s | s | s | s
    · rw [shellStep]
      split
      · exact .refl s
      next hloop =>
        have hP := exactSince_commandInv s
        have hback : s.ExactSince (s.terminated.backspace out) := by
          rw [Shell.backspace]
          split
          · exact ⟨[], rfl, List.forall_mem_nil _⟩
          · exact ⟨[], rfl, List.forall_mem_nil _⟩
        refine (hP.handle out (fun _ hown => hown.exact out) hback (fun key room hun => ?_)
          (.refl s)).shell
        have hplain := h s.terminated (.intro (Bool.eq_false_iff.mpr hloop) key room hun)
        exact ((Shell.echoCall_iff out).mpr hplain).1
    · exact .refl s
    · exact .refl s
    · exact .refl s

/-- From any state, the calls of `printf` for any keys are exact and the lines
that are no command come back as they are, exactly when all these lines are
plain. -/
theorem faithfulRun_iff_plainRun (st : Status) (scancodes : List UInt8) :
    FaithfulRun out st scancodes ↔ PlainRun out st scancodes := by
  induction scancodes generalizing st with
  | nil => exact Iff.rfl
  | cons scancode scancodes ih => exact and_congr (faithfulStep_iff out) (ih _)

end

/-- A line with another first character does not start with the given ones. -/
theorem Shell.not_starts {s : Shell} {data : List UInt8} {n : Nat} (hn : 0 < n)
    (h : ∀ i < n, textOf data i ≠ 0) (hne : s.inputBuffer 0 ≠ textOf data 0) :
    ¬ s.starts data n := fun hs => hne ((strncmp_eq_zero_iff h).mp hs 0 hn)

/-- The line "%s" reads an argument that is not there. -/
theorem not_faithfulRun_percent :
    ¬ FaithfulRun emptyOutside (.running (bootShell.start emptyOutside)) [59, 31, 28] := by
  rintro ⟨-, -, hstep, -⟩
  have htask := bootShell.drawn_printInv.task (text "Entering recovery shell...") 1 (.refl _)
  have hkeys : ∀ scancode ∈ [59, 31], IsEditKey scancode := by
    simp only [List.forall_mem_cons]
    exact ⟨by decide, by decide, nofun⟩
  have hlen : ∀ codes ∈ List.inits [59, 31], (referenceLine codes).length ≤ maxLine := by decide
  obtain ⟨s, hrun, hedits⟩ := (Shell.edits_prompt emptyOutside htask.username
    htask.exitHKIloop).run emptyOutside hkeys
    (fun codes hc => hlen codes ((List.mem_inits _ _).mpr hc))
  rw [← Shell.start_eq_prompt emptyOutside (s := bootShell) rfl] at hrun
  -- the machine in front of the newline key, and its line
  have hfirst : s.terminated.inputBuffer 0 = 0x25 := (List.cons.inj hedits.terminated.buffer).1
  have hline : s.terminated.inputString 0 = text "%s" := hedits.inputString (by decide)
  have hsubmits : Submits (.running s) 28 s.terminated := by
    refine .intro hedits.loop (by decide) ?_ ⟨?_, ?_, ?_, ?_⟩
    · rw [hedits.index]
      decide
    · rw [hline]
      decide
    · exact Shell.not_starts (by decide) (by decide) (by rw [hfirst]; decide)
    · exact Shell.not_starts (by decide) (by decide) (by rw [hfirst]; decide)
    · show s.inputBufferIndex ≠ 0
      rw [hedits.index]
      decide
  have hstep' : FaithfulStep emptyOutside
      (deliver emptyOutside (.running (bootShell.start emptyOutside)) [59, 31]) 28 := hstep
  rw [hrun] at hstep'
  have hplain := (faithfulStep_iff emptyOutside).mp hstep' _ hsubmits
  rw [hline] at hplain
  exact absurd hplain (by decide)

end PotatoOS
