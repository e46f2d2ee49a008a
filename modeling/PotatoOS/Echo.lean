/-
PotatoOS/Echo.lean

The command "echo".

The text to print is what `strtok` returns for the rest of the line, with a
space as delimiter: the first word.  For a text of several words the others are
lost, and without a word the null pointer goes to `terminal_writestring`.  Main
result: `echoes_iff`, the command does what it is for exactly for one word.
-/
import PotatoOS.Rename
import PotatoOS.Strtok

namespace PotatoOS.Shell

variable (out : Outside) {s : Shell} {T : List UInt8}

/-- The line "echo" with a text. -/
def echoLine (T : List UInt8) : List UInt8 := text "echo " ++ T

/-- The pointer that is passed to `terminal_writestring`; `none` is the null pointer. -/
def echoPointer (s : Shell) : Option Nat := (strtok s.inputBuffer inputBufferSize 5 (text " ")).1

/-- The newline key behind the line "echo T": the text is printed, up to spaces at its ends; for
a blank text nothing is, and no null pointer is used. -/
structure Echoes (out : Outside) (s : Shell) (T : List UInt8) : Prop where
  prints : (∃ b ∈ T, b ≠ 0x20) → ∃ p s', s.terminated.echoPointer = some p ∧
    s.terminated.command out = .running s' ∧ trim isSpace (s'.inputString p) = trim isSpace T ∧
    s'.terminal = terminalWritestring (terminalNewline s.terminal) (s'.inputString p)
  silent : (∀ b ∈ T, b = 0x20) → s.terminated.echoPointer ≠ none ∧
    ∃ s', s.terminated.command out = .running s' ∧ s'.terminal = terminalNewline s.terminal

/-! ### The line -/

theorem HasLine.rest {line : List UInt8} (h : s.HasLine line) :
    Tokenizer.Rest s.terminated.inputBuffer line.length 0 line where
  ends := Nat.zero_add _
  string i hi := by
    show s.terminated.inputBuffer (0 + i) = _
    rw [Nat.zero_add]
    rcases hi.lt_or_eq with hlt | rfl
    · exact h.terminated.getD hlt
    · rw [List.getD_eq_default _ _ (Nat.le_refl _), ← h.index]
      exact Function.update_self _ _ _
  nonzero := h.nonzero

/-- The text stands behind five characters. -/
theorem HasLine.rest_echo (h : s.HasLine (echoLine T)) :
    Tokenizer.Rest s.terminated.inputBuffer (5 + T.length) 5 T := by
  have hlen : (echoLine T).length = 5 + T.length := List.length_append
  have hrest := h.rest.append (d := text "echo ") (r := T)
  rw [hlen] at hrest
  exact hrest

theorem HasLine.command_echo (h : s.HasLine (echoLine T)) :
    s.terminated.command out = .running (s.terminated.echo out) := by
  have hline : s.terminated.inputString 0 = echoLine T := h.inputString
  have hne {t : List UInt8} (ht : t.head? ≠ some 0x65) : s.terminated.inputString 0 ≠ t := by
    rintro rfl
    rw [hline] at ht
    exact ht rfl
  have hecho : s.terminated.starts (text "echo ") 5 := by
    refine (strncmp_eq_zero_iff (by decide)).mpr fun i hi => ?_
    have hlen : (echoLine T).length = 5 + T.length := List.length_append
    rw [h.terminated.getD (by omega), echoLine, List.getD_append _ _ _ _ hi]
    rfl
  unfold Shell.command
  rw [if_neg (hne (by decide)), if_neg (hne (by decide)), if_pos hecho]

/-! ### The words of the text -/

/-- Spaces as `strtok` is told them. -/
theorem mem_delim : (fun b : UInt8 => decide (b ∈ text " ")) = isSpace := by
  funext b
  rw [show text " " = [0x20] by decide, isSpace]
  simp

theorem HasLine.length_text (h : s.HasLine (echoLine T)) : 5 + T.length < inputBufferSize := by
  have hlen : (echoLine T).length = 5 + T.length := List.length_append
  rw [← hlen]
  exact h.length

/-- What `strtok` returns for the text. -/
theorem HasLine.strtok_eq {token : Option Nat} {t' : Tokenizer} (h : s.HasLine (echoLine T))
    (htok : Tokenizer.takeToken (5 + T.length) 5 (text " ") ⟨s.terminated.inputBuffer, none⟩
      = (.value token, t')) :
    strtok s.terminated.inputBuffer inputBufferSize 5 (text " ") = (token, t'.mem) :=
  Tokenizer.strtok_shell_of_takeToken (t := ⟨s.terminated.inputBuffer, none⟩)
    h.rest_echo.terminator (Nat.le_add_right 5 _) h.length_text htok

/-- Without a word the pointer is null. -/
theorem HasLine.echoPointer_blank (h : s.HasLine (echoLine T)) (hT : ∀ b ∈ T, isSpace b = true) :
    s.terminated.echoPointer = none := by
  rw [← mem_delim] at hT
  have htok := h.strtok_eq
    (Tokenizer.takeToken_blank (t := ⟨s.terminated.inputBuffer, none⟩) h.rest_echo hT)
  rw [echoPointer, htok]

/-- The command prints the string at the pointer. -/
theorem echo_of_some {p : Nat} {m : Mem} {w : List UInt8}
    (htok : strtok s.inputBuffer inputBufferSize 5 (text " ") = (some p, m))
    (hw : (bytesAt m p (inputBufferSize - p)).takeWhile (· ≠ 0) = w) :
    (s.echo out).inputString p = w ∧
      (s.echo out).terminal = terminalWritestring (terminalNewline s.terminal) w := by
  have hstring : ({ s with inputBuffer := m } : Shell).inputString p = w := hw
  unfold Shell.echo
  simp only [htok, hstring]
  exact ⟨hw, rfl⟩

/-- The command prints a word of the line. -/
def PrintsWord (s : Shell) (w : List UInt8) : Prop :=
  ∃ p, s.terminated.echoPointer = some p ∧ (s.terminated.echo out).inputString p = w ∧
    (s.terminated.echo out).terminal = terminalWritestring (terminalNewline s.terminal) w

section

variable {d w r : List UInt8} {c : UInt8} (hd : ∀ b ∈ d, isSpace b = true) (hne : w ≠ [])
  (hw : ∀ b ∈ w, isSpace b = false)

include hd hne hw

theorem HasLine.printsWord_last (h : s.HasLine (echoLine (d ++ w))) : s.PrintsWord out w := by
  have hrest := h.rest_echo
  have hlen := h.length_text
  rw [List.length_append] at hlen
  rw [← mem_delim] at hd hw
  have htok := h.strtok_eq
    (Tokenizer.takeToken_last (t := ⟨s.terminated.inputBuffer, none⟩) hd hne hw hrest)
  have hword : Tokenizer.Rest s.terminated.inputBuffer (5 + (d ++ w).length) (5 + d.length)
      (w ++ []) := by
    rw [List.append_nil]
    exact hrest.append
  have hend : s.terminated.inputBuffer (5 + d.length + w.length) = 0 := by
    rw [Nat.add_assoc, ← List.length_append]
    exact hrest.terminator
  refine ⟨5 + d.length, by rw [echoPointer, htok], s.terminated.echo_of_some out htok ?_⟩
  exact hword.takeWhile_eq (fun _ _ => rfl) (by omega) fun _ => hend

theorem HasLine.printsWord_more (hc : isSpace c = true)
    (h : s.HasLine (echoLine (d ++ w ++ c :: r))) : s.PrintsWord out w := by
  have hrest := h.rest_echo
  have hlen := h.length_text
  rw [List.length_append, List.length_append] at hlen
  rw [List.append_assoc d w] at hrest
  rw [← mem_delim] at hd hw hc
  have htok := h.strtok_eq (by
    rw [List.append_assoc d w]
    exact Tokenizer.takeToken_more (t := ⟨s.terminated.inputBuffer, none⟩) hd hne hw hc hrest)
  refine ⟨5 + d.length, by rw [echoPointer, htok], s.terminated.echo_of_some out htok ?_⟩
  refine hrest.append.takeWhile_eq (fun a ha => ?_) (by omega) fun _ => Function.update_self _ _ _
  exact Function.update_of_ne (Nat.ne_of_lt ha) _ _

end

/-- What is printed must be the text, up to spaces at the ends. -/
theorem HasLine.echoes_iff_trim {w : List UInt8} (h : s.HasLine (echoLine T))
    (hword : s.PrintsWord out w) (hT : ∃ b ∈ T, b ≠ 0x20) :
    s.Echoes out T ↔ trim isSpace w = trim isSpace T := by
  obtain ⟨p, hp, hstring, hterminal⟩ := hword
  have hcommand := h.command_echo out
  constructor
  · rintro ⟨hprints, -⟩
    obtain ⟨p', s', hp', hs', htrim, -⟩ := hprints hT
    obtain rfl : p = p' := Option.some.inj (hp.symm.trans hp')
    obtain rfl : s.terminated.echo out = s' := Status.running.inj (hcommand.symm.trans hs')
    rwa [hstring] at htrim
  · intro htrim
    refine ⟨fun _ => ⟨p, _, hp, hcommand, ?_, ?_⟩, fun hblank => ?_⟩
    · rw [hstring, htrim]
    · rw [hstring, hterminal]
    · obtain ⟨b, hb, hne⟩ := hT
      exact absurd (hblank b hb) hne

/-- The command prints its text exactly if that is one word. -/
theorem echoes_iff (out : Outside) (s : Shell) (T : List UInt8) (h : s.HasLine (echoLine T)) :
    s.Echoes out T ↔ ∃ w, runs isSpace T = [w] := by
  cases runView isSpace T with
  | blank hT =>
      rw [runs_of_forall hT]
      refine iff_of_false (fun hE => ?_) ?_
      · exact (hE.silent fun b hb => of_decide_eq_true (hT b hb)).1 (h.echoPointer_blank hT)
      · rintro ⟨w, hw⟩
        exact List.cons_ne_nil w [] hw.symm
  | @last d w hd hne hw =>
      have hT : ∃ b ∈ d ++ w, b ≠ 0x20 := by
        obtain ⟨b, hb⟩ := List.exists_mem_of_ne_nil w hne
        exact ⟨b, List.mem_append_right d hb, of_decide_eq_false (hw b hb)⟩
      have htrim : trim isSpace w = w := trim_append_run (d := []) (List.forall_mem_nil _) hne hw
      rw [h.echoes_iff_trim out (h.printsWord_last out hd hne hw) hT, runs_append_run hd hne hw,
        trim_append_run hd hne hw]
      exact iff_of_true htrim ⟨w, rfl⟩
  | @more d w r c hd hne hw hc =>
      have hT : ∃ b ∈ d ++ w ++ c :: r, b ≠ 0x20 := by
        obtain ⟨b, hb⟩ := List.exists_mem_of_ne_nil w hne
        exact ⟨b, List.mem_append_left _ (List.mem_append_right d hb), of_decide_eq_false (hw b hb)⟩
      have htrim : trim isSpace w = w := trim_append_run (d := []) (List.forall_mem_nil _) hne hw
      rw [h.echoes_iff_trim out (h.printsWord_more out hd hne hw hc) hT,
        runs_append_run_cons hd hne hw hc, htrim, eq_comm, trim_append_run_cons_iff hd hne hw hc,
        ← runs_eq_nil_iff]
      -- no other word
      constructor
      · intro hr
        exact ⟨w, by rw [hr]⟩
      · rintro ⟨w', hw'⟩
        exact (List.cons.inj hw').2

/-- The shell with a line typed. -/
def withLine (line : List UInt8) : Shell :=
  { bootShell with inputBuffer := buffer line, inputBufferIndex := line.length }

theorem hasLine_withLine {line : List UInt8} (h₀ : 0 ∉ line)
    (hlen : line.length < inputBufferSize) : (withLine line).HasLine line :=
  ⟨rfl, rfl, bytesAt_eq_of_getD rfl fun _ _ => rfl, h₀, hlen⟩

/-- The text "hi", behind two spaces. -/
theorem echoes_hi : (withLine (echoLine (text "  hi"))).Echoes emptyOutside (text "  hi") :=
  (echoes_iff emptyOutside _ _ (hasLine_withLine (by decide) (by decide))).mpr
    ⟨text "hi", by decide⟩

/-- Of "a b" the first letter is printed, and a blank text is read through the null pointer. -/
theorem not_echoes_twoWords :
    ¬(withLine (echoLine (text "a b"))).Echoes emptyOutside (text "a b") ∧
      ¬(withLine (echoLine [])).Echoes emptyOutside [] := by
  constructor
  · have hline : (withLine (echoLine (text "a b"))).HasLine (echoLine (text "a b")) :=
      hasLine_withLine (by decide) (by decide)
    have hword : (withLine (echoLine (text "a b"))).PrintsWord emptyOutside [0x61] :=
      HasLine.printsWord_more (d := []) (r := [0x62]) (c := 0x20) emptyOutside
        (List.forall_mem_nil _) (List.cons_ne_nil _ _) (List.forall_mem_singleton.mpr rfl) rfl hline
    rw [hline.echoes_iff_trim emptyOutside hword ⟨0x61, by decide, by decide⟩]
    decide
  · intro hE
    have hline : (withLine (echoLine [])).HasLine (echoLine []) :=
      hasLine_withLine (by decide) (by decide)
    exact (hE.silent (List.forall_mem_nil _)).1 (hline.echoPointer_blank (List.forall_mem_nil _))

end PotatoOS.Shell
