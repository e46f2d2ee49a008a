/-
PotatoOS/Render.lean

`printf` of libc, counted as an `int` counts.

The function sends characters to `putchar` and newlines to the terminal, and
returns their number, or -1 when there would be more than `INT_MAX` of them.
`render` says what a format stands for, one character after the other; the loop
takes the literal text in runs.  Each conversion compares what it is about to
send with the room that is left, except for `%n`: at `INT_MAX` the increment of
the counter overflows, and the run stops there as undefined.

How a run ends is settled by what stands at position `INT_MAX` of the rendering
(`ends_loop`): nothing, and everything is sent; a character, and the result is
-1; a newline, and the counter overflows.  Main result: `renders_iff`.  Where
the counter does not overflow, the loop is that of the terminal
(`agrees_loop`).
-/
import Mathlib.Data.List.TakeWhile
import PotatoOS.Format

namespace PotatoOS

namespace Stdio

open Prog

/-! ### The function -/

/-- `EOF`. -/
def eof : Int := -1

/-- `INT_MAX`. -/
def intMax : Nat := 2 ^ 31 - 1

/-- The byte goes out and comes back as an `int`. -/
def putchar (ic : UInt8) : Prog (List Output) Int := do
  modify (· ++ [.char ic])
  return ic.toNat

/-- `print`: one `putchar` for each byte, until one fails. -/
def print : List UInt8 → Prog (List Output) Bool
  | [] => return true
  | c :: bytes => do
      let ic ← putchar c
      if ic = eof then return false else print bytes

/-- A newline on the terminal. -/
def newline : Prog (List Output) Unit := modify (· ++ [.newline])

/-- An addition to the counter. -/
def count (written n : Nat) : Prog (List Output) Nat :=
  if written + n ≤ intMax then return written + n else halt .undefined

/-- What all branches of the loop but one do with their characters: compare with
the room that is left, print and count. -/
def send (written : Nat) (data : List UInt8) (next : Nat → Prog (List Output) Int) :
    Prog (List Output) Int :=
  if intMax - written < data.length then return -1
  else do
    let ok ← print data
    if ok then do
      let written ← count written data.length
      next written
    else return -1

/-- The branch of `%n`, which does not compare. -/
def sendNewline (written : Nat) (next : Nat → Prog (List Output) Int) :
    Prog (List Output) Int := do
  newline
  let written ← count written 1
  next written

/-- The loop of `printf`: `i` arguments have been read and `written` operations
have been counted. -/
def loop (args : Nat → Vararg) (format : List UInt8) (i written : Nat) :
    Prog (List Output) Int :=
  match format with
  | [] => return written
  | c :: rest =>
      if c ≠ 0x25 ∨ rest.head? = some 0x25 then
        -- of two percent signs the first is skipped
        let format := if c = 0x25 then rest else c :: rest
        let amount := ((format.drop 1).takeWhile (· ≠ 0x25)).length + 1
        send written (format.take amount) fun written => loop args (format.drop amount) i written
      else match rest with
        | 0x63 :: rest =>
            send written [(args i).char] fun written => loop args rest (i + 1) written
        | 0x6E :: rest => sendNewline written fun written => loop args rest i written
        | 0x73 :: rest =>
            send written (args i).string fun written => loop args rest (i + 1) written
        | rest => send written (0x25 :: rest) fun written => loop args [] i written
termination_by format.length
decreasing_by
  · simp_wf
    split
    · omega
    · simp
  all_goals simp_wf

/-- `printf` of libc, with the number of characters or -1 as its result. -/
def printf (args : Nat → Vararg) (format : List UInt8) : Prog (List Output) Int :=
  loop args format 0 0

/-! ### What a format stands for -/

/-- The rendering of a format whose conversions take the arguments from `i` on. -/
def render (args : Nat → Vararg) : List UInt8 → Nat → List Output
  | [], _ => []
  | c :: rest, i =>
      if c ≠ 0x25 then .char c :: render args rest i
      else match rest with
        | [] => [.char 0x25]
        | d :: rest =>
            if d = 0x25 then .char 0x25 :: render args rest i
            else if d = 0x63 then .char (args i).char :: render args rest (i + 1)
            else if d = 0x6E then .newline :: render args rest i
            else if d = 0x73 then (args i).string.map .char ++ render args rest (i + 1)
            else (0x25 :: d :: rest).map .char

/-- The function returns without an overflow of its counter; a count that it
returns is that of the rendering, which has been sent. -/
def Renders (args : Nat → Vararg) (format : List UInt8) : Prop :=
  ∃ k sent, printf args format [] = (.value k, sent) ∧
    (0 ≤ k → sent = render args format 0 ∧ k = sent.length)

section

variable {args : Nat → Vararg} {format rest data : List UInt8} {i written : Nat}
  {sent sent' out : List Output} {next : Nat → Prog (List Output) Int}

theorem render_literal {c : UInt8} (h : c ≠ 0x25) :
    render args (c :: rest) i = .char c :: render args rest i := by
  conv_lhs => unfold render
  exact if_pos h

/-- Literal text is rendered as it is. -/
theorem render_text (h : ∀ c ∈ data, c ≠ 0x25) :
    render args (data ++ rest) i = data.map .char ++ render args rest i := by
  induction data with
  | nil => rfl
  | cons c data ih =>
      rw [List.cons_append, render_literal (h c List.mem_cons_self),
        ih fun d hd => h d (List.mem_cons_of_mem c hd)]
      rfl

theorem render_takeWhile (rest : List UInt8) :
    render args rest i = (rest.takeWhile (· ≠ 0x25)).map .char
      ++ render args (rest.dropWhile (· ≠ 0x25)) i := by
  have htext : ∀ c ∈ rest.takeWhile (· ≠ 0x25), c ≠ 0x25 := by
    intro c hc
    simpa using List.mem_takeWhile_imp hc
  rw [← render_text htext, List.takeWhile_append_dropWhile]

/-- The run that the loop takes from a format at once. -/
theorem render_run {c : UInt8} (h : c ≠ 0x25 ∨ rest.head? = some 0x25) :
    let format := if c = 0x25 then rest else c :: rest
    let amount := ((format.drop 1).takeWhile (· ≠ 0x25)).length + 1
    render args (c :: rest) i
      = (format.take amount).map .char ++ render args (format.drop amount) i := by
  have hrun (c : UInt8) (rest : List UInt8) :
      .char c :: render args rest i
        = ((c :: rest).take ((rest.takeWhile (· ≠ 0x25)).length + 1)).map .char
          ++ render args ((c :: rest).drop ((rest.takeWhile (· ≠ 0x25)).length + 1)) i := by
    rw [List.take_succ_cons, List.drop_succ_cons, take_takeWhile, drop_takeWhile,
      render_takeWhile rest]
    rfl
  by_cases hc : c = 0x25
  · obtain ⟨rest, rfl⟩ := List.head?_eq_some_iff.mp (h.resolve_left (not_not.mpr hc))
    simp only [hc, if_true]
    exact hrun 0x25 rest
  · simp only [if_neg hc]
    rw [render_literal hc]
    exact hrun c rest

/-- The first branch of the loop leaves percent signs only. -/
theorem eq_percent {c : UInt8} (h : ¬(c ≠ 0x25 ∨ rest.head? = some 0x25)) : c = 0x25 :=
  not_not.mp fun hc => h (.inl hc)

/-- And the last one is for those that are not interpreted. -/
theorem not_mem_conversions {c : UInt8} (h : ¬(c ≠ 0x25 ∨ rest.head? = some 0x25))
    (hc : ∀ tail, rest ≠ 0x63 :: tail) (hn : ∀ tail, rest ≠ 0x6E :: tail)
    (hs : ∀ tail, rest ≠ 0x73 :: tail) : ∀ d ∈ rest.head?, d ∉ conversions := by
  rintro d hd hconv
  obtain ⟨tail, rfl⟩ := List.head?_eq_some_iff.mp hd
  rcases mem_conversions.mp hconv with rfl | rfl | rfl | rfl
  · exact h (.inr rfl)
  · exact hc tail rfl
  · exact hn tail rfl
  · exact hs tail rfl

/-- A percent sign that is not interpreted is rendered with all that follows. -/
theorem render_other (h : ∀ d ∈ rest.head?, d ∉ conversions) :
    render args (0x25 :: rest) i = (0x25 :: rest).map .char := by
  rcases rest with - | ⟨d, rest⟩
  · rfl
  · have hd := h d rfl
    simp only [mem_conversions, not_or] at hd
    conv_lhs => unfold render
    simp [hd]

/-! ### How a run ends -/

/-- The end of a run that has `out` before it, by what stands where the counter is full. -/
inductive Ends (written : Nat) (sent out : List Output) : Outcome Int × List Output → Prop
  | done (h : written + out.length ≤ intMax) :
      Ends written sent out (.value (written + out.length : Nat), sent ++ out)
  | full {c : UInt8} {sent' : List Output} (h : out[intMax - written]? = some (.char c)) :
      Ends written sent out (.value (-1), sent')
  | overflow {sent' : List Output} (h : out[intMax - written]? = some .newline) :
      Ends written sent out (.stop .undefined, sent')

/-- What fits can be sent first. -/
theorem Ends.append {r : Outcome Int × List Output} (front : List Output)
    (hfits : written + front.length ≤ intMax)
    (h : Ends (written + front.length) (sent ++ front) out r) :
    Ends written sent (front ++ out) r := by
  have hindex : (front ++ out)[intMax - written]?
      = out[intMax - (written + front.length)]? := by
    rw [List.getElem?_append_right (by omega), Nat.sub_sub]
  cases h with
  | done h =>
      rw [Nat.add_assoc, ← List.length_append, List.append_assoc]
      exact .done (by rwa [List.length_append, ← Nat.add_assoc])
  | full h => exact .full (hindex.trans h)
  | overflow h => exact .overflow (hindex.trans h)

/-- A byte is no end of file. -/
theorem print_eq (data : List UInt8) (sent : List Output) :
    print data sent = (.value true, sent ++ data.map .char) := by
  induction data generalizing sent with
  | nil => rw [print, List.map_nil, List.append_nil]; rfl
  | cons c data ih =>
      have hbyte : (c.toNat : Int) ≠ eof := by
        rw [eof]
        omega
      have hput : putchar c sent = (.value (c.toNat : Int), sent ++ [.char c]) := rfl
      rw [print, bind_value hput, if_neg hbyte, ih, List.append_assoc]
      rfl

theorem send_full (h : intMax - written < data.length) :
    send written data next sent = (.value (-1), sent) := by
  rw [send, if_pos h]
  rfl

theorem send_fits (h : written + data.length ≤ intMax) :
    send written data next sent
      = next (written + data.length) (sent ++ data.map .char) := by
  rw [send, if_neg (by omega), bind_value (print_eq data sent), if_pos rfl, count, if_pos h]
  rfl

theorem sendNewline_fits (h : written + 1 ≤ intMax) :
    sendNewline written next sent = next (written + 1) (sent ++ [.newline]) := by
  rw [sendNewline, newline, modify_bind, count, if_pos h]
  rfl

theorem sendNewline_overflow (h : ¬written + 1 ≤ intMax) :
    sendNewline written next sent = (.stop .undefined, sent ++ [.newline]) := by
  rw [sendNewline, newline, modify_bind, count, if_neg h]
  rfl

theorem ends_send (data : List UInt8) (sent : List Output) (hw : written ≤ intMax)
    (hnext : ∀ w ≤ intMax, ∀ sent, Ends w sent out (next w sent)) :
    Ends written sent (data.map .char ++ out) (send written data next sent) := by
  by_cases hfits : written + data.length ≤ intMax
  · rw [send_fits hfits]
    apply Ends.append (data.map .char)
    · rwa [List.length_map]
    · rw [List.length_map]
      exact hnext _ hfits _
  · have hroom : intMax - written < data.length := by omega
    rw [send_full hroom]
    apply Ends.full
    rw [List.getElem?_append_left (by rwa [List.length_map]), List.getElem?_map,
      List.getElem?_eq_getElem hroom]
    rfl

theorem ends_sendNewline (sent : List Output) (hw : written ≤ intMax)
    (hnext : ∀ w ≤ intMax, ∀ sent, Ends w sent out (next w sent)) :
    Ends written sent (.newline :: out) (sendNewline written next sent) := by
  by_cases hfits : written + 1 ≤ intMax
  · rw [sendNewline_fits hfits]
    exact Ends.append [.newline] hfits (hnext _ hfits _)
  · rw [sendNewline_overflow hfits]
    apply Ends.overflow
    rw [show intMax - written = 0 by omega]
    rfl

/-- The end of the loop, by induction on its rounds. -/
theorem ends_loop (hw : written ≤ intMax) (sent : List Output) :
    Ends written sent (render args format i) (loop args format i written sent) := by
  fun_induction loop args format i written generalizing sent with
  | case1 i written =>
      have hdone : Ends written sent [] (.value written, sent ++ []) := .done hw
      rwa [List.append_nil] at hdone
  | case2 i written c rest h run amount ih =>
      rw [render_run h]
      exact ends_send _ sent hw ih
  | case3 i written c rest h ih =>
      obtain rfl := eq_percent h
      exact ends_send [(args i).char] sent hw ih
  | case4 i written c rest h ih =>
      obtain rfl := eq_percent h
      exact ends_sendNewline sent hw ih
  | case5 i written c rest h ih =>
      obtain rfl := eq_percent h
      exact ends_send _ sent hw ih
  | case6 i written c rest hc hn hs h ih =>
      obtain rfl := eq_percent h
      -- the rest of the format goes out as it stands, which is what `render` says of it
      have hrest := not_mem_conversions h hc hn hs
      have hend := ends_send (0x25 :: rest) sent hw ih
      rwa [render, List.append_nil, ← render_other hrest] at hend

/-- The newline that comes after `INT_MAX` operations overflows the counter. -/
theorem not_renders_of_newline (h : (render args format 0)[intMax]? = some .newline) :
    ¬Renders args format := by
  rintro ⟨k, sent, hrun, -⟩
  have hend : Ends 0 [] (render args format 0) (printf args format []) :=
    ends_loop (Nat.zero_le _) []
  rw [hrun] at hend
  cases hend with
  | done hlen =>
      rw [Nat.zero_add] at hlen
      rw [List.getElem?_eq_none hlen] at h
      cases h
  | full hchar => cases hchar.symm.trans h

/-- Only the newline of `%n` can overflow the counter, as the operation after
`INT_MAX` others; in all other cases a format is rendered. -/
theorem renders_iff (args : Nat → Vararg) (format : List UInt8) :
    Renders args format ↔ (render args format 0)[2 ^ 31 - 1]? ≠ some .newline := by
  refine ⟨fun hr hnewline => not_renders_of_newline hnewline hr, fun hnewline => ?_⟩
  have hend : Ends 0 [] (render args format 0) (printf args format []) :=
    ends_loop (Nat.zero_le _) []
  rw [Renders]
  generalize printf args format [] = r at hend ⊢
  cases hend with
  | done _ =>
      rw [Nat.zero_add]
      exact ⟨_, _, rfl, fun _ => ⟨rfl, rfl⟩⟩
  | full _ => exact ⟨_, _, rfl, fun hk => absurd hk (by decide)⟩
  | overflow h => exact absurd h hnewline

/-- One string printed over and over, some text and a newline. -/
theorem render_filled (v : Vararg) (h : ∀ c ∈ data, c ≠ 0x25) (n i : Nat) :
    ∃ front : List Output, front.length = n * v.string.length + data.length ∧
      render (fun _ => v) ((List.replicate n [0x25, 0x73]).flatten ++ (data ++ [0x25, 0x6E])) i
        = front ++ [.newline] := by
  induction n generalizing i with
  | zero =>
      refine ⟨data.map .char, ?_, render_text h⟩
      rw [List.length_map, Nat.zero_mul, Nat.zero_add]
  | succ n ih =>
      obtain ⟨front, hlen, hfront⟩ := ih (i + 1)
      refine ⟨v.string.map .char ++ front, ?_, ?_⟩
      · rw [List.length_append, List.length_map, hlen, Nat.succ_mul]
        omega
      · rw [List.append_assoc, ← hfront]
        rfl

/-- 32768 strings of 65535 characters, 32767 more characters and a `%n`. -/
def longFormat : List UInt8 :=
  (List.replicate 32768 [0x25, 0x73]).flatten ++ (List.replicate 32767 0x61 ++ [0x25, 0x6E])

/-- A string of 65535 characters. -/
def longArgument : Vararg := ⟨0, List.replicate 65535 0x61⟩

theorem not_renders_long : ¬Renders (fun _ => longArgument) longFormat := by
  have htext : ∀ c ∈ List.replicate 32767 (0x61 : UInt8), c ≠ 0x25 := by
    intro c hc
    rw [List.eq_of_mem_replicate hc]
    decide
  obtain ⟨front, hlen, hfront⟩ := render_filled longArgument htext 32768 0
  have hstring : longArgument.string.length = 65535 := List.length_replicate
  rw [hstring, List.length_replicate] at hlen
  apply not_renders_of_newline
  rw [longFormat, hfront, show intMax = front.length from hlen.symm]
  exact List.getElem?_concat_length

/-! ### The terminal -/

/-- The returning runs of a program do to the terminal what `p` does. -/
def Agrees (m : Prog (List Output) Int) (p : Terminal → Int × Terminal) : Prop :=
  ∀ sent k sent', m sent = (.value k, sent') → ∀ t, ∃ out, sent' = sent ++ out ∧
    p t = (k, out.foldl Output.apply t)

variable {p q : Terminal → Int × Terminal}

theorem Agrees.congr {m : Prog (List Output) Int} (h : Agrees m p) (heq : ∀ t, q t = p t) :
    Agrees m q := by
  rwa [funext heq]

theorem agrees_send (hw : written ≤ intMax)
    (hnext : written + data.length ≤ intMax → Agrees (next (written + data.length)) p) :
    Agrees (send written data next)
      (fun t => if intMax - written < data.length then (-1, t) else p (terminalWrite t data)) := by
  intro sent k sent' hrun t
  by_cases hroom : intMax - written < data.length
  · rw [send_full hroom] at hrun
    cases hrun
    exact ⟨[], (List.append_nil _).symm, if_pos hroom⟩
  · have hfits : written + data.length ≤ intMax := by omega
    rw [send_fits hfits] at hrun
    obtain ⟨out, hout, hp⟩ := hnext hfits _ _ _ hrun (terminalWrite t data)
    refine ⟨data.map .char ++ out, by rw [hout, List.append_assoc], ?_⟩
    rw [List.foldl_append, foldl_apply_chars]
    exact (if_neg hroom).trans hp

theorem agrees_sendNewline (hnext : written + 1 ≤ intMax → Agrees (next (written + 1)) p) :
    Agrees (sendNewline written next) (fun t => p (terminalNewline t)) := by
  intro sent k sent' hrun t
  by_cases hfits : written + 1 ≤ intMax
  · rw [sendNewline_fits hfits] at hrun
    obtain ⟨out, hout, hp⟩ := hnext hfits _ _ _ hrun (terminalNewline t)
    exact ⟨.newline :: out, by rw [hout, List.append_assoc]; rfl, hp⟩
  · rw [sendNewline_overflow hfits] at hrun
    cases hrun

/-- The run that the loop takes is not empty. -/
theorem length_take_run {c : UInt8} (h : c ≠ 0x25 ∨ rest.head? = some 0x25) :
    let format := if c = 0x25 then rest else c :: rest
    let amount := ((format.drop 1).takeWhile (· ≠ 0x25)).length + 1
    (format.take amount).length = amount := by
  have hlen (c : UInt8) (rest : List UInt8) :
      (rest.takeWhile (· ≠ 0x25)).length + 1 ≤ (c :: rest).length :=
    Nat.succ_le_succ (List.takeWhile_sublist _).length_le
  by_cases hc : c = 0x25
  · obtain ⟨rest, rfl⟩ := List.head?_eq_some_iff.mp (h.resolve_left (not_not.mpr hc))
    simp only [hc, if_true]
    exact List.length_take_of_le (hlen 0x25 rest)
  · simp only [if_neg hc]
    exact List.length_take_of_le (hlen c rest)

/-- Where the counter does not overflow, this is the loop that the terminal sees. -/
theorem agrees_loop (hw : written ≤ intMax) :
    Agrees (loop args format i written) (printfLoop args format i written) := by
  fun_induction loop args format i written with
  | case1 i written =>
      intro sent k sent' hrun t
      cases hrun
      exact ⟨[], (List.append_nil _).symm, by rw [printfLoop]; rfl⟩
  | case2 i written c rest h run amount ih =>
      -- a run of plain characters is sent at once
      refine (agrees_send hw (ih _)).congr fun t => ?_
      rw [show (run.take amount).length = amount from length_take_run h]
      conv_lhs => unfold printfLoop
      exact if_pos h
  | case3 i written c rest h ih =>
      obtain rfl := eq_percent h
      refine (agrees_send hw (ih _)).congr fun t => ?_
      rw [printfLoop, if_neg h]
      simp only [List.length_singleton, Nat.lt_one_iff]
      rfl
  | case4 i written c rest h ih =>
      obtain rfl := eq_percent h
      refine (agrees_sendNewline (ih _)).congr fun t => ?_
      rw [printfLoop, if_neg h]
  | case5 i written c rest h ih =>
      obtain rfl := eq_percent h
      refine (agrees_send hw (ih _)).congr fun t => ?_
      rw [printfLoop, if_neg h]
      rfl
  | case6 i written c rest hc hn hs h ih =>
      obtain rfl := eq_percent h
      -- an unknown conversion sends the rest of the format and ends there
      have hend (w : Nat) (t : Terminal) : printfLoop args [] i w t = ((w : Int), t) := by
        rw [printfLoop]
      refine (agrees_send hw (ih _)).congr fun t => ?_
      rw [hend, printfLoop, if_neg h]
      · rfl
      · exact hc
      · exact hn
      · exact hs

/-- A call that returns leaves the terminal as the operations that it sent do. -/
theorem printf_terminal {k : Int} (h : printf args format [] = (.value k, sent)) (t : Terminal) :
    PotatoOS.printf args format t = sent.foldl Output.apply t := by
  obtain ⟨out, rfl, hloop⟩ := agrees_loop (Nat.zero_le _) _ _ _ h t
  exact congrArg Prod.snd hloop

end

end Stdio

end PotatoOS
