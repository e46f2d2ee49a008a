/-
PotatoOS/Strtok.lean

`strtok` of tty.c, with the static pointer it keeps from call to call.

The string is an object of the C program: it ends with its terminator, at
`stop`, and a read behind it is undefined, as is a read through a null pointer.
A call takes the next run of characters that are no delimiters, puts a 0 behind
it and keeps a pointer to the rest.  The pointer is cleared when there is no run
left, but also behind a run that reaches the end of the string; the next call
then reads through it.  So the calls that are defined are the runs, and one more
if the string does not end in a run (`definedCalls`).  Main result:
`tokenizes_iff`.
-/
import PotatoOS.Codec
import PotatoOS.Line
import PotatoOS.Runs

namespace PotatoOS

open Prog

/-! ### The functions -/

/-- The position of a character in a string. -/
def strchr : List UInt8 → UInt8 → Option Nat
  | [], _ => none
  | b :: s, c => if b = c then some 0 else (strchr s c).map (· + 1)

/-- Memory, and the static pointer; `none` is the null pointer. -/
structure Tokenizer where
  mem : Mem
  last : Option Nat

namespace Tokenizer

/-- The loops `while (pass) str++`; `n` bytes of the object are left. -/
def skip (pass : UInt8 → Bool) : Nat → Nat → Prog Tokenizer Nat
  | 0, _ => halt .undefined
  | n + 1, str => do
      let b ← gets (·.mem str)
      if pass b then skip pass n (str + 1) else return str

/-- A delimiter, and a character that is none; neither is the terminator. -/
def isDelim (delim : List UInt8) (b : UInt8) : Bool := b ≠ 0 && (strchr delim b).isSome

/-- A character that is neither the terminator nor a delimiter. -/
def isText (delim : List UInt8) (b : UInt8) : Bool := b ≠ 0 && !(strchr delim b).isSome

/-- Behind the token: end it with a 0 and keep the rest, if there is one. -/
def cut (t : Tokenizer) (str : Nat) : Tokenizer :=
  if t.mem str ≠ 0 then { mem := Function.update t.mem str 0, last := some (str + 1) }
  else { t with last := none }

/-- The token at a pointer that is not null. -/
def takeToken (stop str : Nat) (delim : List UInt8) : Prog Tokenizer (Option Nat) := do
  let str ← skip (isDelim delim) (stop + 1 - str) str
  let b ← gets (·.mem str)
  if b = 0 then do
    modify ({ · with last := none })
    return none
  else do
    let currentToken := str
    let str ← skip (isText delim) (stop + 1 - str) str
    modify (·.cut str)
    return some currentToken

/-- `strtok`: without a string the call goes on where the last one has stopped. -/
def strtok (stop : Nat) (str : Option Nat) (delim : List UInt8) : Prog Tokenizer (Option Nat) := do
  let last ← gets (·.last)
  match str.or last with
  | none => halt .undefined
  | some str => takeToken stop str delim

/-- `n` calls: the first one gets `str`, all others a null pointer. -/
def strtokCalls (stop : Nat) (delim : List UInt8) :
    Nat → Option Nat → Prog Tokenizer (List (Option Nat))
  | 0, _ => pure []
  | n + 1, str => do
      let token ← strtok stop str delim
      let tokens ← strtokCalls stop delim n none
      return token :: tokens

/-! ### One call -/

theorem strchr_isSome (s : List UInt8) (c : UInt8) : (strchr s c).isSome = decide (c ∈ s) := by
  induction s with
  | nil => rfl
  | cons b s ih =>
      rw [strchr]
      by_cases h : b = c
      · simp [h]
      · rw [if_neg h, Option.isSome_map, ih]
        simp [Ne.symm h]

section

variable {t : Tokenizer} {pass : UInt8 → Bool} {stop p k n : Nat} {delim d w r : List UInt8}
  {c : UInt8}

theorem skip_of_pos (h : pass (t.mem p) = true) :
    skip pass (n + 1) p t = skip pass n (p + 1) t := by
  rw [skip, gets_bind, if_pos h]

theorem skip_of_neg (h : pass (t.mem p) = false) : skip pass (n + 1) p t = (.value p, t) := by
  rw [skip, gets_bind, if_neg (by rw [h]; exact Bool.false_ne_true)]
  rfl

/-- From `p` on the memory holds the string `r`, with its terminator at `stop`. -/
structure Rest (m : Mem) (stop p : Nat) (r : List UInt8) : Prop where
  ends : p + r.length = stop
  string : HoldsString (fun i => m (p + i)) r
  nonzero : 0 ∉ r

namespace Rest

variable {m m' : Mem} {b : UInt8}

theorem head (h : Rest m stop p r) : m p = r.headD 0 := by
  have hp := h.string 0 (Nat.zero_le _)
  cases r with
  | nil => exact hp
  | cons b r => exact hp

theorem terminator (h : Rest m stop p r) : m stop = 0 := by
  rw [← h.ends]
  exact (h.string _ (Nat.le_refl _)).trans (List.getD_eq_default _ _ (Nat.le_refl _))

theorem tail (h : Rest m stop p (b :: r)) : Rest m stop (p + 1) r where
  ends := by
    rw [← h.ends, List.length_cons]
    omega
  string i hi := by
    have hb := h.string (i + 1) (Nat.succ_le_succ hi)
    rw [List.getD_cons_succ] at hb
    rw [← hb]
    show m (p + 1 + i) = m (p + (i + 1))
    rw [Nat.add_assoc, Nat.add_comm 1 i]
  nonzero hr := h.nonzero (.tail _ hr)

theorem append (h : Rest m stop p (d ++ r)) : Rest m stop (p + d.length) r := by
  induction d generalizing p with
  | nil => exact h
  | cons b d ih =>
      have hr := ih h.tail
      rwa [List.length_cons, Nat.add_comm d.length, ← Nat.add_assoc]

theorem congr (h : Rest m stop p r) (hm : ∀ a, p ≤ a → m' a = m a) : Rest m' stop p r :=
  { h with string := fun i hi => (hm _ (Nat.le_add_right p i)).trans (h.string i hi) }

/-- The loop passes over the characters in front, and stops at the first other one. -/
theorem skip_eq (h : Rest t.mem stop p (d ++ r)) (pass : UInt8 → Bool)
    (hd : ∀ b ∈ d, pass b = true) (hr : pass (r.headD 0) = false) :
    skip pass (stop + 1 - p) p t = (.value (p + d.length), t) := by
  have hn : stop + 1 - p = d.length + r.length + 1 := by
    rw [← h.ends, List.length_append]
    omega
  rw [hn]
  clear hn
  induction d generalizing p with
  | nil =>
      rw [List.nil_append] at h
      rw [← h.head] at hr
      rw [List.length_nil, Nat.zero_add]
      exact skip_of_neg hr
  | cons b d ih =>
      rw [List.forall_mem_cons] at hd
      have hb : pass (t.mem p) = true := by
        rw [h.head]
        exact hd.1
      have hlen : (b :: d).length + r.length + 1 = d.length + r.length + 1 + 1 := by
        rw [List.length_cons]
        omega
      rw [hlen, skip_of_pos hb, ih h.tail hd.2, List.length_cons]
      congr 2
      omega

end Rest

theorem isDelim_eq (delim : List UInt8) {b : UInt8} (h : b ≠ 0) :
    isDelim delim b = decide (b ∈ delim) := by
  rw [isDelim, strchr_isSome]
  simp [h]

theorem isText_eq (delim : List UInt8) {b : UInt8} (h : b ≠ 0) :
    isText delim b = !decide (b ∈ delim) := by
  rw [isText, strchr_isSome]
  simp [h]

/-- Only delimiters are left. -/
theorem takeToken_blank (h : Rest t.mem stop p r) (hr : ∀ b ∈ r, decide (b ∈ delim) = true) :
    takeToken stop p delim t = (.value none, { t with last := none }) := by
  have h' : Rest t.mem stop p (r ++ []) := by rwa [List.append_nil]
  have hskip := h'.skip_eq (isDelim delim)
    (fun b hb => (isDelim_eq delim fun e => h.nonzero (e ▸ hb)).trans (hr b hb)) rfl
  have hend : t.mem (p + r.length) = 0 := h'.append.head
  rw [takeToken, bind_value hskip, gets_bind, if_pos hend]
  rfl

section

variable (hd : ∀ b ∈ d, decide (b ∈ delim) = true) (hne : w ≠ [])
  (hw : ∀ b ∈ w, decide (b ∈ delim) = false)

include hd hne hw

/-- The first loop ends at the token. -/
theorem skip_token (h : Rest t.mem stop p (d ++ (w ++ r))) :
    skip (isDelim delim) (stop + 1 - p) p t = (.value (p + d.length), t) ∧
      t.mem (p + d.length) ≠ 0 := by
  obtain ⟨b, w, rfl⟩ := List.exists_cons_of_ne_nil hne
  rw [List.cons_append] at h
  have h₀ := h.nonzero
  rw [List.mem_append, List.mem_cons, not_or, not_or] at h₀
  have hb : b ≠ 0 := Ne.symm h₀.2.1
  refine ⟨h.skip_eq (isDelim delim) (fun b hb => ?_) ?_, ?_⟩
  · exact (isDelim_eq delim fun e => h₀.1 (e ▸ hb)).trans (hd b hb)
  · exact (isDelim_eq delim hb).trans (hw b List.mem_cons_self)
  · rw [h.append.head]
    exact hb

/-- The token is the rest of the string. -/
theorem takeToken_last (h : Rest t.mem stop p (d ++ w)) :
    takeToken stop p delim t = (.value (some (p + d.length)), { t with last := none }) := by
  have h' : Rest t.mem stop p (d ++ (w ++ [])) := by rwa [List.append_nil]
  obtain ⟨hskip, hb⟩ := skip_token hd hne hw h'
  have htext := h'.append.skip_eq (isText delim) (fun b hb => by
    rw [isText_eq delim fun e => h'.append.nonzero (by rw [List.append_nil]; exact e ▸ hb), hw b hb]
    rfl) rfl
  have hend : t.mem (p + d.length + w.length) = 0 := h'.append.append.head
  rw [takeToken, bind_value hskip, gets_bind, if_neg hb, bind_value htext, modify_bind, cut,
    if_neg (not_not.mpr hend)]
  rfl

/-- There is a delimiter behind the token. -/
theorem takeToken_more (hc : decide (c ∈ delim) = true)
    (h : Rest t.mem stop p (d ++ (w ++ c :: r))) :
    takeToken stop p delim t = (.value (some (p + d.length)),
      ⟨Function.update t.mem (p + d.length + w.length) 0, some (p + d.length + w.length + 1)⟩) := by
  obtain ⟨hskip, hb⟩ := skip_token hd hne hw h
  have h₀ := h.append.nonzero
  rw [List.mem_append, List.mem_cons, not_or, not_or] at h₀
  have hc₀ : c ≠ 0 := Ne.symm h₀.2.1
  have htext := h.append.skip_eq (isText delim) (fun b hb => by
    rw [isText_eq delim fun e => h₀.1 (e ▸ hb), hw b hb]
    rfl) (by
    show isText delim c = false
    rw [isText_eq delim hc₀, hc]
    rfl)
  have hend : t.mem (p + d.length + w.length) ≠ 0 := by
    rw [h.append.append.head]
    exact hc₀
  rw [takeToken, bind_value hskip, gets_bind, if_neg hb, bind_value htext, modify_bind, cut,
    if_pos hend]
  rfl

end

end

/-! ### All calls -/

/-- The string at a pointer into the object. -/
def tokenString (m : Mem) (stop p : Nat) : List UInt8 := (bytesAt m p (stop - p)).takeWhile (· ≠ 0)

/-- `n` calls return pointers to the runs of the string, in their order, and then null. -/
def Tokenizes (t : Tokenizer) (start : Nat) (s delim : CString) (n : Nat) : Prop :=
  ∃ tokens t', strtokCalls (start + s.1.length) delim.1 n (some start) t = (.value tokens, t') ∧
    tokens.map (·.map (tokenString t'.mem (start + s.1.length))) =
      (List.range n).map ((runs (· ∈ delim.1) s.1)[·]?)

/-- How many calls do not read through the null pointer. -/
def definedCalls (delim s : List UInt8) : Nat :=
  (runs (· ∈ delim) s).length + if s.getLast?.any (· ∉ delim) then 0 else 1

section

variable {t : Tokenizer} {stop p n : Nat} {delim d w r : List UInt8} {c : UInt8} {q : Option Nat}

theorem definedCalls_blank (h : ∀ b ∈ r, decide (b ∈ delim) = true) : definedCalls delim r = 1 := by
  have hlast : ¬r.getLast?.any (· ∉ delim) = true := by
    intro hany
    obtain ⟨b, hb, hnot⟩ := (Option.any_eq_true _ _).mp hany
    exact of_decide_eq_true hnot (of_decide_eq_true (h b (List.mem_of_getLast? hb)))
  rw [definedCalls, runs_of_forall h, if_neg hlast]
  rfl

section

variable (hd : ∀ b ∈ d, decide (b ∈ delim) = true) (hne : w ≠ [])
  (hw : ∀ b ∈ w, decide (b ∈ delim) = false)

include hd hne hw

theorem definedCalls_last : definedCalls delim (d ++ w) = 1 := by
  have hlast : (d ++ w).getLast?.any (· ∉ delim) = true := by
    rw [List.getLast?_append_of_ne_nil d hne, List.getLast?_eq_some_getLast hne]
    exact decide_eq_true (of_decide_eq_false (hw _ (List.getLast_mem hne)))
  rw [definedCalls, runs_append_run hd hne hw, if_pos hlast]
  rfl

theorem definedCalls_more (hc : decide (c ∈ delim) = true) :
    definedCalls delim (d ++ w ++ c :: r) = definedCalls delim r + 1 := by
  have hlast : (d ++ w ++ c :: r).getLast?.any (· ∉ delim) = r.getLast?.any (· ∉ delim) := by
    rw [List.getLast?_append_of_ne_nil _ (List.cons_ne_nil c r), List.getLast?_cons]
    cases r.getLast? with
    | none => exact decide_eq_false (not_not.mpr (of_decide_eq_true hc))
    | some b => rfl
  rw [definedCalls, runs_append_run_cons hd hne hw hc, hlast, List.length_cons, definedCalls]
  omega

end

/-- The bytes of the front of a string. -/
theorem Rest.bytesAt_eq {m : Mem} (h : Rest m stop p (w ++ r)) : bytesAt m p w.length = w := by
  have hbytes : bytesAt m p w.length = bytesAt (fun i => m (p + i)) 0 w.length :=
    bytesAt_congr fun i _ => by rw [Nat.zero_add]
  refine hbytes.trans (bytesAt_eq_of_getD rfl fun i hi => ?_)
  refine (h.string i (by rw [List.length_append]; omega)).trans ?_
  rw [List.getD_append _ _ _ _ hi]

/-- A token in a memory that still holds it, with a 0 behind it. -/
theorem Rest.takeWhile_eq {m m' : Mem} {size : Nat} (h : Rest m stop p (w ++ r))
    (hm : ∀ a < p + w.length, m' a = m a) (hle : w.length ≤ size)
    (hend : w.length < size → m' (p + w.length) = 0) :
    (bytesAt m' p size).takeWhile (· ≠ 0) = w := by
  have hbytes : bytesAt m' p w.length = w :=
    (bytesAt_congr fun i hi => hm _ (Nat.add_lt_add_left hi p)).trans h.bytesAt_eq
  exact takeWhile_bytesAt hbytes (fun h₀ => h.nonzero (List.mem_append_left r h₀)) hle hend

theorem Rest.tokenString_eq {m m' : Mem} (h : Rest m stop p (w ++ r))
    (hm : ∀ a < p + w.length, m' a = m a) (hend : r ≠ [] → m' (p + w.length) = 0) :
    tokenString m' stop p = w := by
  have hlen : stop - p = w.length + r.length := by
    rw [← h.ends, List.length_append]
    omega
  rw [tokenString, hlen]
  refine h.takeWhile_eq hm (Nat.le_add_right _ _) fun hlt => hend ?_
  rintro rfl
  exact absurd hlt (lt_irrefl _)

theorem strtok_of_some (h : q.or t.last = some p) :
    strtok stop q delim t = takeToken stop p delim t := by
  rw [strtok, gets_bind, h]

/-- Once the pointer is cleared, no call is defined. -/
theorem strtokCalls_null (hlast : t.last = none) (hn : n ≠ 0) :
    strtokCalls stop delim n none t = (.stop .undefined, t) := by
  obtain ⟨n, rfl⟩ := Nat.exists_eq_succ_of_ne_zero hn
  have htok : strtok stop none delim t = (.stop .undefined, t) := by
    rw [strtok, gets_bind, hlast]
    rfl
  rw [strtokCalls, bind_stop htok]

theorem strtokCalls_succ {token : Option Nat} {t₁ : Tokenizer}
    (htok : strtok stop q delim t = (.value token, t₁)) :
    strtokCalls stop delim (n + 1) q t =
      (do let tokens ← strtokCalls stop delim n none; return token :: tokens) t₁ := by
  rw [strtokCalls, bind_value htok]

/-- What one call does with the rest `r` of the string: it clears the pointer, or it cuts a token
off and leaves the pointer behind it. -/
inductive Call (stop p : Nat) (delim r : List UInt8) (t : Tokenizer) :
    Option Nat → Tokenizer → Prop
  | final {token : Option Nat} (calls : definedCalls delim r = 1)
      (tokens : token.map (tokenString t.mem stop) = (runs (· ∈ delim) r)[0]?) :
      Call stop p delim r t token ⟨t.mem, none⟩
  | more {x : Nat} {c : UInt8} {w r' : List UInt8} (le : p ≤ x)
      (calls : definedCalls delim r = definedCalls delim r' + 1)
      (tokens : runs (· ∈ delim) r = w :: runs (· ∈ delim) r')
      (token : Rest t.mem stop x (w ++ c :: r'))
      (behind : Rest (Function.update t.mem (x + w.length) 0) stop (x + w.length + 1) r') :
      Call stop p delim r t (some x)
        ⟨Function.update t.mem (x + w.length) 0, some (x + w.length + 1)⟩

theorem strtok_call (delim : List UInt8) (h : Rest t.mem stop p r)
    (hstr : q.or t.last = some p) :
    ∃ token t₁, strtok stop q delim t = (.value token, t₁) ∧ Call stop p delim r t token t₁ := by
  rw [strtok_of_some hstr]
  cases runView (· ∈ delim) r with
  | blank hr =>
      refine ⟨_, _, takeToken_blank h hr, .final (definedCalls_blank hr) ?_⟩
      rw [runs_of_forall hr]
      rfl
  | @last d w hd hne hw =>
      refine ⟨_, _, takeToken_last hd hne hw h, .final (definedCalls_last hd hne hw) ?_⟩
      have hrest : Rest t.mem stop (p + d.length) (w ++ []) := by
        rw [List.append_nil]
        exact h.append
      rw [runs_append_run hd hne hw, Option.map_some,
        hrest.tokenString_eq (fun _ _ => rfl) fun hnil => absurd rfl hnil]
      rfl
  | @more d w r c hd hne hw hc =>
      have hrest := h
      rw [List.append_assoc] at hrest
      refine ⟨_, _, takeToken_more hd hne hw hc hrest, .more (Nat.le_add_right p d.length)
        (definedCalls_more hd hne hw hc) (runs_append_run_cons hd hne hw hc) hrest.append ?_⟩
      -- the rest of the string is as it was
      exact hrest.append.append.tail.congr fun a ha => Function.update_of_ne (by omega) _ _

/-- All calls that are defined. -/
theorem strtokCalls_value (h : Rest t.mem stop p r) (hstr : q.or t.last = some p)
    (hn : n ≤ definedCalls delim r) :
    ∃ tokens t', strtokCalls stop delim n q t = (.value tokens, t') ∧
      tokens.map (·.map (tokenString t'.mem stop)) =
        (List.range n).map ((runs (· ∈ delim) r)[·]?) ∧
      ∀ a < p, t'.mem a = t.mem a := by
  -- on the number of calls; what is behind `p` is left to the calls to come
  induction n generalizing t p r q with
  | zero => exact ⟨[], t, rfl, rfl, fun _ _ => rfl⟩
  | succ n ih =>
      obtain ⟨token, t₁, htok, hcall⟩ := strtok_call delim h hstr
      cases hcall with
      | final calls tokens =>
          obtain rfl : n = 0 := by omega
          refine ⟨[token], _, (strtokCalls_succ htok).trans rfl, ?_, fun _ _ => rfl⟩
          rw [List.map_singleton, tokens]
          rfl
      | @more x c w r' le calls tokens token behind =>
          obtain ⟨rest, t', hrun, hrest, hkeep⟩ :=
            ih (t := ⟨_, some (x + w.length + 1)⟩) (q := none) behind rfl (by omega)
          have hmem : ∀ a < x + w.length, t'.mem a = t.mem a := fun a ha => by
            rw [hkeep a (by omega)]
            exact Function.update_of_ne (by omega) _ _
          have hstring : tokenString t'.mem stop x = w := by
            refine token.tokenString_eq hmem fun _ => ?_
            rw [hkeep _ (Nat.lt_succ_self _)]
            exact Function.update_self _ _ _
          refine ⟨some x :: rest, t', (strtokCalls_succ htok).trans (bind_value hrun), ?_,
            fun a ha => hmem a (by omega)⟩
          rw [List.map_cons, Option.map_some, hstring, hrest, tokens, List.range_succ_eq_map,
            List.map_cons, List.map_map]
          rfl

/-- One call more. -/
theorem strtokCalls_stop (h : Rest t.mem stop p r) (hstr : q.or t.last = some p)
    (hn : definedCalls delim r < n) :
    ∃ t', strtokCalls stop delim n q t = (.stop .undefined, t') := by
  induction n generalizing t p r q with
  | zero => exact absurd hn (Nat.not_lt_zero _)
  | succ n ih =>
      obtain ⟨token, t₁, htok, hcall⟩ := strtok_call delim h hstr
      cases hcall with
      | final calls tokens =>
          exact ⟨_, (strtokCalls_succ htok).trans (bind_stop (strtokCalls_null rfl (by omega)))⟩
      | @more x c w r' le calls tokens token behind =>
          obtain ⟨t', hrun⟩ :=
            ih (t := ⟨_, some (x + w.length + 1)⟩) (q := none) behind rfl (by omega)
          exact ⟨t', (strtokCalls_succ htok).trans (bind_stop hrun)⟩

/-- The calls return the runs, and a null pointer behind them, exactly as long as they are
defined. -/
theorem tokenizes_iff (t : Tokenizer) (start : Nat) (s delim : CString) (n : Nat)
    (h : HoldsString (fun i => t.mem (start + i)) s.1) :
    t.Tokenizes start s delim n ↔ n ≤ definedCalls delim.1 s.1 := by
  have hrest : Rest t.mem (start + s.1.length) start s.1 := ⟨rfl, h, s.2⟩
  constructor
  · rintro ⟨tokens, t', hrun, -⟩
    by_contra hn
    obtain ⟨t'', hstop⟩ := strtokCalls_stop (n := n) hrest (q := some start) rfl (Nat.not_le.mp hn)
    rw [hrun] at hstop
    cases hstop
  · intro hn
    obtain ⟨tokens, t', hrun, htokens, -⟩ := strtokCalls_value hrest (q := some start) rfl hn
    exact ⟨tokens, t', hrun, htokens⟩

end

/-- The two words of "a b". -/
theorem tokenizes_twoWords :
    Tokenizes ⟨buffer [0x61, 0x20, 0x62], none⟩ 0 ⟨[0x61, 0x20, 0x62], by decide⟩
      ⟨[0x20], by decide⟩ 2 :=
  (tokenizes_iff _ 0 _ _ 2 fun i _ => congrArg (buffer _) (Nat.zero_add i)).mpr (by decide)

/-- The second call for "a" reads through the null pointer. -/
theorem not_tokenizes_oneWord :
    ¬Tokenizes ⟨buffer [0x61], none⟩ 0 ⟨[0x61], by decide⟩ ⟨[0x20], by decide⟩ 2 := by
  rintro ⟨tokens, t', hrun, -⟩
  have hrest : Rest (buffer [0x61]) 1 0 [0x61] :=
    ⟨rfl, fun i _ => congrArg (buffer _) (Nat.zero_add i), by decide⟩
  obtain ⟨t'', hstop⟩ := strtokCalls_stop (t := ⟨buffer [0x61], none⟩) (q := some 0) (n := 2)
    hrest rfl (show definedCalls [0x20] [0x61] < 2 by decide)
  exact absurd (hrun.symm.trans hstop) (by simp)

/-! ### The calls of the shell -/

section

variable {t : Tokenizer} {stop p size : Nat} {delim : List UInt8}

/-- With the terminator in reach the loops are those of the shell. -/
theorem skip_eq_skipWhile (pass : UInt8 → Bool) (hend : t.mem stop = 0) (hpass : pass 0 = false)
    (hp : p ≤ stop) (hs : stop < size) :
    skip pass (stop + 1 - p) p t = (.value (skipWhile t.mem pass (size - p) p), t) ∧
      skipWhile t.mem pass (size - p) p ≤ stop := by
  obtain ⟨k, rfl⟩ := Nat.exists_eq_add_of_le hp
  -- by induction on the distance to the terminator, where both loops stop at the latest
  induction k generalizing p with
  | zero =>
      have hstop : pass (t.mem p) = false := by
        rw [Nat.add_zero] at hend
        rw [hend, hpass]
      obtain ⟨n, hn⟩ : ∃ n, size - p = n + 1 := ⟨size - p - 1, by omega⟩
      rw [hn, skipWhile, if_neg (by rw [hstop]; exact Bool.false_ne_true),
        show p + 0 + 1 - p = 0 + 1 by omega]
      exact ⟨skip_of_neg hstop, hp⟩
  | succ k ih =>
      obtain ⟨n, hn⟩ : ∃ n, size - p = n + 1 := ⟨size - p - 1, by omega⟩
      rw [hn, skipWhile, show p + (k + 1) + 1 - p = k + 1 + 1 by omega]
      cases hb : pass (t.mem p) with
      | false => exact ⟨skip_of_neg hb, hp⟩
      | true =>
          have hsum : p + (k + 1) = p + 1 + k := by omega
          rw [hsum] at hend hs ⊢
          have hrest := ih hend (Nat.le_add_right _ k) hs
          rw [show p + 1 + k + 1 - (p + 1) = k + 1 by omega, show size - (p + 1) = n by omega]
            at hrest
          rw [if_pos rfl, skip_of_pos hb]
          exact hrest

/-- The first call is the one that the shell makes. -/
theorem strtok_eq_shell (delim : List UInt8) (hend : t.mem stop = 0) (hp : p ≤ stop)
    (hs : stop < size) :
    ∃ last, strtok stop (some p) delim t =
      (.value (PotatoOS.strtok t.mem size p delim).1,
        ⟨(PotatoOS.strtok t.mem size p delim).2, last⟩) := by
  -- both classes leave out the terminator, which `strchr` would find
  have hdelim : isDelim delim = fun b => decide (b ≠ 0) && decide (b ∈ delim) := by
    funext b
    rw [isDelim, strchr_isSome]
  have htext : isText delim = fun b => decide (b ≠ 0) && decide (b ∉ delim) := by
    funext b
    rw [isText, strchr_isSome, ← decide_not]
  obtain ⟨hskip, hle⟩ := skip_eq_skipWhile (isDelim delim) hend rfl hp hs
  rw [strtok_of_some (p := p) rfl, takeToken, bind_value hskip, gets_bind, PotatoOS.strtok,
    ← hdelim, ← htext]
  generalize skipWhile t.mem (isDelim delim) (size - p) p = q at hle ⊢
  by_cases hq : t.mem q = 0
  · rw [if_pos hq, if_pos hq]
    exact ⟨none, rfl⟩
  · obtain ⟨htoken, -⟩ := skip_eq_skipWhile (isText delim) hend rfl hle hs
    rw [if_neg hq, if_neg hq, bind_value htoken, modify_bind, cut]
    generalize skipWhile t.mem (isText delim) (size - q) q = e
    by_cases he : t.mem e ≠ 0
    · simp only [if_pos he]
      exact ⟨_, rfl⟩
    · simp only [if_neg he]
      exact ⟨_, rfl⟩

theorem strtok_shell_of_takeToken {token : Option Nat} {t' : Tokenizer} (hend : t.mem stop = 0)
    (hp : p ≤ stop) (hs : stop < size) (h : takeToken stop p delim t = (.value token, t')) :
    PotatoOS.strtok t.mem size p delim = (token, t'.mem) := by
  obtain ⟨last, hcall⟩ := strtok_eq_shell delim hend hp hs
  rw [strtok_of_some (p := p) rfl, h] at hcall
  obtain ⟨hvalue, hstate⟩ := Prod.mk.inj hcall
  rw [Outcome.value.inj hvalue, hstate]

end

end Tokenizer

end PotatoOS
