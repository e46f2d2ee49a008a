/-
PotatoOS/Hex.lean

Hexadecimal numbers on the serial console: `printhex` and `gethex` of lib_c.c.

`printhex` sends the lowest digits of a number in upper case, the most
significant one first; `gethex` reads digits in either case, shifts them into a
number and gives up at the first character that is none.  Both meet in
`hexNumber`, the number that some characters denote: what has been printed
denotes the number modulo a power of 16 (`hexNumber_hexText`), and the loop of
`gethex` adds to the number that it has read so far, moved up, what the rest
denotes (`gethexLoop_settles`).  Main result: `hexConsole`.
-/
import PotatoOS.Serial

namespace PotatoOS

namespace Serial

open Prog

/-! ### The functions -/

/-- `lowercase` of an ASCII character. -/
def lowercase (c : Int8) : Int8 := if c ≥ 0x41 ∧ c ≤ 0x5A then c + 0x20 else c

/-- The byte of a digit. -/
def hexByte (buf : UInt32) : UInt8 :=
  if buf < 10 then (buf + 0x30).toUInt8 else (buf + (0x41 - 10)).toUInt8

/-- No digit in lower case. -/
def Rejected (buf : Int8) : Prop := buf < 0x30 ∨ buf > 0x66 ∨ buf > 0x39 ∧ buf < 0x61

instance (buf : Int8) : Decidable (Rejected buf) := inferInstanceAs (Decidable (_ ∨ _))

/-- The value of a digit; what is none gives some other number. -/
def digitOf (buf : Int8) : UInt32 :=
  let buf := if buf > 0x39 then buf - (0x61 - 10) else buf - 0x30
  buf.toInt32.toUInt32

section

variable (line : Line) (fuel : Nat)

/-- `digits` more digits; a shift by 32 bits or more is undefined. -/
def printhex (num : UInt32) : Nat → Prog Serial Unit
  | 0 => return ()
  | digits + 1 =>
      if 32 ≤ digits * 4 then halt .undefined
      else do
        putcc line fuel (hexByte ((num >>> UInt32.ofNat (digits * 4)) &&& 0xF))
        printhex num digits

/-- The same loop as that of `putstring`. -/
def printss : List UInt8 → Prog Serial Unit := putstring line fuel

/-- The loop of `gethex`, with the result and the number in the end. -/
def gethexLoop (echo : Bool) : Nat → UInt32 → Prog Serial (Int × UInt32)
  | 0, num => return (0, num)
  | digits + 1, num => do
      let c ← getcc line fuel echo
      let buf := lowercase c.toInt8
      if Rejected buf then return (-1, num)
      else gethexLoop echo digits ((num <<< 4) + digitOf buf)

/-- The blank that `gethex` echoes first. -/
def putBlank (echo : Bool) : Prog Serial Unit :=
  if echo then printss line fuel [0x20, 0] else return ()

/-- `gethex`: at most `digits` digits, with the result -1 at a character that is none. -/
def gethex (digits : Nat) (echo : Bool) : Prog Serial (Int × UInt32) := do
  putBlank line fuel echo
  gethexLoop line fuel echo digits 0

end

/-! ### What characters denote -/

/-- The value of a hexadecimal digit in either case. -/
def hexValue (c : UInt8) : Option Nat :=
  if 0x30 ≤ c ∧ c ≤ 0x39 then some (c.toNat - 0x30)
  else if 0x41 ≤ c ∧ c ≤ 0x46 then some (c.toNat - 0x41 + 10)
  else if 0x61 ≤ c ∧ c ≤ 0x66 then some (c.toNat - 0x61 + 10)
  else none

/-- The number that hexadecimal digits of either case denote, the most significant one first. -/
def hexNumber (cs : List UInt8) : Nat :=
  Nat.ofDigits 16 (cs.reverse.map fun c => (hexValue c).getD 0)

/-- The reader fails at a character that is no digit, and else has read this number. -/
structure HexResult (cs : List UInt8) (n : Nat) (r : Int × UInt32) : Prop where
  fails : r.1 ≠ 0 ↔ ∃ c ∈ cs, hexValue c = none
  number : r.1 = 0 → r.2.toNat = n

/-- The printer and the reader agree, and the reader accepts the hexadecimal digits. -/
structure HexConsole (digits : Nat) : Prop where
  roundTrip : ∀ (line : Line) (x : UInt32) (s : Serial),
    Settles (fun fuel => printhex line fuel x digits) s fun _ s₁ =>
      ∃ sent, s₁.sent = s.sent ++ sent ∧
        ∀ (line : Line) (echo : Bool) (rest : List UInt8) (s₂ : Serial), s₂.input = sent ++ rest →
          Settles (fun fuel => gethex line fuel digits echo) s₂ fun r _ =>
            r.1 = 0 ∧ r.2.toNat = x.toNat % 16 ^ digits
  accepts : ∀ (line : Line) (echo : Bool) (s : Serial), digits ≤ s.input.length →
    Settles (fun fuel => gethex line fuel digits echo) s fun r _ =>
      HexResult (s.input.take digits) (hexNumber (s.input.take digits)) r

/-- The reader's test and its arithmetic, on all bytes. -/
theorem hexValue_eq (c : UInt8) :
    hexValue c = if Rejected (lowercase c.toInt8) then none
      else some (digitOf (lowercase c.toInt8)).toNat := by
  have hbyte : ∀ n < 256, hexValue (UInt8.ofNat n) =
      if Rejected (lowercase (UInt8.ofNat n).toInt8) then none
      else some (digitOf (lowercase (UInt8.ofNat n).toInt8)).toNat := by decide +kernel
  have hc := hbyte c.toNat c.toNat_lt
  rwa [UInt8.ofNat_toNat] at hc

theorem hexValue_lt {c : UInt8} {d : Nat} (h : hexValue c = some d) : d < 16 := by
  have hbyte : ∀ n < 256, (hexValue (UInt8.ofNat n)).getD 0 < 16 := by decide +kernel
  have hc := hbyte c.toNat c.toNat_lt
  rwa [UInt8.ofNat_toNat, h] at hc

theorem hexNumber_cons (c : UInt8) (cs : List UInt8) :
    hexNumber (c :: cs) = hexNumber cs + 16 ^ cs.length * (hexValue c).getD 0 := by
  rw [hexNumber, hexNumber, List.reverse_cons, List.map_append, Nat.ofDigits_append,
    List.length_map, List.length_reverse]
  simp

variable {line : Line} {s : Serial} {echo : Bool}

/-! ### The reader -/

theorem putEcho_settles (echo : Bool) (c : UInt8) (s : Serial) :
    Settles (fun fuel => putEcho line fuel echo c) s fun _ s' =>
      Sent (if echo then [c] else []) s s' := by
  cases echo with
  | false => exact .pure (Sent.nil s)
  | true => exact putcc_settles c s

theorem getcc_settles {c : UInt8} {rest : List UInt8} (h : s.input = c :: rest) :
    Settles (fun fuel => getcc line fuel echo) s fun a s' =>
      a = c ∧ Sent (if echo then [c] else []) { s with input := rest } s' := by
  obtain ⟨u, hu, hready⟩ := line.receives s.reads
  have hshown : shown line s.input u = line.status u := if_neg (h ▸ List.cons_ne_nil c rest)
  refine .bind (wait_settles hu (hshown ▸ hready)) ?_
  rintro - s₁ ⟨t, rfl⟩
  have hreceive : receive { s with reads := t }
      = (.value c, { s with reads := t, input := rest }) := by
    rw [receive, gets_bind, h]
    rfl
  refine .value_bind (fun _ => hreceive) (.bind (putEcho_settles echo c _) fun _ s' hsent => ?_)
  exact .pure ⟨rfl, hsent.input, hsent.sent, hsent.wire⟩

theorem toNat_shift_add {num d : UInt32} (hnum : num.toNat < 2 ^ 28) (hd : d.toNat < 16) :
    ((num <<< 4) + d).toNat = num.toNat * 16 + d.toNat := by
  rw [UInt32.toNat_add, UInt32.toNat_shiftLeft]
  show (num.toNat <<< 4 % 2 ^ 32 + d.toNat) % 2 ^ 32 = _
  rw [Nat.shiftLeft_eq]
  omega

/-- One digit more in front. -/
theorem HexResult.cons (num : Nat) {c : UInt8} {cs : List UInt8} {d : Nat} {r : Int × UInt32}
    (hc : hexValue c = some d)
    (h : HexResult cs ((num * 16 + d) * 16 ^ cs.length + hexNumber cs) r) :
    HexResult (c :: cs) (num * 16 ^ (cs.length + 1) + hexNumber (c :: cs)) r where
  fails := by
    rw [h.fails]
    simp [hc]
  number hzero := by
    rw [h.number hzero, hexNumber_cons, hc, Option.getD_some]
    ring

/-- The loop after some digits: what the rest denotes is added to their number, moved up.  By
induction on the digits that are still to be read. -/
theorem gethexLoop_settles (line : Line) (echo : Bool) {digits : Nat} {num : UInt32}
    (hlen : digits ≤ s.input.length) (hnum : (num.toNat + 1) * 16 ^ digits ≤ 2 ^ 32) :
    Settles (fun fuel => gethexLoop line fuel echo digits num) s fun r _ =>
      HexResult (s.input.take digits)
        (num.toNat * 16 ^ digits + hexNumber (s.input.take digits)) r := by
  induction digits generalizing num s with
  | zero =>
      refine .pure ⟨?_, fun _ => ?_⟩
      · simp
      · simp [hexNumber]
  | succ digits ih =>
      obtain ⟨c, rest, hinput⟩ :=
        List.exists_cons_of_length_pos (Nat.lt_of_lt_of_le (Nat.succ_pos digits) hlen)
      rw [hinput, List.length_cons] at hlen
      rw [hinput, List.take_succ_cons]
      -- `hlen` provides the character that `getcc` waits for
      refine .bind (getcc_settles hinput) ?_
      rintro c s₁ ⟨rfl, hsent⟩
      have hinput₁ : s₁.input = rest := hsent.input
      have hhex := hexValue_eq c
      by_cases hrejected : Rejected (lowercase c.toInt8)
      · rw [if_pos hrejected] at hhex
        simp only [if_pos hrejected]
        have hneg : (-1 : Int) ≠ 0 := by decide
        exact .pure ⟨iff_of_true hneg ⟨c, List.mem_cons_self, hhex⟩, fun h => absurd h hneg⟩
      · rw [if_neg hrejected] at hhex
        simp only [if_neg hrejected]
        have hd := hexValue_lt hhex
        have hpow : 1 ≤ 16 ^ digits := Nat.one_le_pow _ _ (by decide)
        rw [pow_succ] at hnum
        -- `hnum` leaves room for the shift, so that no digit is lost at the top
        have hadd : ((num <<< 4) + digitOf (lowercase c.toInt8)).toNat
            = num.toNat * 16 + (digitOf (lowercase c.toInt8)).toNat :=
          toNat_shift_add (by nlinarith) hd
        refine .mono (ih (by rw [hinput₁]; omega) (by rw [hadd]; nlinarith)) ?_
        intro r _ hr
        have htake : (rest.take digits).length = digits := List.length_take_of_le (by omega)
        rw [hinput₁, hadd] at hr
        have hcons := HexResult.cons num.toNat hhex (by rwa [htake])
        rwa [htake] at hcons

theorem putBlank_settles (echo : Bool) (s : Serial) :
    Settles (fun fuel => putBlank line fuel echo) s fun _ s' => s'.input = s.input := by
  cases echo with
  | false => exact .pure rfl
  | true =>
      have hblank : ∀ c ∈ [(0x20 : UInt8)], c ≠ 0 := List.forall_mem_singleton.mpr (by decide)
      exact .mono (putstring_settles hblank [] s) fun _ _ hsent => hsent.input

/-- Up to eight digits fit into the number. -/
theorem gethex_settles (line : Line) (echo : Bool) {digits : Nat} (h : digits ≤ 8)
    (hlen : digits ≤ s.input.length) :
    Settles (fun fuel => gethex line fuel digits echo) s fun r _ =>
      HexResult (s.input.take digits) (hexNumber (s.input.take digits)) r := by
  refine .bind (putBlank_settles echo s) fun _ s₁ hinput => ?_
  rw [← hinput] at hlen ⊢
  have hpow : 16 ^ digits ≤ 16 ^ 8 := Nat.pow_le_pow_right (by decide) h
  have hloop := gethexLoop_settles line echo hlen
    (show ((0 : UInt32).toNat + 1) * 16 ^ digits ≤ 2 ^ 32 by simpa using hpow)
  rwa [UInt32.toNat_zero, Nat.zero_mul, Nat.zero_add] at hloop

/-! ### The printer -/

/-- What `printhex` sends. -/
def hexText (num : UInt32) : Nat → List UInt8
  | 0 => []
  | digits + 1 => hexByte ((num >>> UInt32.ofNat (digits * 4)) &&& 0xF) :: hexText num digits

theorem printhex_settles (num : UInt32) {digits : Nat} (h : digits ≤ 8) (s : Serial) :
    Settles (fun fuel => printhex line fuel num digits) s fun _ s' =>
      Sent (hexText num digits) s s' := by
  induction digits generalizing s with
  | zero => exact .pure (Sent.nil s)
  | succ digits ih =>
      simp only [printhex, if_neg (show ¬32 ≤ digits * 4 by omega)]
      exact settles_append (putcc_settles _ s) (ih (by omega))

theorem toNat_nibble (num : UInt32) {k : Nat} (hk : k < 8) :
    ((num >>> UInt32.ofNat (k * 4)) &&& 0xF).toNat = num.toNat / 16 ^ k % 16 := by
  have hshift : (UInt32.ofNat (k * 4)).toNat % 32 = k * 4 := by
    rw [UInt32.toNat_ofNat']
    omega
  have hpow : 2 ^ (k * 4) = 16 ^ k := by
    rw [Nat.mul_comm, Nat.pow_mul]
  rw [UInt32.toNat_and, UInt32.toNat_shiftRight, hshift, Nat.shiftRight_eq_div_pow, hpow]
  exact Nat.and_two_pow_sub_one_eq_mod _ 4

/-- A digit is read back. -/
theorem hexValue_hexByte {buf : UInt32} (h : buf.toNat < 16) :
    hexValue (hexByte buf) = some buf.toNat := by
  have hdigit : ∀ n < 16, hexValue (hexByte (UInt32.ofNat n)) = some n := by decide
  have hbuf := hdigit buf.toNat h
  rwa [UInt32.ofNat_toNat] at hbuf

theorem hexValue_nibble (num : UInt32) {k : Nat} (hk : k < 8) :
    hexValue (hexByte ((num >>> UInt32.ofNat (k * 4)) &&& 0xF))
      = some (num.toNat / 16 ^ k % 16) := by
  have hnibble := toNat_nibble num hk
  rw [hexValue_hexByte (by omega), hnibble]

theorem length_hexText (num : UInt32) (digits : Nat) : (hexText num digits).length = digits := by
  induction digits with
  | zero => rfl
  | succ digits ih => rw [hexText, List.length_cons, ih]

theorem hexValue_ne_none_of_mem {num : UInt32} {digits : Nat} (h : digits ≤ 8) :
    ∀ c ∈ hexText num digits, hexValue c ≠ none := by
  induction digits with
  | zero => exact List.forall_mem_nil _
  | succ digits ih =>
      refine List.forall_mem_cons.mpr ⟨?_, ih (by omega)⟩
      rw [hexValue_nibble num (by omega)]
      exact Option.some_ne_none _

theorem hexNumber_hexText (num : UInt32) {digits : Nat} (h : digits ≤ 8) :
    hexNumber (hexText num digits) = num.toNat % 16 ^ digits := by
  induction digits with
  | zero => rw [pow_zero, Nat.mod_one]; rfl
  | succ digits ih =>
      rw [hexText, hexNumber_cons, ih (by omega), length_hexText, hexValue_nibble num (by omega),
        Option.getD_some, Nat.mod_pow_succ]

/-- Up to eight digits are read back as they were printed. -/
theorem hexConsole {digits : Nat} (h : digits ≤ 8) : HexConsole digits where
  roundTrip line x s := by
    refine .mono (printhex_settles x h s) fun _ s₁ hsent => ⟨hexText x digits, hsent.sent, ?_⟩
    intro line echo rest s₂ hinput
    have hlen := length_hexText x digits
    have htake : s₂.input.take digits = hexText x digits := by
      rw [hinput]
      exact List.take_left' hlen
    have hread := gethex_settles line echo h (show digits ≤ s₂.input.length by
      rw [hinput, List.length_append, hlen]
      exact Nat.le_add_right _ _)
    rw [htake] at hread
    refine hread.mono fun r _ hr => ?_
    have hzero : r.1 = 0 := by
      by_contra hne
      obtain ⟨c, hc, hnone⟩ := hr.fails.mp hne
      exact hexValue_ne_none_of_mem h c hc hnone
    exact ⟨hzero, (hr.number hzero).trans (hexNumber_hexText x h)⟩
  accepts line echo s hlen := gethex_settles line echo h hlen

theorem hexConsole_eight : HexConsole 8 := hexConsole (Nat.le_refl 8)

end Serial

end PotatoOS
