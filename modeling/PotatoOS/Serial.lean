/-
PotatoOS/Serial.lean

The serial console of lib_c.c: single characters, strings, `_printInt` and
`_printf`.

Characters are written to the port and read from it after a wait for the line
status; the waits end because the line becomes ready again and again (`Line`),
so the runs settle (`Prog.Settles`).  What is on record is the characters given
to `putcc`; on the wire a line feed has a carriage return before it.

`_printInt` writes the digits of a number backwards into an array of 32 bytes,
with the signed division and remainder of C.  For a positive number that is its
numeral, for zero it is nothing, and for a negative number the digits are
counted down from `0` (`intText`).  `_printf` sends `render`
(`printf_settles`).  Main result: `printsInt_iff`.
-/
import Mathlib.Data.Nat.Digits.Lemmas
import PotatoOS.Prog
import PotatoOS.Terminal

namespace PotatoOS

open Prog

/-! ### The port -/

/-- What the line status register shows, one read after the other, while there
is a character to receive.  Transmitter and receiver become ready again and again. -/
structure Line where
  status : Nat → UInt8
  sends : ∀ t, ∃ u ≥ t, status u &&& 0x20 ≠ 0
  receives : ∀ t, ∃ u ≥ t, status u &&& 0x01 ≠ 0

/-- The console: what has been read from it and written to it. -/
structure Serial where
  /-- Reads of the line status so far. -/
  reads : Nat
  /-- The characters that are still to be received. -/
  input : List UInt8
  /-- The characters given to `putcc`. -/
  sent : List UInt8
  /-- The bytes written to the port. -/
  wire : List UInt8

namespace Serial

section

variable (line : Line) (fuel : Nat)

/-- Without a character to receive the data ready bit is clear. -/
def shown (input : List UInt8) (t : Nat) : UInt8 :=
  if input = [] then line.status t &&& 0xFE else line.status t

/-- The line status register, as it is at this read. -/
def readStatus : Prog Serial UInt8 := do
  let t ← gets (·.reads)
  modify ({ · with reads := t + 1 })
  let input ← gets (·.input)
  return shown line input t

/-- Wait for a bit of the line status. -/
def wait (mask : UInt8) : Nat → Prog Serial Unit
  | 0 => halt .exhausted
  | fuel + 1 => do
      let status ← readStatus line
      if status &&& mask = 0 then wait mask fuel else return ()

/-- Wait until the transmitter is free and write a byte. -/
def put (c : UInt8) : Prog Serial Unit := do
  wait line 0x20 fuel
  modify fun s => { s with wire := s.wire ++ [c] }

/-- What `putcc` puts in front of a line feed. -/
def putReturn (c : UInt8) : Prog Serial Unit := if c = 0x0A then put line fuel 0x0D else return ()

/-- `putcc`: a line feed has a carriage return sent before it. -/
def putcc (c : UInt8) : Prog Serial Unit := do
  modify fun s => { s with sent := s.sent ++ [c] }
  putReturn line fuel c
  put line fuel c

/-- The data register. -/
def receive : Prog Serial UInt8 := do
  let input ← gets (·.input)
  match input with
  | [] => halt .undefined
  | c :: input => do
      modify ({ · with input := input })
      return c

/-- The echo of a character that has been read, where one is wanted. -/
def putEcho (echo : Bool) (c : UInt8) : Prog Serial Unit :=
  if echo then putcc line fuel c else return ()

/-- `getcc`: wait for a character and read it. -/
def getcc (echo : Bool) : Prog Serial UInt8 := do
  wait line 0x01 fuel
  let c ← receive
  putEcho line fuel echo c
  return c

/-- The string at the front of some cells of memory. -/
def putstring : List UInt8 → Prog Serial Unit
  | [] => halt .undefined
  | c :: cells =>
      if c = 0 then return ()
      else do
        putcc line fuel c
        putstring cells

/-! ### Numbers and formats -/

/-- The character of a digit as `_printInt` computes it, from a remainder that may be negative. -/
def digitByte (n : Int) : UInt8 :=
  if n < 10 then UInt8.ofInt (n + 0x30) else UInt8.ofInt (n - 10 + 0x41)

/-- The loop of `_printInt`: `ptr` cells of the array are free, and those behind
them are `cells`. -/
def digitCells (base : Int) : Nat → Int → List UInt8 → Prog Serial (List UInt8)
  | 0, val, cells => if val = 0 then return cells else halt .undefined
  | ptr + 1, val, cells =>
      if val = 0 then return cells
      else if base = 0 then halt .divideByZero
      else digitCells base ptr (val.tdiv base) (digitByte (val.tmod base) :: cells)

/-- `_printInt`: the digits are put into an array from its end on, then the rest of it is sent. -/
def printInt (val : Int) (base : Int) : Prog Serial Unit := do
  let cells ← digitCells base 31 val [0]
  putstring line fuel cells

/-- The words behind the format, and the strings that such words can point to. -/
structure Arguments where
  word : Nat → UInt32
  string : UInt32 → List UInt8
  string_ne_zero : ∀ p, ∀ c ∈ string p, c ≠ 0

/-- `_printf`; an unknown conversion is printed like other text. -/
def printf (args : Arguments) : List UInt8 → Nat → Prog Serial Unit
  | [], _ => return ()
  | c :: rest, i =>
      if c ≠ 0x25 then do
        putcc line fuel c
        printf args rest i
      else match rest with
        | [] => putcc line fuel 0x25
        | d :: tail =>
            if d = 0x64 then do
              printInt line fuel (args.word i).toInt32.toInt 10
              printf args tail (i + 1)
            else if d = 0x73 then do
              putstring line fuel (args.string (args.word i) ++ [0])
              printf args tail (i + 1)
            else if d = 0x78 then do
              printInt line fuel (args.word i).toInt32.toInt 16
              printf args tail (i + 1)
            else do
              putcc line fuel 0x25
              printf args (d :: tail) i

end

/-! ### What is sent -/

/-- The bytes of a character on the wire. -/
def wireBytes (c : UInt8) : List UInt8 := if c = 0x0A then [0x0D, 0x0A] else [c]

/-- Some text has been sent, and nothing received. -/
structure Sent (text : List UInt8) (s s' : Serial) : Prop where
  input : s'.input = s.input
  sent : s'.sent = s.sent ++ text
  wire : s'.wire = s.wire ++ text.flatMap wireBytes

variable {line : Line} {s s₁ s₂ : Serial} {c : UInt8} {text text₁ text₂ : List UInt8}

theorem Sent.nil (s : Serial) : Sent [] s s :=
  ⟨rfl, (List.append_nil _).symm, (List.append_nil _).symm⟩

theorem Sent.append (h₁ : Sent text₁ s s₁) (h₂ : Sent text₂ s₁ s₂) :
    Sent (text₁ ++ text₂) s s₂ where
  input := h₂.input.trans h₁.input
  sent := by rw [h₂.sent, h₁.sent, List.append_assoc]
  wire := by rw [h₂.wire, h₁.wire, List.flatMap_append, List.append_assoc]

theorem readStatus_eq (s : Serial) : readStatus line s
    = (.value (shown line s.input s.reads), { s with reads := s.reads + 1 }) := rfl

theorem wait_ready {mask : UInt8} (h : shown line s.input s.reads &&& mask ≠ 0) (fuel : Nat) :
    wait line mask (fuel + 1) s = (.value (), { s with reads := s.reads + 1 }) := by
  rw [wait, bind_value (readStatus_eq s), if_neg h]
  rfl

theorem wait_busy {mask : UInt8} (h : shown line s.input s.reads &&& mask = 0) (fuel : Nat) :
    wait line mask (fuel + 1) s = wait line mask fuel { s with reads := s.reads + 1 } := by
  rw [wait, bind_value (readStatus_eq s), if_pos h]

/-- The wait for a bit that shows in the end, by induction on the reads up to there. -/
theorem wait_settles {mask : UInt8} {u : Nat} (hu : u ≥ s.reads)
    (hready : shown line s.input u &&& mask ≠ 0) :
    Settles (wait line mask) s fun _ s' => ∃ t, s' = { s with reads := t } := by
  obtain ⟨d, rfl⟩ := Nat.exists_eq_add_of_le hu
  induction d generalizing s with
  | zero => exact .of_eq (wait_ready hready) ⟨_, rfl⟩
  | succ d ih =>
      by_cases hnow : shown line s.input s.reads &&& mask = 0
      · rw [Nat.add_succ, ← Nat.succ_add] at hready
        refine .succ (wait_busy hnow) (.mono (ih (Nat.le_add_right _ d) hready) ?_)
        rintro - s' ⟨t, rfl⟩
        exact ⟨t, rfl⟩
      · exact .of_eq (wait_ready hnow) ⟨_, rfl⟩

theorem put_settles (c : UInt8) (s : Serial) :
    Settles (fun fuel => put line fuel c) s fun _ s' =>
      ∃ t, s' = { s with reads := t, wire := s.wire ++ [c] } := by
  obtain ⟨u, hu, hready⟩ := line.sends s.reads
  have hshown : shown line s.input u &&& 0x20 = line.status u &&& 0x20 := by
    rw [shown]
    split
    · rw [UInt8.and_assoc]
      rfl
    · rfl
  refine .bind (wait_settles hu (hshown ▸ hready)) ?_
  rintro - s' ⟨t, rfl⟩
  exact .of_eq (fun _ => rfl) ⟨t, rfl⟩

theorem putcc_settles (c : UInt8) (s : Serial) :
    Settles (fun fuel => putcc line fuel c) s fun _ s' => Sent [c] s s' := by
  have hreturn (s : Serial) : Settles (fun fuel => putReturn line fuel c) s fun _ s' =>
      ∃ t, s' = { s with reads := t, wire := s.wire ++ if c = 0x0A then [0x0D] else [] } := by
    by_cases hc : c = 0x0A
    · simp only [putReturn, if_pos hc]
      exact put_settles 0x0D s
    · simp only [putReturn, if_neg hc]
      exact .pure ⟨s.reads, by rw [List.append_nil]⟩
  refine .value_bind (fun _ => rfl) (.bind (hreturn _) ?_)
  rintro - s₁ ⟨t₁, rfl⟩
  refine .mono (put_settles c _) ?_
  rintro - s₂ ⟨t₂, rfl⟩
  refine ⟨rfl, rfl, ?_⟩
  rw [List.flatMap_singleton, wireBytes]
  split
  next hc => simp [hc]
  next => simp

theorem settles_append {F G : Nat → Prog Serial Unit}
    (hF : Settles F s fun _ s' => Sent text₁ s s')
    (hG : ∀ s, Settles G s fun _ s' => Sent text₂ s s') :
    Settles (fun fuel => do F fuel; G fuel) s fun _ s' => Sent (text₁ ++ text₂) s s' :=
  .bind hF fun _ s₁ h₁ => .mono (hG s₁) fun _ _ h₂ => h₁.append h₂

/-- A string is sent up to its end. -/
theorem putstring_settles (h : ∀ c ∈ text, c ≠ 0) (rest : List UInt8) (s : Serial) :
    Settles (fun fuel => putstring line fuel (text ++ 0 :: rest)) s fun _ s' => Sent text s s' := by
  induction text generalizing s with
  | nil => exact .pure (Sent.nil s)
  | cons c text ih =>
      have hc := h c List.mem_cons_self
      simp only [List.cons_append, putstring, if_neg hc]
      exact settles_append (putcc_settles c s) (ih fun d hd => h d (List.mem_cons_of_mem c hd))

/-! ### Digits -/

/-- The digits of a number, each one taken times `σ`, as `_printInt` prints them. -/
def digitText (base : Nat) (σ : Int) (n : Nat) : List UInt8 :=
  ((Nat.digits base n).map fun d : Nat => digitByte (σ * d)).reverse

/-- What `_printInt` sends, for a number of either sign. -/
def intText (base : Nat) (val : Int) : List UInt8 :=
  digitText base (if val < 0 then -1 else 1) val.natAbs

theorem digitCells_zero (base : Int) (ptr : Nat) (cells : List UInt8) :
    digitCells base ptr 0 cells = pure cells := by
  cases ptr with
  | zero => rw [digitCells, if_pos rfl]
  | succ ptr => rw [digitCells, if_pos rfl]

theorem tdiv_tmod_signed {σ : Int} (hσ : σ = 1 ∨ σ = -1) (n base : Nat) :
    (σ * n).tdiv base = σ * (n / base : Nat) ∧ (σ * n).tmod base = σ * (n % base : Nat) := by
  have hmod : (n : Int).tmod base = (n % base : Nat) :=
    Int.tmod_eq_emod_of_nonneg (Int.natCast_nonneg n)
  have hdiv : (n : Int).tdiv base = (n / base : Nat) := rfl
  rcases hσ with rfl | rfl
  · rw [one_mul, one_mul, one_mul]
    exact ⟨hdiv, hmod⟩
  · rw [neg_one_mul, neg_one_mul, neg_one_mul, Int.neg_tdiv, Int.neg_tmod, hdiv, hmod]
    exact ⟨rfl, rfl⟩

/-- The loop from `σ * n` on, by induction on the cells that are free. -/
theorem digitCells_eq {base : Nat} (hbase : 2 ≤ base) {σ : Int} (hσ : σ = 1 ∨ σ = -1) {n ptr : Nat}
    (hptr : (Nat.digits base n).length ≤ ptr) (cells : List UInt8) (s : Serial) :
    digitCells base ptr (σ * n) cells s = (.value (digitText base σ n ++ cells), s) := by
  induction ptr generalizing n cells with
  | zero =>
      obtain rfl : n = 0 := by
        rw [← Nat.digits_eq_nil_iff_eq_zero (b := base)]
        exact List.eq_nil_of_length_eq_zero (Nat.le_zero.mp hptr)
      rw [Nat.cast_zero, mul_zero, digitCells_zero, digitText, Nat.digits_zero]
      rfl
  | succ ptr ih =>
      -- the loop ends at 0; otherwise the last digit goes into the cell in front
      rcases Nat.eq_zero_or_pos n with rfl | hn
      · rw [Nat.cast_zero, mul_zero, digitCells_zero, digitText, Nat.digits_zero]
        rfl
      · have hval : σ * n ≠ 0 := by
          rcases hσ with rfl | rfl
          · omega
          · omega
        obtain ⟨hdiv, hmod⟩ := tdiv_tmod_signed hσ n base
        have hdigits := Nat.digits_def' hbase hn
        rw [hdigits, List.length_cons] at hptr
        rw [digitCells, if_neg hval, if_neg (by omega), hdiv, hmod,
          ih (Nat.le_of_succ_le_succ hptr), digitText, digitText, hdigits, List.map_cons,
          List.reverse_cons, List.append_assoc]
        rfl

theorem digitCells_int {base ptr : Nat} (hbase : 2 ≤ base) {val : Int}
    (hptr : (Nat.digits base val.natAbs).length ≤ ptr) (cells : List UInt8) (s : Serial) :
    digitCells base ptr val cells s = (.value (intText base val ++ cells), s) := by
  rw [intText]
  by_cases hneg : val < 0
  · have hval : -1 * (val.natAbs : Int) = val := by omega
    have heq := digitCells_eq hbase (.inr rfl) hptr cells s
    rw [if_pos hneg]
    rwa [hval] at heq
  · have hval : 1 * (val.natAbs : Int) = val := by omega
    have heq := digitCells_eq hbase (.inl rfl) hptr cells s
    rw [if_neg hneg]
    rwa [hval] at heq

theorem intText_ne_zero {base : Nat} (hbase : base = 10 ∨ base = 16) (val : Int) :
    ∀ c ∈ intText base val, c ≠ 0 := by
  have hbyte : ∀ d < 16, digitByte ((-1) * (d : Nat)) ≠ 0 ∧ digitByte (1 * (d : Nat)) ≠ 0 := by
    decide
  intro c hc
  rw [intText, digitText, List.mem_reverse, List.mem_map] at hc
  obtain ⟨d, hd, rfl⟩ := hc
  have hlt : d < base := Nat.digits_lt_base (by omega) hd
  split
  · exact (hbyte d (by omega)).1
  · exact (hbyte d (by omega)).2

theorem printInt_settles {base : Nat} (hbase : base = 10 ∨ base = 16) {val : Int}
    (hval : val.natAbs ≤ 2 ^ 31) (s : Serial) :
    Settles (fun fuel => printInt line fuel val base) s fun _ s' =>
      Sent (intText base val) s s' := by
  have hptr : (Nat.digits base val.natAbs).length ≤ 31 := by
    rw [Nat.digits_length_le_iff (by omega)]
    refine hval.trans_lt ?_
    rcases hbase with rfl | rfl
    · decide
    · decide
  have hcells := digitCells_int (by omega) hptr [0] s
  exact .value_bind (fun _ => hcells) (putstring_settles (intText_ne_zero hbase val) [] s)

/-! ### Formats -/

/-- What `_printf` sends. -/
def render (args : Arguments) : List UInt8 → Nat → List UInt8
  | [], _ => []
  | c :: rest, i =>
      if c ≠ 0x25 then c :: render args rest i
      else match rest with
        | [] => [0x25]
        | d :: tail =>
            if d = 0x64 then intText 10 (args.word i).toInt32.toInt ++ render args tail (i + 1)
            else if d = 0x73 then args.string (args.word i) ++ render args tail (i + 1)
            else if d = 0x78 then
              intText 16 (args.word i).toInt32.toInt ++ render args tail (i + 1)
            else 0x25 :: render args (d :: tail) i

theorem natAbs_toInt_le (v : Int32) : v.toInt.natAbs ≤ 2 ^ 31 := by
  have hlo := v.le_toInt
  have hhi := v.toInt_lt
  omega

theorem printf_settles (line : Line) (args : Arguments) (format : List UInt8) (i : Nat)
    (s : Serial) :
    Settles (fun fuel => printf line fuel args format i) s fun _ s' =>
      Sent (render args format i) s s' := by
  -- by the recursion of what is to be sent: plain characters, the conversions, the rest
  fun_induction render args format i generalizing s with
  | case1 i => exact .pure (Sent.nil s)
  | case2 c rest i hc ih =>
      have hprintf (fuel : Nat) : printf line fuel args (c :: rest) i
          = (do putcc line fuel c; printf line fuel args rest i) := by
        conv_lhs => unfold printf
        exact if_pos hc
      simp only [hprintf]
      exact settles_append (putcc_settles c s) ih
  | case3 c i hc =>
      obtain rfl := not_not.mp hc
      exact putcc_settles 0x25 s
  | case4 c i hc tail ih =>
      obtain rfl := not_not.mp hc
      exact settles_append (printInt_settles (.inl rfl) (natAbs_toInt_le _) s) ih
  | case5 c i hc tail _ ih =>
      obtain rfl := not_not.mp hc
      exact settles_append (putstring_settles (args.string_ne_zero _) [] s) ih
  | case6 c i hc tail _ _ ih =>
      obtain rfl := not_not.mp hc
      exact settles_append (printInt_settles (.inr rfl) (natAbs_toInt_le _) s) ih
  | case7 c i hc d tail hd hs hx ih =>
      obtain rfl := not_not.mp hc
      simp only [printf, ne_eq, not_true_eq_false, if_false, if_neg hd, if_neg hs, if_neg hx]
      exact settles_append (putcc_settles 0x25 s) ih

/-! ### Numerals -/

/-- The character that a digit should have. -/
def numeralByte (d : Nat) : UInt8 := (PotatoOS.text "0123456789ABCDEF").getD d 0

/-- The usual numeral of a number, with upper-case digits. -/
def numeral (base n : Nat) : List UInt8 :=
  if n = 0 then [0x30] else ((Nat.digits base n).map numeralByte).reverse

/-- The decimal text that a number should have. -/
def decimal (val : Int) : List UInt8 :=
  if val < 0 then 0x2D :: numeral 10 val.natAbs else numeral 10 val.natAbs

/-- The hexadecimal text that a number should have. -/
def hexadecimal (v : UInt32) : List UInt8 := numeral 16 v.toNat

/-- Both conversions of the first argument send the numeral. -/
def PrintsInt (line : Line) (args : Arguments) (v : Int32) (s : Serial) : Prop :=
  Settles (fun fuel => printf line fuel args (PotatoOS.text "%d") 0) s
      (fun _ s' => s'.sent = s.sent ++ decimal v.toInt) ∧
    Settles (fun fuel => printf line fuel args (PotatoOS.text "%x") 0) s
      (fun _ s' => s'.sent = s.sent ++ hexadecimal v.toUInt32)

theorem digitText_eq_numeral {base n : Nat} (hbase : 2 ≤ base ∧ base ≤ 16) (hn : 0 < n) :
    digitText base 1 n = numeral base n := by
  have hbyte : ∀ d < 16, digitByte (1 * (d : Nat)) = numeralByte d := by decide
  rw [digitText, numeral, if_neg hn.ne']
  congr 1
  refine List.map_congr_left fun d hd => hbyte d ?_
  exact (Nat.digits_lt_base (by omega) hd).trans_le hbase.2

/-- Zero lacks its digit, and a negative number its sign. -/
theorem intText_ne_decimal {val : Int} (h : val ≤ 0) : intText 10 val ≠ decimal val := by
  rcases h.lt_or_eq with hneg | rfl
  · intro heq
    have hlen := congrArg List.length heq
    have habs : val.natAbs ≠ 0 := by omega
    simp only [intText, digitText, decimal, numeral, if_pos hneg, if_neg habs, List.length_cons,
      List.length_reverse, List.length_map] at hlen
    omega
  · decide

theorem intText_eq_numeral {base : Nat} (hbase : 2 ≤ base ∧ base ≤ 16) {val : Int} (h : 0 < val) :
    intText base val = numeral base val.natAbs := by
  rw [intText, if_neg (by omega)]
  exact digitText_eq_numeral hbase (by omega)

theorem toNat_toUInt32 {v : Int32} (h : 0 < v) : v.toUInt32.toNat = v.toInt.natAbs := by
  have hv := Int32.lt_iff_toInt_lt.mp h
  rw [Int32.toInt_zero] at hv
  rw [Int32.toNat_toUInt32_of_le (Int32.le_of_lt h)]
  show v.toInt.toNat = _
  omega

/-- One conversion sends one text. -/
theorem settles_sent_iff {F : Nat → Prog Serial Unit} {want : List UInt8}
    (h : Settles F s fun _ s' => Sent text s s') :
    Settles F s (fun _ s' => s'.sent = s.sent ++ want) ↔ text = want := by
  constructor
  · intro hwant
    obtain ⟨-, s', hsent, heq⟩ := (h.and hwant).exists
    exact List.append_cancel_left (hsent.sent.symm.trans heq)
  · rintro rfl
    exact h.mono fun _ _ hsent => hsent.sent

theorem printsInt_iff_text {args : Arguments} {v : Int32} (h : args.word 0 = v.toUInt32) :
    PrintsInt line args v s ↔
      intText 10 v.toInt = decimal v.toInt ∧ intText 16 v.toInt = hexadecimal v.toUInt32 := by
  have hsettles (base : Nat) (format : List UInt8)
      (hrender : render args format 0 = intText base (args.word 0).toInt32.toInt ++ []) :
      Settles (fun fuel => printf line fuel args format 0) s fun _ s' =>
        Sent (intText base v.toInt) s s' := by
    have hprintf := printf_settles line args format 0 s
    rwa [hrender, h, Int32.toInt32_toUInt32, List.append_nil] at hprintf
  rw [PrintsInt, settles_sent_iff (hsettles 10 (PotatoOS.text "%d") rfl),
    settles_sent_iff (hsettles 16 (PotatoOS.text "%x") rfl)]

/-- Both conversions are right for the positive numbers, and for no others. -/
theorem printsInt_iff (line : Line) (args : Arguments) (v : Int32) (s : Serial)
    (h : args.word 0 = v.toUInt32) : PrintsInt line args v s ↔ 0 < v := by
  rw [printsInt_iff_text h]
  constructor
  · rintro ⟨hdecimal, -⟩
    by_contra hv
    rw [Int32.lt_iff_toInt_lt, Int32.toInt_zero, not_lt] at hv
    exact intText_ne_decimal hv hdecimal
  · intro hv
    have hval := Int32.lt_iff_toInt_lt.mp hv
    rw [Int32.toInt_zero] at hval
    constructor
    · rw [intText_eq_numeral (by decide) hval, decimal, if_neg (not_lt.mpr hval.le)]
    · rw [intText_eq_numeral (by decide) hval, hexadecimal, toNat_toUInt32 hv]

/-- A line that is always ready. -/
def readyLine : Line where
  status _ := 0x21
  sends t := ⟨t, Nat.le_refl t, by decide⟩
  receives t := ⟨t, Nat.le_refl t, by decide⟩

/-- A call with one number as its argument. -/
def oneNumber (v : Int32) : Arguments where
  word _ := v.toUInt32
  string _ := []
  string_ne_zero _ := List.forall_mem_nil _

/-- A console that has not been used. -/
def idle : Serial := ⟨0, [], [], []⟩

theorem printsInt_fortyTwo : PrintsInt readyLine (oneNumber 42) 42 idle :=
  (printsInt_iff readyLine (oneNumber 42) 42 idle rfl).mpr (by decide)

theorem not_printsInt_zero_neg :
    ¬PrintsInt readyLine (oneNumber 0) 0 idle ∧
      ¬PrintsInt readyLine (oneNumber (-5)) (-5) idle := by
  constructor
  · intro hprints
    exact intText_ne_decimal (by decide) ((printsInt_iff_text rfl).mp hprints).1
  · intro hprints
    exact intText_ne_decimal (by decide) ((printsInt_iff_text rfl).mp hprints).1

end Serial

end PotatoOS
