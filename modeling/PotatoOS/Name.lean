/-
PotatoOS/Name.lean

File names: `testIfFATFormat`, the two conversions and the string functions
they rest on.

A directory entry stores a name as 11 bytes, eight for the base and three
for the extension, padded with spaces.  `testIfFATFormat` tells whether 11
bytes are such a name (`testIfFATFormat_eq_zero_iff`), `convertFromFATFormat`
turns one into the dotted form and `convertToFATFormat` turns a dotted form
back.  A search never compares the caller's text: it compares `searchName`,
which is the text itself when it passes the test and its conversion
otherwise.

The dotted form drops what stands behind the first space of either field.
So the way there and back is the identity exactly on names without an inner
space; `searchName_convertFromFATFormat` is that statement for the names a
search can be given.
-/
import PotatoOS.Volume

namespace PotatoOS

/-! ### C strings -/

/-- Offset of the first zero byte among the first `n`. -/
def strnlen (m : Mem) (n : Nat) : Option Nat := (List.range n).find? fun i => m i = 0

/-- `strncmp` of tty.c. -/
def strncmp (s₁ s₂ : Mem) : Nat → Int
  | 0 => 0
  | n + 1 =>
      if s₁ 0 = 0 ∨ s₂ 0 = 0 then (s₁ 0).toNat - (s₂ 0).toNat
      else if s₁ 0 ≠ s₂ 0 then (s₁ 0).toNat - (s₂ 0).toNat
      else strncmp (fun i => s₁ (i + 1)) (fun i => s₂ (i + 1)) n

/-- One character of `uppercase_str`. -/
def uppercase (b : UInt8) : UInt8 := if 97 ≤ b ∧ b ≤ 122 then b - 32 else b

/-- `uppercase_str` on a string of `len` characters. -/
def uppercaseStr (m : Mem) (len : Nat) : Mem := fun i => if i < len then uppercase (m i) else m i

theorem strnlen_eq_some_iff {m : Mem} {n k : Nat} :
    strnlen m n = some k ↔ k < n ∧ m k = 0 ∧ ∀ i < k, m i ≠ 0 := by
  rw [strnlen, List.find?_range_eq_some]
  simp only [decide_eq_true_eq, List.mem_range, Bool.not_eq_eq_eq_not, Bool.not_true,
    decide_eq_false_iff_not]
  tauto

/-- Without a zero byte on one side the comparison is equality. -/
theorem strncmp_eq_zero_iff {s₁ s₂ : Mem} {n : Nat} (h : ∀ i < n, s₂ i ≠ 0) :
    strncmp s₁ s₂ n = 0 ↔ ∀ i < n, s₁ i = s₂ i := by
  induction n generalizing s₁ s₂ with
  | zero => simp [strncmp]
  | succ n ih =>
      have hd : ((s₁ 0).toNat - (s₂ 0).toNat : Int) = 0 ↔ s₁ 0 = s₂ 0 := by
        rw [← UInt8.toNat_inj]
        omega
      have hsplit : (∀ i < n + 1, s₁ i = s₂ i) ↔
          s₁ 0 = s₂ 0 ∧ ∀ i < n, s₁ (i + 1) = s₂ (i + 1) := by
        constructor
        · intro hall
          exact ⟨hall 0 (by omega), fun i hi => hall (i + 1) (by omega)⟩
        · rintro ⟨h₀, hs⟩ (- | i) hi
          · exact h₀
          · exact hs i (by omega)
      have h₂ : s₂ 0 ≠ 0 := h 0 (by omega)
      rw [strncmp, hsplit]
      -- equal bytes are not 0 here, so the comparison goes on; other bytes end it
      by_cases he : s₁ 0 = s₂ 0
      · rw [if_neg (by simp [he, h₂]), if_neg (by simp [he]), ih fun i hi => h (i + 1) (by omega)]
        simp [he]
      · by_cases h₁ : s₁ 0 = 0
        · rw [if_pos (.inl h₁), hd]
          simp [he]
        · rw [if_neg (by simp [h₁, h₂]), if_pos he, hd]
          simp [he]

/-! ### The format test -/

/-- `LOWERCASE_ISSUE`: a letter in lower case. -/
def lowercaseIssue : Nat := 0x01

/-- `BAD_CHARACTER`: a character that no name may have. -/
def badCharacter : Nat := 0x02

/-- `NOT_CONVERTED_YET`: there still is a dot. -/
def notConvertedYet : Nat := 0x08

/-- `TOO_MANY_DOTS`: there are more of them. -/
def tooManyDots : Nat := 0x10

/-- The value of a `char`, which is signed. -/
def signedChar (b : UInt8) : Int := if b < 0x80 then b.toNat else b.toNat - 256

/-- The characters of the `switch` that are refused. -/
def badCharacters : List UInt8 :=
  [0x22, 0x2A, 0x2B, 0x2C, 0x2F, 0x3A, 0x3B, 0x3C, 0x3D, 0x3E, 0x3F, 0x5B, 0x5C, 0x5D, 0x7C]

/-- One round of `testIfFATFormat`. -/
def testByte (retVal : Nat) (b : UInt8) : Nat :=
  let retVal := if signedChar b < 0x20 ∧ b ≠ 0x05 then retVal ||| badCharacter else retVal
  let retVal :=
    if b = 0x2E then
      (if retVal &&& notConvertedYet = notConvertedYet then retVal ||| tooManyDots else retVal)
        ^^^ notConvertedYet
    else if b ∈ badCharacters then retVal ||| badCharacter
    else retVal
  if 97 ≤ signedChar b ∧ signedChar b ≤ 122 then retVal ||| lowercaseIssue else retVal

/-- `testIfFATFormat`: the flags of the 11 bytes, 0 for a name as it is stored. -/
def testIfFATFormat (input : Mem) : Nat :=
  (List.range 11).foldl (fun retVal i => testByte retVal (input i)) 0

/-- A byte that a stored name may hold. -/
def LegalByte (b : UInt8) : Prop :=
  (0x20 ≤ signedChar b ∨ b = 0x05) ∧ b ≠ 0x2E ∧ b ∉ badCharacters ∧
    ¬ (97 ≤ signedChar b ∧ signedChar b ≤ 122)

instance (b : UInt8) : Decidable (LegalByte b) := inferInstanceAs (Decidable (_ ∧ _))

theorem dotToggle_ne_zero (r : Nat) :
    (if r &&& notConvertedYet = notConvertedYet then r ||| tooManyDots else r)
      ^^^ notConvertedYet ≠ 0 := by
  have hx : ∀ {x : Nat}, x ^^^ notConvertedYet = 0 → x = notConvertedYet := by
    intro x h
    have := congrArg (· ^^^ notConvertedYet) h
    simpa [Nat.xor_assoc] using this
  split
  · intro h
    have hbit : (r ||| tooManyDots).testBit 4 = notConvertedYet.testBit 4 := by rw [hx h]
    rw [Nat.testBit_or, show tooManyDots.testBit 4 = true from rfl, Bool.or_true] at hbit
    exact absurd hbit (by decide)
  · rename_i hne
    intro h
    exact hne (by rw [hx h]; rfl)

/-- A round leaves the code at zero only on a legal byte. -/
theorem testByte_eq_zero_iff (r : Nat) (b : UInt8) : testByte r b = 0 ↔ r = 0 ∧ LegalByte b := by
  have hor : ∀ {x y : Nat}, y ≠ 0 → (x ||| y ≠ 0) := fun hy h =>
    hy (Nat.or_eq_zero_iff.mp h).2
  rw [testByte, LegalByte]
  by_cases hlow : 97 ≤ signedChar b ∧ signedChar b ≤ 122
  · simp only [if_pos hlow]
    refine iff_of_false (hor (by decide)) fun h => h.2.2.2.2 hlow
  simp only [if_neg hlow]
  by_cases hdot : b = 0x2E
  · simp only [if_pos hdot]
    exact iff_of_false (dotToggle_ne_zero _) fun h => h.2.2.1 hdot
  simp only [if_neg hdot]
  by_cases hbad : b ∈ badCharacters
  · simp only [if_pos hbad]
    exact iff_of_false (hor (by decide)) fun h => h.2.2.2.1 hbad
  simp only [if_neg hbad]
  by_cases hctl : signedChar b < 0x20 ∧ b ≠ 0x05
  · simp only [if_pos hctl]
    refine iff_of_false (hor (by decide)) fun h => ?_
    rcases h.2.1 with hge | he
    · exact absurd hctl.1 (by omega)
    · exact hctl.2 he
  · simp only [if_neg hctl]
    -- what passes all tests is legal
    have hok : 0x20 ≤ signedChar b ∨ b = 0x05 := by
      rcases not_and_or.mp hctl with hge | he
      · exact .inl (by omega)
      · exact .inr (not_not.mp he)
    simp [hok, hdot, hbad, hlow]

theorem testIfFATFormat_eq_zero_iff (input : Mem) :
    testIfFATFormat input = 0 ↔ ∀ i < 11, LegalByte (input i) := by
  have hfold : ∀ (l : List Nat) (r : Nat),
      l.foldl (fun retVal i => testByte retVal (input i)) r = 0 ↔
        r = 0 ∧ ∀ i ∈ l, LegalByte (input i) := by
    intro l
    induction l with
    | nil => simp
    | cons i l ih =>
        intro r
        rw [List.foldl_cons, ih, testByte_eq_zero_iff, List.forall_mem_cons, and_assoc]
  rw [testIfFATFormat, hfold]
  simp

/-! ### The conversions -/

/-- The first loop of `convertToFATFormat`: copy up to a dot or a zero byte.
Gives the array, `counter` and `dotPos`. -/
def copyBase (input : Mem) : Nat → Nat → Mem → Mem × Nat × Nat
  | 0, counter, searchName => (searchName, counter, 0)
  | n + 1, counter, searchName =>
      if input counter = 0x2E ∨ input counter = 0 then (searchName, counter + 1, counter)
      else copyBase input n (counter + 1) (memcpy searchName counter (fun _ => input counter) 1)

/-- `convertToFATFormat` on an array of 13 bytes. -/
def convertToFATFormat (input : Mem) : Mem :=
  let input := uppercaseStr input ((strnlen input 13).getD 13)
  let (searchName, counter, dotPos) := copyBase input 9 0 fun _ => 0
  -- the guard against a name of 11 characters without a dot: nine rounds never get past 9
  let (counter, dotPos) := if counter > 9 then (8, 8) else (counter, dotPos)
  let searchName := memcpy searchName 8
    (fun j => if input (counter + j) ≠ 0 then input (counter + j) else 0x20) 3
  let searchName := memcpy searchName dotPos (fun _ => 0x20) (8 - dotPos)
  memcpy input 0 searchName ((strnlen searchName 13).getD 13 + 1)

/-- How many characters stand before the first space of an `n`-byte field. -/
def fieldLength (input : Mem) (o n : Nat) : Nat :=
  ((List.range n).find? fun i => input (o + i) = 0x20).getD n

/-- Where the base loop of `convertFromFATFormat` ends. -/
def baseLength (input : Mem) : Nat := fieldLength input 0 8

/-- The extension loop of `convertFromFATFormat`, on `unsigned short` counters. -/
def copyExt (input : Mem) : Nat → Nat → Nat → Mem → Mem × Nat
  | 0, _, counter, output => (output, counter)
  | n + 1, counter2, counter, output =>
      let counter := (counter + 1) % 2 ^ 16
      if input counter2 = 0x20 then
        -- without an extension the padding starts at the dot
        (output, if counter2 = 8 then (counter + (2 ^ 16 - 2)) % 2 ^ 16 else counter)
      else copyExt input n (counter2 + 1) counter
        (memcpy output counter (fun _ => input counter2) 1)

/-- `convertFromFATFormat`; `output` is what the caller's array held. -/
def convertFromFATFormat (input output : Mem) : Mem :=
  -- the entries `.` and `..`
  if input 0 = 0x2E then
    if input 1 = 0x2E then memcpy output 0 (fun i => if i < 2 then 0x2E else 0) 3
    else memcpy output 0 (fun i => if i < 1 then 0x2E else 0) 2
  else
    let counter := baseLength input
    let output := memcpy (memcpy output 0 input counter) counter (fun _ => 0x2E) 1
    let (output, counter) := copyExt input 3 8 counter output
    -- behind a shorter extension this leaves a byte as the array held it
    let counter := (counter + 1) % 2 ^ 16
    let output := memcpy output counter (fun _ => 0x20) (12 - counter)
    memcpy output 12 (fun _ => 0) 1

/-- The name that a search compares with: the local array of
`directorySearch`, which has no room for 13 characters. -/
def searchName (filepart : Mem) : Option Mem :=
  match strnlen filepart 13 with
  | none => none
  | some len =>
      let array := memcpy (fun _ => 0) 0 filepart (len + 1)
      some (if testIfFATFormat array ≠ 0 then convertToFATFormat array else array)

section

variable {input acc : Mem} {n counter dotPos p : Nat}

theorem copyBase_stop (n counter : Nat) (acc : Mem) (hp : input p = 0x2E ∨ input p = 0)
    (hle : counter ≤ p) (hn : p < counter + n)
    (hbefore : ∀ i, counter ≤ i → i < p → ¬ (input i = 0x2E ∨ input i = 0)) :
    ∃ acc', copyBase input n counter acc = (acc', p + 1, p) ∧
      (∀ i, counter ≤ i → i < p → acc' i = input i) ∧
      ∀ i, i < counter ∨ p ≤ i → acc' i = acc i := by
  induction n generalizing counter acc with
  | zero => omega
  | succ n ih =>
      rcases Nat.eq_or_lt_of_le hle with rfl | hlt
      · rw [copyBase, if_pos hp]
        exact ⟨acc, rfl, fun i h₁ h₂ => absurd h₁ (by omega), fun _ _ => rfl⟩
      · obtain ⟨acc', he, hin, hout⟩ := ih (counter + 1)
          (memcpy acc counter (fun _ => input counter) 1) hlt (by omega)
          fun i hi => hbefore i (by omega)
        rw [copyBase, if_neg (hbefore counter (Nat.le_refl _) hlt), he]
        refine ⟨acc', rfl, fun i h₁ h₂ => ?_, fun i hi => ?_⟩
        · rcases Nat.eq_or_lt_of_le h₁ with rfl | h₁
          · rw [hout _ (.inl (by omega)), memcpy_apply_of_mem (by omega) (by omega)]
          · exact hin i h₁ h₂
        · rw [hout i (by omega), memcpy_apply_of_notMem (by omega)]

theorem copyBase_noStop (n counter : Nat) (acc : Mem)
    (h : ∀ i, counter ≤ i → i < counter + n → ¬ (input i = 0x2E ∨ input i = 0)) :
    ∃ acc', copyBase input n counter acc = (acc', counter + n, 0) ∧
      ∀ i, i < counter ∨ counter + n ≤ i → acc' i = acc i := by
  induction n generalizing counter acc with
  | zero => exact ⟨acc, rfl, fun _ _ => rfl⟩
  | succ n ih =>
      obtain ⟨acc', he, hout⟩ := ih (counter + 1) (memcpy acc counter (fun _ => input counter) 1)
        fun i h₁ h₂ => h i (by omega) (by omega)
      rw [copyBase, if_neg (h counter (Nat.le_refl _) (by omega)), he,
        show counter + 1 + n = counter + (n + 1) by omega]
      refine ⟨acc', rfl, fun i hi => ?_⟩
      rw [hout i (by omega), memcpy_apply_of_notMem (by omega)]

/-- The name that `convertToFATFormat` builds from what its first loop leaves. -/
theorem convertToFATFormat_apply {u : Mem}
    (hu : uppercaseStr input ((strnlen input 13).getD 13) = u)
    (hc : copyBase u 9 0 (fun _ => 0) = (acc, counter, dotPos)) (h₉ : counter ≤ 9)
    (hbase : ∀ i < dotPos, acc i = u i ∧ u i ≠ 0) (h₁₁ : acc 11 = 0) {i : Nat} (hi : i < 11) :
    convertToFATFormat input i =
      (if i < 8 then (if i < dotPos then u i else 0x20)
        else if u (counter + (i - 8)) ≠ 0 then u (counter + (i - 8)) else 0x20) ∧
      convertToFATFormat input i ≠ 0 := by
  let name : Mem := memcpy (memcpy acc 8
    (fun j => if u (counter + j) ≠ 0 then u (counter + j) else 0x20) 3) dotPos
    (fun _ => 0x20) (8 - dotPos)
  have hval : ∀ j < 11, name j =
      if j < 8 then (if j < dotPos then u j else 0x20)
      else if u (counter + (j - 8)) ≠ 0 then u (counter + (j - 8)) else 0x20 := by
    intro j hj
    by_cases h₈ : j < 8
    · rw [if_pos h₈]
      by_cases hd : j < dotPos
      · rw [if_pos hd, show name j = memcpy acc 8 _ 3 j from memcpy_apply_of_notMem (.inl hd),
          memcpy_apply_of_notMem (.inl h₈), (hbase j hd).1]
      · rw [if_neg hd]
        exact memcpy_apply_of_mem (by omega) (by omega)
    · rw [if_neg h₈, show name j = memcpy acc 8 _ 3 j from memcpy_apply_of_notMem (by omega),
        memcpy_apply_of_mem (by omega) (by omega)]
  have hne : ∀ j < 11, name j ≠ 0 := by
    intro j hj
    rw [hval j hj]
    split
    · split
      · exact (hbase j (by assumption)).2
      · decide
    · split
      · assumption
      · decide
  have hzero : name 11 = 0 := by
    rw [show name 11 = memcpy acc 8 _ 3 11 from memcpy_apply_of_notMem (by omega),
      memcpy_apply_of_notMem (by omega), h₁₁]
  -- so all 11 characters are copied back
  have hlen : strnlen name 13 = some 11 := strnlen_eq_some_iff.mpr ⟨by omega, hzero, hne⟩
  have hrun : convertToFATFormat input = memcpy u 0 name ((strnlen name 13).getD 13 + 1) := by
    simp only [convertToFATFormat, hu, hc, if_neg (show ¬ counter > 9 by omega)]
    rfl
  have happ : convertToFATFormat input i = name i := by
    rw [hrun, hlen, memcpy_apply_of_mem (Nat.zero_le _) (by simp; omega), Nat.sub_zero]
  exact ⟨happ.trans (hval i hi), by rw [happ]; exact hne i hi⟩

/-- A dot or an end within the first nine characters splits the name there. -/
theorem convertToFATFormat_of_stop {u : Mem}
    (hu : uppercaseStr input ((strnlen input 13).getD 13) = u) (hp : p < 9)
    (hstop : u p = 0x2E ∨ u p = 0) (hbefore : ∀ i < p, ¬ (u i = 0x2E ∨ u i = 0))
    {i : Nat} (hi : i < 11) :
    convertToFATFormat input i =
      (if i < 8 then (if i < p then u i else 0x20)
        else if u (p + 1 + (i - 8)) ≠ 0 then u (p + 1 + (i - 8)) else 0x20) ∧
      convertToFATFormat input i ≠ 0 := by
  obtain ⟨acc, he, hin, hout⟩ := copyBase_stop 9 0 (fun _ => 0) hstop (Nat.zero_le _)
    (by omega) fun j _ hj => hbefore j hj
  have hbase : ∀ j < p, acc j = u j ∧ u j ≠ 0 := fun j hj =>
    ⟨hin j (Nat.zero_le _) hj, fun h₀ => hbefore j hj (.inr h₀)⟩
  exact convertToFATFormat_apply hu he (by omega) hbase (hout 11 (by omega)) hi

/-- Without one, the guard lets the counter pass and the base is blanked. -/
theorem convertToFATFormat_of_noStop {u : Mem}
    (hu : uppercaseStr input ((strnlen input 13).getD 13) = u)
    (h : ∀ i < 9, ¬ (u i = 0x2E ∨ u i = 0)) {i : Nat} (hi : i < 11) :
    convertToFATFormat input i =
      (if i < 8 then 0x20
        else if u (9 + (i - 8)) ≠ 0 then u (9 + (i - 8)) else 0x20) ∧
      convertToFATFormat input i ≠ 0 := by
  obtain ⟨acc, he, hout⟩ := copyBase_noStop 9 0 (fun _ => 0) fun j _ hj => h j (by omega)
  have happ := convertToFATFormat_apply hu he (by omega) (fun j hj => absurd hj (by omega))
    (hout 11 (by omega)) hi
  simpa only [Nat.not_lt_zero, if_false, Nat.zero_add] using happ

theorem exists_firstStop_or (u : Mem) :
    (∃ p < 9, (u p = 0x2E ∨ u p = 0) ∧ ∀ i < p, ¬ (u i = 0x2E ∨ u i = 0)) ∨
      ∀ i < 9, ¬ (u i = 0x2E ∨ u i = 0) := by
  by_cases hex : ∃ p < 9, u p = 0x2E ∨ u p = 0
  · obtain ⟨hlt, hp⟩ := Nat.find_spec hex
    refine .inl ⟨Nat.find hex, hlt, hp, fun j hj hstop => ?_⟩
    exact Nat.find_min hex hj ⟨by omega, hstop⟩
  · exact .inr fun j hj hstop => hex ⟨j, hj, hstop⟩

/-- A converted name holds no zero byte. -/
theorem convertToFATFormat_ne_zero (input : Mem) {i : Nat} (hi : i < 11) :
    convertToFATFormat input i ≠ 0 := by
  rcases exists_firstStop_or (uppercaseStr input ((strnlen input 13).getD 13)) with
    ⟨p, hp, hstop, hbefore⟩ | hno
  · exact (convertToFATFormat_of_stop rfl hp hstop hbefore hi).2
  · exact (convertToFATFormat_of_noStop rfl hno hi).2

/-- Its base holds no dot. -/
theorem convertToFATFormat_ne_dot (input : Mem) {i : Nat} (hi : i < 8) :
    convertToFATFormat input i ≠ 0x2E := by
  rcases exists_firstStop_or (uppercaseStr input ((strnlen input 13).getD 13)) with
    ⟨p, hp, hstop, hbefore⟩ | hno
  · rw [(convertToFATFormat_of_stop rfl hp hstop hbefore (by omega)).1, if_pos hi]
    split
    · rename_i hlt
      exact fun h => hbefore i hlt (.inl h)
    · decide
  · rw [(convertToFATFormat_of_noStop rfl hno (by omega)).1, if_pos hi]
    decide

end

theorem LegalByte.ne_zero {b : UInt8} (h : LegalByte b) : b ≠ 0 := by
  rintro rfl
  exact absurd h (by decide)

/-- A search name holds no zero byte among its 11. -/
theorem searchName_ne_zero {filepart key : Mem} (h : searchName filepart = some key) {i : Nat}
    (hi : i < 11) : key i ≠ 0 := by
  rw [searchName] at h
  split at h
  · cases h
  · obtain rfl := Option.some.inj h
    split
    · exact convertToFATFormat_ne_zero _ hi
    · rename_i ht
      exact ((testIfFATFormat_eq_zero_iff _).mp (not_not.mp ht) i hi).ne_zero

/-! ### There and back -/

/-- Number of characters of the extension. -/
def extLength (input : Mem) : Nat := fieldLength input 8 3

/-- No character of the `n`-byte field at `o` stands behind a space. -/
def FieldPadded (input : Mem) (o n : Nat) : Prop :=
  ∀ i j, i < j → j < n → input (o + i) = 0x20 → input (o + j) = 0x20

/-- Neither base nor extension has an inner space. -/
structure Padded (input : Mem) : Prop where
  base : FieldPadded input 0 8
  ext : FieldPadded input 8 3

/-- `convertFromFATFormat` skips one byte of its output behind an extension of
one or two characters; the byte that stood there ends or pads the name. -/
def ResidueOk (input output : Mem) : Prop :=
  extLength input = 0 ∨ extLength input = 3 ∨
    output (baseLength input + 1 + extLength input) = 0 ∨
    output (baseLength input + 1 + extLength input) = 0x20

section

variable {input output : Mem} {o n i : Nat}

theorem fieldLength_spec (input : Mem) (o n : Nat) :
    fieldLength input o n ≤ n ∧ (∀ i < fieldLength input o n, input (o + i) ≠ 0x20) ∧
      (fieldLength input o n < n → input (o + fieldLength input o n) = 0x20) := by
  rw [fieldLength]
  rcases h : (List.range n).find? fun i => input (o + i) = 0x20 with - | k
  · rw [List.find?_eq_none] at h
    refine ⟨Nat.le_refl _, fun i hi => ?_, fun hlt => absurd hlt (Nat.lt_irrefl _)⟩
    simpa using h i (List.mem_range.mpr hi)
  · rw [List.find?_range_eq_some] at h
    obtain ⟨hq, hk, hbefore⟩ := h
    refine ⟨(List.mem_range.mp hk).le, fun i hi => ?_, fun _ => of_decide_eq_true hq⟩
    simpa using hbefore i hi

/-- In a padded field everything from its length on is space. -/
theorem FieldPadded.space (h : FieldPadded input o n) (h₁ : fieldLength input o n ≤ i)
    (h₂ : i < n) : input (o + i) = 0x20 := by
  have hb := (fieldLength_spec input o n).2.2 (by omega)
  rcases Nat.eq_or_lt_of_le h₁ with rfl | h₁
  · exact hb
  · exact h _ i h₁ h₂ hb

theorem baseLength_le (input : Mem) : baseLength input ≤ 8 := (fieldLength_spec input 0 8).1

theorem Padded.base_space (h : Padded input) (h₁ : baseLength input ≤ i) (h₂ : i < 8) :
    input i = 0x20 := by
  have := h.base.space h₁ h₂
  rwa [Nat.zero_add] at this

/-- Without an extension the dotted form is the base and spaces. -/
theorem convertFromFATFormat_noExt (output : Mem) (h₀ : input 0 ≠ 0x2E) (h₈ : input 8 = 0x20) :
    (∀ i < 12, convertFromFATFormat input output i =
      if i < baseLength input then input i else 0x20) ∧
      convertFromFATFormat input output 12 = 0 := by
  have hb := baseLength_le input
  have hc : ((baseLength input + 1) % 2 ^ 16 + (2 ^ 16 - 2)) % 2 ^ 16 + 1
      = if baseLength input = 0 then 2 ^ 16 else baseLength input := by
    split <;> omega
  have hrun : convertFromFATFormat input output
      = memcpy (memcpy (memcpy (memcpy output 0 input (baseLength input)) (baseLength input)
          (fun _ => 0x2E) 1) (baseLength input) (fun _ => 0x20) (12 - baseLength input)) 12
          (fun _ => 0) 1 := by
    have hc' : (if baseLength input = 0 then 2 ^ 16 else baseLength input) % 2 ^ 16
        = baseLength input := by
      split <;> omega
    simp only [convertFromFATFormat, if_neg h₀, copyExt, if_pos h₈, if_true, hc, hc']
  rw [hrun]
  refine ⟨fun i hi => ?_, ?_⟩
  · split <;> simp (disch := omega) only [memcpy_apply_of_mem, memcpy_apply_of_notMem, Nat.sub_zero]
  · simp (disch := omega) only [memcpy_apply_of_mem]

/-- The extension loop copies `e ≥ 1` characters and counts the space it
stops at. -/
theorem copyExt_apply {e n : Nat} (counter2 counter : Nat) (out : Mem) (hle : e ≤ n)
    (hbefore : ∀ j < e, input (counter2 + j) ≠ 0x20)
    (hat : e < n → input (counter2 + e) = 0x20) (hc : counter + n < 2 ^ 16)
    (h₈ : counter2 + e ≠ 8) :
    ∃ out', copyExt input n counter2 counter out = (out', counter + min (e + 1) n) ∧
      (∀ j < e, out' (counter + 1 + j) = input (counter2 + j)) ∧
      ∀ i, i ≤ counter ∨ counter + e < i → out' i = out i := by
  induction n generalizing e counter2 counter out with
  | zero => exact ⟨out, by rw [copyExt, Nat.min_zero, Nat.add_zero], fun j hj => by omega,
      fun _ _ => rfl⟩
  | succ n ih =>
      have hm : (counter + 1) % 2 ^ 16 = counter + 1 := Nat.mod_eq_of_lt (by omega)
      rcases e with - | e
      · -- the space
        have h₀ : input counter2 = 0x20 := hat (by omega)
        rw [copyExt]
        simp only [hm, if_pos h₀, if_neg (show ¬ counter2 = 8 by omega)]
        exact ⟨out, by rw [Nat.min_eq_left (by omega)], fun j hj => by omega, fun _ _ => rfl⟩
      · have h₀ : input counter2 ≠ 0x20 := hbefore 0 (by omega)
        have hs : ∀ j, counter2 + 1 + j = counter2 + (j + 1) := fun j => by omega
        obtain ⟨out', he, hin, hout⟩ := ih (e := e) (counter2 + 1) (counter + 1)
          (memcpy out (counter + 1) (fun _ => input counter2) 1) (by omega)
          (fun j hj => by rw [hs]; exact hbefore (j + 1) (by omega))
          (fun hlt => by rw [hs]; exact hat (by omega)) (by omega) (by omega)
        rw [copyExt]
        simp only [hm, if_neg h₀, he]
        refine ⟨out', by rw [show counter + 1 + min (e + 1) n = counter + min (e + 1 + 1) (n + 1)
          by omega], ?_, ?_⟩
        · rintro (- | j) hj
          · rw [hout _ (.inl (by omega)), memcpy_apply_of_mem (by omega) (by omega), Nat.add_zero]
          · rw [show counter + 1 + (j + 1) = counter + 1 + 1 + j by omega, hin j (by omega), hs]
        · intro i hi
          rw [hout i (by omega), memcpy_apply_of_notMem (by omega)]

/-- With an extension it is the base, a dot, the extension, the skipped byte
if there is one, and spaces. -/
theorem convertFromFATFormat_ext (output : Mem) (h₀ : input 0 ≠ 0x2E) (h₈ : input 8 ≠ 0x20) :
    (∀ i < baseLength input, convertFromFATFormat input output i = input i) ∧
      convertFromFATFormat input output (baseLength input) = 0x2E ∧
      (∀ j < 3, convertFromFATFormat input output (baseLength input + 1 + j) =
        if j < extLength input then input (8 + j)
        else if j = extLength input then output (baseLength input + 1 + j) else 0x20) ∧
      convertFromFATFormat input output 12 = 0 := by
  have hb := baseLength_le input
  obtain ⟨hle, hbefore, hat⟩ := fieldLength_spec input 8 3
  rw [show fieldLength input 8 3 = extLength input from rfl] at hle hbefore hat
  have hpos : extLength input ≠ 0 := fun he => h₈ (by simpa [he] using hat)
  set b := baseLength input with hbdef
  set e := extLength input
  let dotted := memcpy (memcpy output 0 input b) b (fun _ => 0x2E) 1
  obtain ⟨out', he, hin, hout⟩ := copyExt_apply 8 b dotted hle hbefore hat (by omega) (by omega)
  have hmin : min (e + 1) 3 ≤ 3 ∧ (e < 3 → min (e + 1) 3 = e + 1) ∧
      (e = 3 → min (e + 1) 3 = 3) := by
    omega
  -- the rest of the array is padded and terminated
  have hrun : convertFromFATFormat input output
      = memcpy (memcpy out' (b + min (e + 1) 3 + 1) (fun _ => 0x20)
          (12 - (b + min (e + 1) 3 + 1))) 12 (fun _ => 0) 1 := by
    have hm : (b + min (e + 1) 3 + 1) % 2 ^ 16 = b + min (e + 1) 3 + 1 :=
      Nat.mod_eq_of_lt (by omega)
    simp only [convertFromFATFormat, if_neg h₀, ← hbdef, he, hm, dotted]
  generalize min (e + 1) 3 = k at hmin hrun
  rw [hrun]
  refine ⟨fun i hi => ?_, ?_, fun j hj => ?_, ?_⟩
  · simp (disch := omega) only [memcpy_apply_of_notMem]
    rw [hout i (.inl (by omega))]
    simp (disch := omega) only [dotted, memcpy_apply_of_mem, memcpy_apply_of_notMem, Nat.sub_zero]
  · simp (disch := omega) only [memcpy_apply_of_notMem]
    rw [hout b (.inl (Nat.le_refl _))]
    simp (disch := omega) only [dotted, memcpy_apply_of_mem]
  · split
    · simp (disch := omega) only [memcpy_apply_of_notMem]
      exact hin j (by assumption)
    · split
      · simp (disch := omega) only [memcpy_apply_of_notMem]
        rw [hout _ (.inr (by omega))]
        simp (disch := omega) only [dotted, memcpy_apply_of_notMem]
      · simp (disch := omega) only [memcpy_apply_of_mem, memcpy_apply_of_notMem]
  · simp (disch := omega) only [memcpy_apply_of_mem]

theorem LegalByte.uppercase_eq {b : UInt8} (h : LegalByte b) : uppercase b = b := by
  refine if_neg fun hlow => h.2.2.2 ?_
  have h₁ : (97 : UInt8).toNat ≤ b.toNat := UInt8.le_iff_toNat_le.mp hlow.1
  have h₂ : b.toNat ≤ (122 : UInt8).toNat := UInt8.le_iff_toNat_le.mp hlow.2
  have hs : signedChar b = b.toNat :=
    if_pos (UInt8.lt_iff_toNat_lt.mpr (Nat.lt_of_le_of_lt h₂ (by decide)))
  rw [hs]
  exact ⟨Int.ofNat_le.mpr h₁, Int.ofNat_le.mpr h₂⟩

/-- The local array that a search name is copied to: the string, then zeros. -/
theorem strcpy_apply {filepart : Mem} {len : Nat} (h : strnlen filepart 13 = some len) (i : Nat) :
    memcpy (fun _ => 0) 0 filepart (len + 1) i = if i < len then filepart i else 0 := by
  obtain ⟨-, h₀, -⟩ := strnlen_eq_some_iff.mp h
  split
  · rw [memcpy_apply_of_mem (Nat.zero_le _) (by omega), Nat.sub_zero]
  · rename_i hi
    rcases Nat.eq_or_lt_of_le (Nat.le_of_not_lt hi) with rfl | hlt
    · rw [memcpy_apply_of_mem (Nat.zero_le _) (by omega), Nat.sub_zero, h₀]
    · exact memcpy_apply_of_notMem (by omega)

/-- A text whose first 11 characters are a legal name is searched as it is. -/
theorem searchName_of_legal {filepart : Mem} {len : Nat}
    (hlegal : ∀ i < 11, LegalByte (filepart i)) (hlen : strnlen filepart 13 = some len) :
    ∃ key, searchName filepart = some key ∧ ∀ i < 11, key i = filepart i := by
  have hlong : 11 ≤ len := by
    by_contra hshort
    exact (hlegal len (by omega)).ne_zero (strnlen_eq_some_iff.mp hlen).2.1
  have harr : ∀ i < 11, memcpy (fun _ => 0) 0 filepart (len + 1) i = filepart i := fun i hi => by
    rw [strcpy_apply hlen, if_pos (by omega)]
  have htest : testIfFATFormat (memcpy (fun _ => 0) 0 filepart (len + 1)) = 0 := by
    refine (testIfFATFormat_eq_zero_iff _).mpr fun i hi => ?_
    rw [harr i hi]
    exact hlegal i hi
  refine ⟨_, ?_, harr⟩
  rw [searchName, hlen]
  simp only [htest, ne_eq, not_true_eq_false, if_false]

/-- Without an extension the dotted form is the name itself. -/
theorem searchName_convertFromFATFormat_noExt (hlegal : ∀ i < 11, LegalByte (input i))
    (hp : Padded input) (h₈ : input 8 = 0x20) :
    ∃ key, searchName (convertFromFATFormat input output) = some key ∧
      ∀ i < 11, key i = input i := by
  obtain ⟨hout, hend⟩ := convertFromFATFormat_noExt output
    (hlegal 0 (by decide)).2.1 h₈
  have hval : ∀ i < 11, convertFromFATFormat input output i = input i := by
    intro i hi
    rw [hout i (by omega)]
    split
    · rfl
    · -- behind a blank there are only blanks, in base and extension
      by_cases hi₈ : i < 8
      · exact (hp.base_space (by omega) hi₈).symm
      · obtain ⟨j, rfl⟩ : ∃ j, i = 8 + j := ⟨i - 8, by omega⟩
        rcases j with - | j
        · exact h₈.symm
        · exact (hp.ext 0 (j + 1) (by omega) (by omega) h₈).symm
  have hlen : strnlen (convertFromFATFormat input output) 13 = some 12 := by
    refine strnlen_eq_some_iff.mpr ⟨by decide, hend, fun i hi => ?_⟩
    rw [hout i hi]
    split
    · exact (hlegal i (by have := baseLength_le input; omega)).ne_zero
    · decide
  obtain ⟨key, hkey, hk⟩ := searchName_of_legal
    (fun i hi => by rw [hval i hi]; exact hlegal i hi) hlen
  exact ⟨key, hkey, fun i hi => by rw [hk i hi, hval i hi]⟩

/-- The array holds the base, a dot, the extension and what ends or pads it. -/
structure Dotted (input arr : Mem) : Prop where
  base : ∀ i < baseLength input, arr i = input i
  dot : arr (baseLength input) = 0x2E
  ext : ∀ j < extLength input, arr (baseLength input + 1 + j) = input (8 + j)
  pad : ∀ j, extLength input ≤ j → j < 3 →
    arr (baseLength input + 1 + j) = 0 ∨ arr (baseLength input + 1 + j) = 0x20

theorem extLength_spec (input : Mem) :
    extLength input ≤ 3 ∧ (extLength input < 3 → input (8 + extLength input) = 0x20) :=
  ⟨(fieldLength_spec input 8 3).1, (fieldLength_spec input 8 3).2.2⟩

theorem extLength_ne_zero (h₈ : input 8 ≠ 0x20) : extLength input ≠ 0 := fun he =>
  h₈ (by simpa [he] using (extLength_spec input).2)

/-- The dotted form does not end within the base or the extension. -/
theorem lt_strnlen_convertFromFATFormat (hlegal : ∀ i < 11, LegalByte (input i))
    (h₈ : input 8 ≠ 0x20) {len : Nat}
    (hlen : strnlen (convertFromFATFormat input output) 13 = some len) :
    baseLength input + extLength input < len := by
  have hb := baseLength_le input
  have hle := (extLength_spec input).1
  obtain ⟨hbase, hdot, hext, -⟩ := convertFromFATFormat_ext output (hlegal 0 (by decide)).2.1 h₈
  obtain ⟨-, hz, -⟩ := strnlen_eq_some_iff.mp hlen
  by_contra hshort
  rcases Nat.lt_trichotomy len (baseLength input) with hlt | rfl | hgt
  · exact (hlegal len (by omega)).ne_zero ((hbase len hlt).symm.trans hz)
  · exact absurd (hdot.symm.trans hz) (by decide)
  · obtain ⟨j, rfl⟩ : ∃ j, len = baseLength input + 1 + j := ⟨len - baseLength input - 1, by omega⟩
    have hj := hext j (by omega)
    rw [if_pos (by omega)] at hj
    exact (hlegal (8 + j) (by omega)).ne_zero (hj.symm.trans hz)

/-- The local array of the search holds the dotted form. -/
theorem dotted_strcpy (hlegal : ∀ i < 11, LegalByte (input i)) (hr : ResidueOk input output)
    (h₈ : input 8 ≠ 0x20) {len : Nat}
    (hlen : strnlen (convertFromFATFormat input output) 13 = some len) :
    Dotted input (memcpy (fun _ => 0) 0 (convertFromFATFormat input output) (len + 1)) := by
  have hle := (extLength_spec input).1
  have hlong := lt_strnlen_convertFromFATFormat hlegal h₈ hlen
  obtain ⟨hbase, hdot, hext, -⟩ := convertFromFATFormat_ext output (hlegal 0 (by decide)).2.1 h₈
  refine ⟨fun i hi => ?_, ?_, fun j hj => ?_, fun j h₁ h₂ => ?_⟩
  · rw [strcpy_apply hlen, if_pos (by omega), hbase i hi]
  · rw [strcpy_apply hlen, if_pos (by omega), hdot]
  · rw [strcpy_apply hlen, if_pos (by omega), hext j (by omega), if_pos hj]
  · rw [strcpy_apply hlen]
    split
    · rw [hext j h₂, if_neg (by omega)]
      split
      · -- the byte that the conversion has skipped
        rename_i hje
        subst hje
        rcases hr with hr | hr | hr
        · exact absurd hr (extLength_ne_zero h₈)
        · omega
        · exact hr
      · exact .inr rfl
    · exact .inl rfl

/-- Every byte of the dotted form is its own upper case. -/
theorem Dotted.uppercaseStr {arr : Mem} (hd : Dotted input arr)
    (hlegal : ∀ i < 11, LegalByte (input i)) (len : Nat) :
    Dotted input (PotatoOS.uppercaseStr arr len) := by
  have hb := baseLength_le input
  have hle := (extLength_spec input).1
  have hupper : ∀ {i : Nat} {x : UInt8}, arr i = x → uppercase x = x →
      PotatoOS.uppercaseStr arr len i = x := by
    intro i x hx hux
    rw [PotatoOS.uppercaseStr, hx, hux, ite_self]
  refine ⟨fun i hi => ?_, hupper hd.dot (by decide), fun j hj => ?_, fun j h₁ h₂ => ?_⟩
  · exact hupper (hd.base i hi) (hlegal i (by omega)).uppercase_eq
  · exact hupper (hd.ext j hj) (hlegal (8 + j) (by omega)).uppercase_eq
  · rcases hd.pad j h₁ h₂ with hc | hc
    · exact .inl (hupper hc (by decide))
    · exact .inr (hupper hc (by decide))

/-- The dotted form is converted to the name. -/
theorem Dotted.convertToFATFormat {arr : Mem} (hd : Dotted input arr)
    (hlegal : ∀ i < 11, LegalByte (input i)) (hp : Padded input) :
    ∀ i < 11, PotatoOS.convertToFATFormat arr i = input i := by
  have hb := baseLength_le input
  have hu := hd.uppercaseStr hlegal ((strnlen arr 13).getD 13)
  -- nothing before the dot ends the base: its bytes are legal
  have hbefore : ∀ i < baseLength input,
      ¬ (PotatoOS.uppercaseStr arr ((strnlen arr 13).getD 13) i = 0x2E ∨
        PotatoOS.uppercaseStr arr ((strnlen arr 13).getD 13) i = 0) := by
    rintro i hi (h | h) <;> rw [hu.base i hi] at h
    · exact (hlegal i (by omega)).2.1 h
    · exact (hlegal i (by omega)).ne_zero h
  intro i hi
  rw [(convertToFATFormat_of_stop rfl (by omega) (.inl hu.dot) hbefore hi).1]
  split
  · rename_i hi₈
    split
    · exact hu.base i (by assumption)
    · exact (hp.base_space (by omega) hi₈).symm
  · obtain ⟨j, rfl⟩ : ∃ j, i = 8 + j := ⟨i - 8, by omega⟩
    rw [Nat.add_sub_cancel_left]
    by_cases hj : j < extLength input
    · rw [hu.ext j hj, if_pos (hlegal (8 + j) hi).ne_zero]
    · -- behind the extension a terminator or a space stands, and both become spaces
      have hge : extLength input ≤ j := Nat.le_of_not_lt hj
      rcases hu.pad j hge (by omega) with hc | hc
      · rw [hc, hp.ext.space hge (by omega)]
        rfl
      · rw [hc, hp.ext.space hge (by omega)]
        rfl

/-- The dot shows that the dotted form is not an 8.3 name yet. -/
theorem searchName_eq_convertToFATFormat (hlegal : ∀ i < 11, LegalByte (input i))
    (h₈ : input 8 ≠ 0x20) {len : Nat}
    (hlen : strnlen (convertFromFATFormat input output) 13 = some len) :
    searchName (convertFromFATFormat input output) = some (PotatoOS.convertToFATFormat
      (memcpy (fun _ => 0) 0 (convertFromFATFormat input output) (len + 1))) := by
  have hb := baseLength_le input
  have hlong := lt_strnlen_convertFromFATFormat hlegal h₈ hlen
  have hdot := (convertFromFATFormat_ext output (hlegal 0 (by decide)).2.1 h₈).2.1
  have htest : testIfFATFormat (memcpy (fun _ => 0) 0 (convertFromFATFormat input output)
      (len + 1)) ≠ 0 := fun h => by
    have := (testIfFATFormat_eq_zero_iff _).mp h (baseLength input) (by omega)
    rw [strcpy_apply hlen, if_pos (by omega), hdot] at this
    exact absurd this (by decide)
  rw [searchName, hlen]
  simp only [if_pos htest]

/-- With an extension the dotted form is converted back. -/
theorem searchName_convertFromFATFormat_ext (hlegal : ∀ i < 11, LegalByte (input i))
    (hp : Padded input) (hr : ResidueOk input output) (h₈ : input 8 ≠ 0x20) :
    ∃ key, searchName (convertFromFATFormat input output) = some key ∧
      ∀ i < 11, key i = input i := by
  have hend := (convertFromFATFormat_ext output (hlegal 0 (by decide)).2.1 h₈).2.2.2
  obtain ⟨len, hlen⟩ : ∃ len, strnlen (convertFromFATFormat input output) 13 = some len := by
    rw [← Option.isSome_iff_exists, strnlen, List.find?_isSome]
    exact ⟨12, by decide, by simpa using hend⟩
  exact ⟨_, searchName_eq_convertToFATFormat hlegal h₈ hlen,
    (dotted_strcpy hlegal hr h₈ hlen).convertToFATFormat hlegal hp⟩

/-- A legal name without inner spaces comes back from its dotted form. -/
theorem searchName_convertFromFATFormat (hl : testIfFATFormat input = 0) (hp : Padded input)
    (hr : ResidueOk input output) :
    ∃ key, searchName (convertFromFATFormat input output) = some key ∧
      ∀ i < 11, key i = input i := by
  have hlegal := (testIfFATFormat_eq_zero_iff input).mp hl
  by_cases h₈ : input 8 = 0x20
  · exact searchName_convertFromFATFormat_noExt hlegal hp h₈
  · exact searchName_convertFromFATFormat_ext hlegal hp hr h₈

end

/-! ### What the conversion reads -/

theorem fieldLength_congr {input input' : Mem} {o n : Nat}
    (h : ∀ i < n, input (o + i) = input' (o + i)) :
    fieldLength input o n = fieldLength input' o n := by
  have hfind : ((List.range n).find? fun i => input (o + i) = 0x20)
      = (List.range n).find? fun i => input' (o + i) = 0x20 :=
    List.find?_congr fun i hi => by rw [h i (List.mem_range.mp hi)]
  rw [fieldLength, fieldLength, hfind]

theorem copyExt_congr {input input' : Mem} {n : Nat} (counter2 counter : Nat) (output : Mem)
    (h : ∀ i < n, input (counter2 + i) = input' (counter2 + i)) :
    copyExt input n counter2 counter output = copyExt input' n counter2 counter output := by
  induction n generalizing counter2 counter output with
  | zero => rfl
  | succ n ih =>
      have h₀ : input counter2 = input' counter2 := h 0 (Nat.zero_lt_succ n)
      have hrest : ∀ i < n, input (counter2 + 1 + i) = input' (counter2 + 1 + i) := fun i hi => by
        rw [Nat.add_right_comm]
        exact h (i + 1) (Nat.succ_lt_succ hi)
      rw [copyExt, copyExt, h₀, ih _ _ _ hrest]

/-- Only the eleven bytes of the name matter. -/
theorem convertFromFATFormat_congr {input input' : Mem} (output : Mem)
    (h : ∀ i < 11, input i = input' i) :
    convertFromFATFormat input output = convertFromFATFormat input' output := by
  have hb : baseLength input = baseLength input' :=
    fieldLength_congr fun i hi => by
      rw [Nat.zero_add]
      exact h i (by omega)
  have hle := baseLength_le input'
  have hcopy : memcpy output 0 input (baseLength input')
      = memcpy output 0 input' (baseLength input') :=
    memcpy_congr fun i hi => h i (by omega)
  have hext : ∀ counter out, copyExt input 3 8 counter out = copyExt input' 3 8 counter out :=
    fun counter out => copyExt_congr 8 counter out fun i hi => h (8 + i) (by omega)
  simp only [convertFromFATFormat, h 0 (by decide), h 1 (by decide), hb, hcopy, hext]

end PotatoOS
