/-
PotatoOS/Codec.lean

What the name conversions make of whole names.

A name of the form BASE, BASE. or BASE.EXT is searched under one key: both
parts in upper case, padded with spaces to eight and three characters
(`ShortName.searchName_eq`).  Two such names have the same key exactly when they
differ in trailing spaces and in the case of letters only.

The other two results are about the edges of the format.  The dotted form
that `convertFromFATFormat` writes leaves one byte of its output alone behind
an extension of one or two characters; the name comes back exactly when that
byte ends or pads it.  And `convertToFATFormat` does not keep a name without a
dot: its guard for names of eleven characters compares the counter with 9,
which nine rounds never exceed, so eight spaces take the place of the base.
-/
import PotatoOS.Name
import Mathlib.Data.List.DropRight
import Mathlib.Data.List.GetD

namespace PotatoOS

/-! ### Padding on the right -/

section

variable {α : Type*} [DecidableEq α] {a d : α} {l l' : List α} {n i : Nat}

theorem rdropWhile_rightpad (n : Nat) (a : α) (l : List α) :
    (l.rightpad n a).rdropWhile (· = a) = l.rdropWhile (· = a) := by
  rw [List.rightpad]
  induction n - l.length with
  | zero => rw [List.replicate_zero, List.append_nil]
  | succ k ih =>
      rw [List.replicate_succ', ← List.append_assoc, List.rdropWhile_concat,
        if_pos (decide_eq_true rfl), ih]

theorem rightpad_rdropWhile (h : l.length ≤ n) :
    (l.rdropWhile (· = a)).rightpad n a = l.rightpad n a := by
  set t := l.rtakeWhile (· = a) with ht
  have hl : l = l.rdropWhile (· = a) ++ t := List.rdropWhile_append_rtakeWhile.symm
  -- what was dropped is padding
  have hpad : t = List.replicate t.length a :=
    List.eq_replicate_iff.mpr ⟨rfl, fun b hb => by simpa using List.mem_rtakeWhile_imp hb⟩
  have hlen : l.length = (l.rdropWhile (· = a)).length + t.length := by
    rw [← List.length_append, ← hl]
  rw [List.rightpad, List.rightpad]
  conv_rhs => rw [hl, hpad]
  rw [List.append_assoc, List.replicate_append_replicate, List.length_append,
    List.length_replicate]
  congr 2
  omega

/-- Padded lists are equal exactly when the lists are, trailing padding aside. -/
theorem rightpad_eq_iff (h : l.length ≤ n) (h' : l'.length ≤ n) :
    l.rightpad n a = l'.rightpad n a ↔ l.rdropWhile (· = a) = l'.rdropWhile (· = a) := by
  constructor
  · intro he
    rw [← rdropWhile_rightpad n a l, he, rdropWhile_rightpad]
  · intro he
    rw [← rightpad_rdropWhile h, he, rightpad_rdropWhile h']

omit [DecidableEq α] in
theorem rdropWhile_cons_eq_iff (p : α → Bool) (a : α) (l : List α) :
    (a :: l).rdropWhile p = l.rdropWhile p ↔ ∀ b ∈ a :: l, p b := by
  constructor
  · intro h
    by_contra hall
    -- what is kept of the longer list is longer by one
    have hcons : (a :: l).rdropWhile p = a :: l.rdropWhile p := by
      rw [List.rdropWhile, List.rdropWhile, List.reverse_cons, List.dropWhile_append]
      split
      · rename_i hnil
        have hl : ∀ b ∈ l, p b := by simpa using hnil
        have ha : ¬ p a := fun ha => hall (List.forall_mem_cons.mpr ⟨ha, hl⟩)
        rw [List.isEmpty_iff.mp hnil, List.dropWhile_cons_of_neg ha]
        rfl
      · rw [List.reverse_append]
        rfl
    rw [hcons] at h
    exact absurd (congrArg List.length h) (by simp)
  · intro h
    rw [List.rdropWhile_eq_nil_iff.mpr h,
      List.rdropWhile_eq_nil_iff.mpr fun b hb => h b (List.mem_cons_of_mem a hb)]

omit [DecidableEq α] in
theorem length_rightpad_of_le (h : l.length ≤ n) : (l.rightpad n a).length = n := by
  rw [List.rightpad, List.length_append, List.length_replicate]
  omega

omit [DecidableEq α] in
theorem getD_rightpad (h : i < n) :
    (l.rightpad n a).getD i d = if i < l.length then l.getD i d else a := by
  rw [List.rightpad]
  split
  · rename_i hi
    exact List.getD_append _ _ _ _ hi
  · rename_i hi
    rw [List.getD_append_right _ _ _ _ (Nat.le_of_not_lt hi), List.getD_replicate]
    omega

end

/-! ### Letters -/

/-- Equal up to the case of ASCII letters. -/
def SameLetter (a b : UInt8) : Prop :=
  a = b ∨ (65 ≤ a ∧ a ≤ 90 ∧ b = a + 32) ∨ (65 ≤ b ∧ b ≤ 90 ∧ a = b + 32)

instance (a b : UInt8) : Decidable (SameLetter a b) := inferInstanceAs (Decidable (_ ∨ _))

theorem toNat_uppercase (b : UInt8) :
    (uppercase b).toNat = if 97 ≤ b.toNat ∧ b.toNat ≤ 122 then b.toNat - 32 else b.toNat := by
  have hb := b.toNat_lt
  rw [uppercase, apply_ite UInt8.toNat]
  simp only [UInt8.le_iff_toNat_le, UInt8.toNat_sub, UInt8.reduceToNat]
  split <;> omega

theorem uppercase_eq_iff (a b : UInt8) : uppercase a = uppercase b ↔ SameLetter a b := by
  have ha := a.toNat_lt
  have hb := b.toNat_lt
  rw [SameLetter, ← UInt8.toNat_inj, ← UInt8.toNat_inj, ← UInt8.toNat_inj, ← UInt8.toNat_inj,
    toNat_uppercase, toNat_uppercase]
  simp only [UInt8.le_iff_toNat_le, UInt8.toNat_add, UInt8.reduceToNat]
  split <;> split <;> omega

/-- No letter is turned into a zero, a space or a dot. -/
theorem uppercase_eq_iff_of_lt {b c : UInt8} (hc : c < 65) : uppercase b = c ↔ b = c := by
  have hc' : c.toNat < 65 := UInt8.lt_iff_toNat_lt.mp hc
  rw [← UInt8.toNat_inj, ← UInt8.toNat_inj, toNat_uppercase]
  split <;> omega

/-! ### Names in a zeroed array -/

/-- An array of zeros that holds a string. -/
def buffer (s : List UInt8) : Mem := fun i => s.getD i 0

/-- `m` starts with the string and its end. -/
def HoldsString (m : Mem) (s : List UInt8) : Prop := ∀ i ≤ s.length, m i = s.getD i 0

/-- Base and extension as a directory entry stores them. -/
def shortKey (base ext : List UInt8) : List UInt8 :=
  (base.map uppercase).rightpad 8 0x20 ++ (ext.map uppercase).rightpad 3 0x20

section

variable {s base ext : List UInt8} {m : Mem} {n i : Nat}

theorem bytesAt_eq_of_getD (hl : s.length = n) (h : ∀ i < n, m i = s.getD i 0) :
    bytesAt m 0 n = s := by
  apply List.ext_getElem
  · simp [bytesAt, hl]
  · intro i h₁ h₂
    rw [hl] at h₂
    simp [bytesAt, h i h₂, List.getD_eq_getElem?_getD, hl, h₂]

theorem strnlen_of_holdsString (h : HoldsString m s) (h₀ : ∀ b ∈ s, b ≠ 0) (hl : s.length < n) :
    strnlen m n = some s.length := by
  refine strnlen_eq_some_iff.mpr ⟨hl, ?_, fun i hi => ?_⟩
  · rw [h _ (Nat.le_refl _), List.getD_eq_default _ _ (Nat.le_refl _)]
  · rw [h i hi.le, List.getD_eq_getElem _ _ hi]
    exact h₀ _ (List.getElem_mem hi)

theorem holdsString_nil : HoldsString m [] ↔ m 0 = 0 := by
  refine ⟨fun h => h 0 (Nat.le_refl _), fun h i hi => ?_⟩
  rw [Nat.le_zero.mp hi]
  exact h

theorem holdsString_cons {c : UInt8} :
    HoldsString m (c :: s) ↔ m 0 = c ∧ HoldsString (fun i => m (i + 1)) s := by
  refine ⟨fun h => ⟨h 0 (Nat.zero_le _), fun i hi => h (i + 1) (Nat.succ_le_succ hi)⟩, ?_⟩
  rintro ⟨h₀, h⟩ (_ | i) hi
  · exact h₀
  · exact h i (Nat.le_of_succ_le_succ hi)

theorem HoldsString.ne_zero {c : UInt8} (h : HoldsString m (c :: s)) (h₀ : 0 ∉ c :: s) :
    m 0 ≠ 0 := by
  rw [(holdsString_cons.mp h).1]
  exact fun hc => h₀ (hc ▸ List.mem_cons_self)

theorem holdsString_buffer (s : List UInt8) : HoldsString (buffer s) s := fun _ _ => rfl

/-- Upper case in place. -/
theorem uppercaseStr_buffer (h₀ : ∀ b ∈ s, b ≠ 0) (hl : s.length < 13) :
    uppercaseStr (buffer s) ((strnlen (buffer s) 13).getD 13) = buffer (s.map uppercase) := by
  rw [strnlen_of_holdsString (holdsString_buffer s) h₀ hl, Option.getD_some]
  funext i
  have h : (0 : UInt8) = uppercase 0 := by decide
  show (if i < s.length then uppercase (s.getD i 0) else s.getD i 0) = (s.map uppercase).getD i 0
  conv_rhs => rw [h, List.getD_map]
  split
  · rfl
  · rename_i hi
    rw [List.getD_eq_default _ _ (Nat.le_of_not_lt hi)]
    exact h

theorem length_shortKey (hb : base.length ≤ 8) (he : ext.length ≤ 3) :
    (shortKey base ext).length = 11 := by
  rw [shortKey, List.length_append, length_rightpad_of_le (by simpa using hb),
    length_rightpad_of_le (by simpa using he)]

theorem getD_shortKey (hb : base.length ≤ 8) (hi : i < 11) :
    (shortKey base ext).getD i 0 =
      if i < 8 then (if i < base.length then (base.map uppercase).getD i 0 else 0x20)
      else if i - 8 < ext.length then (ext.map uppercase).getD (i - 8) 0 else 0x20 := by
  have h₈ : ((base.map uppercase).rightpad 8 0x20).length = 8 :=
    length_rightpad_of_le (by simpa using hb)
  rw [shortKey]
  split
  · rename_i hlt
    rw [List.getD_append _ _ _ _ (by omega), getD_rightpad hlt, List.length_map]
  · rw [List.getD_append_right _ _ _ _ (by omega), h₈, getD_rightpad (by omega), List.length_map]

/-- Equality of keys part by part. -/
theorem shortKey_inj {base' ext' : List UInt8} (hb : base.length ≤ 8)
    (hb' : base'.length ≤ 8) :
    shortKey base ext = shortKey base' ext' ↔
      (base.map uppercase).rightpad 8 0x20 = (base'.map uppercase).rightpad 8 0x20 ∧
        (ext.map uppercase).rightpad 3 0x20 = (ext'.map uppercase).rightpad 3 0x20 := by
  constructor
  · intro h
    refine List.append_inj h ?_
    rw [length_rightpad_of_le (by simpa using hb), length_rightpad_of_le (by simpa using hb')]
  · rintro ⟨h₁, h₂⟩
    rw [shortKey, shortKey, h₁, h₂]

theorem map_uppercase_ne_zero (h : ∀ b ∈ s, b ≠ 0) : ∀ b ∈ s.map uppercase, b ≠ 0 := by
  intro b hb
  obtain ⟨c, hc, rfl⟩ := List.mem_map.mp hb
  rw [ne_eq, uppercase_eq_iff_of_lt (by decide)]
  exact h c hc

/-- A zero byte of the extension stands behind its end. -/
theorem orSpace_getD (h : ∀ b ∈ s, b ≠ 0) (j : Nat) :
    (if s.getD j 0 ≠ 0 then s.getD j 0 else 0x20)
      = if j < s.length then s.getD j 0 else 0x20 := by
  by_cases hj : j < s.length
  · rw [if_pos hj, if_pos]
    rw [List.getD_eq_getElem _ _ hj]
    exact h _ (List.getElem_mem hj)
  · rw [if_neg hj, if_neg]
    rw [not_not, List.getD_eq_default _ _ (Nat.le_of_not_lt hj)]

/-- The string is a base and, behind a dot, an extension, or a base alone. -/
def NameParts (s base ext : List UInt8) : Prop := s = base ++ 0x2E :: ext ∨ s = base ∧ ext = []

namespace NameParts

theorem ne_zero (h : NameParts s base ext) (hb : ∀ b ∈ base, b ≠ 0) (he : ∀ b ∈ ext, b ≠ 0) :
    ∀ b ∈ s, b ≠ 0 := by
  rcases h with rfl | ⟨rfl, -⟩
  · rw [List.forall_mem_append, List.forall_mem_cons]
    exact ⟨hb, by decide, he⟩
  · exact hb

theorem length_le (h : NameParts s base ext) : s.length ≤ base.length + 1 + ext.length := by
  rcases h with rfl | ⟨rfl, rfl⟩
  · rw [List.length_append, List.length_cons]
    omega
  · omega

theorem map_uppercase (h : NameParts s base ext) :
    NameParts (s.map uppercase) (base.map uppercase) (ext.map uppercase) := by
  rcases h with rfl | ⟨rfl, rfl⟩
  · rw [List.map_append]
    exact .inl rfl
  · exact .inr ⟨rfl, rfl⟩

theorem buffer_base (h : NameParts s base ext) (hi : i < base.length) :
    buffer s i = base.getD i 0 := by
  rcases h with rfl | ⟨rfl, -⟩
  · exact List.getD_append _ _ _ _ hi
  · rfl

theorem buffer_stop (h : NameParts s base ext) :
    buffer s base.length = 0x2E ∨ buffer s base.length = 0 := by
  rcases h with rfl | ⟨rfl, -⟩
  · refine .inl ?_
    rw [buffer, List.getD_append_right _ _ _ _ (Nat.le_refl _), Nat.sub_self]
    rfl
  · exact .inr (List.getD_eq_default _ _ (Nat.le_refl _))

theorem buffer_ext (h : NameParts s base ext) (j : Nat) :
    buffer s (base.length + 1 + j) = ext.getD j 0 := by
  rcases h with rfl | ⟨rfl, rfl⟩
  · rw [buffer, List.getD_append_right _ _ _ _ (by omega),
      show base.length + 1 + j - base.length = j + 1 by omega]
    rfl
  · rw [buffer, List.getD_eq_default _ _ (by omega)]
    rfl

end NameParts

/-- A name that is split within its first nine characters is converted to its
parts. -/
theorem bytesAt_convertToFATFormat (hb : ∀ b ∈ base, b ≠ 0 ∧ b ≠ 0x2E) (hbl : base.length ≤ 8)
    (he : ∀ b ∈ ext, b ≠ 0) (hel : ext.length ≤ 3) (hs : NameParts s base ext) :
    bytesAt (convertToFATFormat (buffer s)) 0 11 = shortKey base ext := by
  have hlen := hs.length_le
  have hu := uppercaseStr_buffer (hs.ne_zero (fun b hmem => (hb b hmem).1) he) (by omega)
  have hl : (base.map uppercase).length = base.length := List.length_map _
  have hup := hs.map_uppercase
  have hstop := hup.buffer_stop
  have hext := hup.buffer_ext
  rw [hl] at hstop hext
  have hbefore : ∀ i < base.length,
      ¬ (buffer (s.map uppercase) i = 0x2E ∨ buffer (s.map uppercase) i = 0) := by
    intro i hi
    have hmem := hb _ (List.getElem_mem hi)
    rw [hup.buffer_base (hl ▸ hi), List.getD_eq_getElem _ _ (hl ▸ hi), List.getElem_map,
      uppercase_eq_iff_of_lt (by decide), uppercase_eq_iff_of_lt (by decide), not_or]
    exact ⟨hmem.2, hmem.1⟩
  refine bytesAt_eq_of_getD (length_shortKey hbl hel) fun i hi => ?_
  rw [(convertToFATFormat_of_stop hu (by omega) hstop hbefore hi).1, getD_shortKey hbl hi]
  split
  · split
    next hlt => exact hup.buffer_base (hl ▸ hlt)
    next => rfl
  · rw [hext, orSpace_getD (map_uppercase_ne_zero he), List.length_map]

/-- The key of a string that fits the local array. -/
theorem searchName_of_holdsString (h : HoldsString m s) (h₀ : ∀ b ∈ s, b ≠ 0)
    (hl : s.length ≤ 12) :
    searchName m = some (if testIfFATFormat (buffer s) ≠ 0 then convertToFATFormat (buffer s)
      else buffer s) := by
  have hlen := strnlen_of_holdsString h h₀ (show s.length < 13 by omega)
  have harr : memcpy (fun _ => 0) 0 m (s.length + 1) = buffer s := by
    funext i
    rw [strcpy_apply hlen, buffer]
    split
    · exact h i (by omega)
    · rw [List.getD_eq_default _ _ (by omega)]
  rw [searchName, hlen]
  simp only [harr]

end

/-! ### Keys of 8.3 names -/

/-- A name of the form BASE, BASE. or BASE.EXT. -/
structure ShortName where
  base : List UInt8
  dot : Bool
  ext : List UInt8
  base_ne_nil : base ≠ []
  length_base : base.length ≤ 8
  length_ext : ext.length ≤ 3
  dot_of_ext : ext ≠ [] → dot = true
  base_ok : ∀ b ∈ base, b ≠ 0 ∧ b ≠ 0x2E
  ext_ok : ∀ b ∈ ext, b ≠ 0 ∧ b ≠ 0x2E

namespace ShortName

/-- The name as it is typed. -/
def text (n : ShortName) : List UInt8 := if n.dot then n.base ++ 0x2E :: n.ext else n.base

/-- The same name up to trailing spaces of its parts, a trailing dot and the
case of letters. -/
structure Same (n n' : ShortName) : Prop where
  base : List.Forall₂ SameLetter (n.base.rdropWhile (· = 0x20)) (n'.base.rdropWhile (· = 0x20))
  ext : List.Forall₂ SameLetter (n.ext.rdropWhile (· = 0x20)) (n'.ext.rdropWhile (· = 0x20))

variable (n n' : ShortName)

theorem text_cases :
    NameParts n.text n.base n.ext := by
  rw [text]
  rcases hd : n.dot
  · refine .inr ⟨if_neg (by decide), ?_⟩
    by_contra hne
    rw [n.dot_of_ext hne] at hd
    cases hd
  · exact .inl (if_pos rfl)

theorem text_ne_zero : ∀ b ∈ n.text, b ≠ 0 :=
  n.text_cases.ne_zero (fun b hb => (n.base_ok b hb).1) fun b hb => (n.ext_ok b hb).1

theorem length_text_le : n.text.length ≤ 12 := by
  have hb := n.length_base
  have he := n.length_ext
  have hle := n.text_cases.length_le
  omega

/-- The dot or the end of the base shows that the text is no 8.3 name yet. -/
theorem testIfFATFormat_text : testIfFATFormat (buffer n.text) ≠ 0 := by
  have hb := n.length_base
  intro h
  have hlegal := (testIfFATFormat_eq_zero_iff _).mp h n.base.length (by omega)
  rcases n.text_cases.buffer_stop with hstop | hstop <;> rw [hstop] at hlegal
  · exact absurd hlegal (by decide)
  · exact absurd hlegal (by decide)

/-- The key of a name is its parts in upper case, padded with spaces. -/
theorem searchName_eq {filepart : Mem} (h : HoldsString filepart n.text) :
    ∃ key, searchName filepart = some key ∧ bytesAt key 0 11 = shortKey n.base n.ext := by
  refine ⟨_, searchName_of_holdsString h n.text_ne_zero n.length_text_le, ?_⟩
  rw [if_pos n.testIfFATFormat_text]
  exact bytesAt_convertToFATFormat n.base_ok n.length_base (fun b hb => (n.ext_ok b hb).1)
    n.length_ext n.text_cases

end ShortName

/-- Padded fields in upper case are equal exactly up to trailing spaces and
case. -/
theorem rightpad_map_uppercase_eq_iff {l l' : List UInt8} {n : Nat} (h : l.length ≤ n)
    (h' : l'.length ≤ n) :
    (l.map uppercase).rightpad n 0x20 = (l'.map uppercase).rightpad n 0x20 ↔
      List.Forall₂ SameLetter (l.rdropWhile (· = 0x20)) (l'.rdropWhile (· = 0x20)) := by
  have hmap : ∀ k : List UInt8, (k.map uppercase).rdropWhile (· = 0x20)
      = (k.rdropWhile (· = 0x20)).map uppercase := by
    intro k
    have hp : ((fun b : UInt8 => decide (b = 0x20)) ∘ uppercase) = fun b => decide (b = 0x20) := by
      funext b
      simp only [Function.comp_apply, uppercase_eq_iff_of_lt (show (0x20 : UInt8) < 65 by decide)]
    rw [List.rdropWhile, List.rdropWhile, ← List.map_reverse, List.dropWhile_map, hp,
      List.map_reverse]
  rw [rightpad_eq_iff (by simpa using h) (by simpa using h'), hmap, hmap,
    ← List.forall₂_eq_eq_eq, List.forall₂_map_left_iff, List.forall₂_map_right_iff]
  simp only [uppercase_eq_iff]

theorem shortKey_eq_iff (n n' : ShortName) :
    shortKey n.base n.ext = shortKey n'.base n'.ext ↔ n.Same n' := by
  rw [shortKey_inj n.length_base n'.length_base,
    rightpad_map_uppercase_eq_iff n.length_base n'.length_base,
    rightpad_map_uppercase_eq_iff n.length_ext n'.length_ext]
  exact ⟨fun h => ⟨h.1, h.2⟩, fun h => ⟨h.base, h.ext⟩⟩

/-- Search keys are canonical: a key is the name in upper case, padded, and two
names share it exactly when they are the same up to trailing spaces, a
trailing dot and the case of letters. -/
theorem searchName_canonical (n n' : ShortName) {filepart filepart' : Mem}
    (h : HoldsString filepart n.text) (h' : HoldsString filepart' n'.text) :
    ∃ key key', searchName filepart = some key ∧ searchName filepart' = some key' ∧
      bytesAt key 0 11 = shortKey n.base n.ext ∧
      (bytesAt key 0 11 = bytesAt key' 0 11 ↔ n.Same n') := by
  obtain ⟨key, hkey, hb⟩ := n.searchName_eq h
  obtain ⟨key', hkey', hb'⟩ := n'.searchName_eq h'
  refine ⟨key, key', hkey, hkey', hb, ?_⟩
  rw [hb, hb', shortKey_eq_iff]

/-- The name `a.txt`. -/
def lowerName : ShortName where
  base := [0x61]
  dot := true
  ext := [0x74, 0x78, 0x74]
  base_ne_nil := by decide
  length_base := by decide
  length_ext := by decide
  dot_of_ext _ := rfl
  base_ok := List.forall_mem_singleton.mpr (by decide)
  ext_ok := List.forall_mem_cons.mpr ⟨by decide, List.forall_mem_cons.mpr
    ⟨by decide, List.forall_mem_singleton.mpr (by decide)⟩⟩

/-- The name `A .TXT`, with a space behind its base. -/
def upperName : ShortName where
  base := [0x41, 0x20]
  dot := true
  ext := [0x54, 0x58, 0x54]
  base_ne_nil := by decide
  length_base := by decide
  length_ext := by decide
  dot_of_ext _ := rfl
  base_ok := List.forall_mem_cons.mpr ⟨by decide, List.forall_mem_singleton.mpr (by decide)⟩
  ext_ok := List.forall_mem_cons.mpr ⟨by decide, List.forall_mem_cons.mpr
    ⟨by decide, List.forall_mem_singleton.mpr (by decide)⟩⟩

theorem lowerName_same_upperName : lowerName.Same upperName where
  base := .cons (by decide) .nil
  ext := .cons (by decide) (.cons (by decide) (.cons (by decide) .nil))

/-- Both have the key `A       TXT`. -/
theorem searchName_canonical_txt :
    ∃ key key', searchName (buffer lowerName.text) = some key ∧
      searchName (buffer upperName.text) = some key' ∧
      bytesAt key 0 11 = shortKey [0x61] [0x74, 0x78, 0x74] ∧
      bytesAt key 0 11 = bytesAt key' 0 11 := by
  obtain ⟨key, key', hkey, hkey', hbytes, hsame⟩ := searchName_canonical lowerName upperName
    (holdsString_buffer _) (holdsString_buffer _)
  exact ⟨key, key', hkey, hkey', hbytes, hsame.mpr lowerName_same_upperName⟩

/-! ### The byte that the dotted form skips -/

section

variable {input output : Mem}

/-- The character of the key where the extension ends is what the output held. -/
theorem convertToFATFormat_residue (hlegal : ∀ i < 11, LegalByte (input i))
    (h₈ : input 8 ≠ 0x20) (hext : extLength input < 3)
    (hr : output (baseLength input + 1 + extLength input) ≠ 0) {len : Nat}
    (hlen : strnlen (convertFromFATFormat input output) 13 = some len) :
    convertToFATFormat (memcpy (fun _ => 0) 0 (convertFromFATFormat input output) (len + 1))
        (8 + extLength input)
      = uppercase (output (baseLength input + 1 + extLength input)) := by
  have hb := baseLength_le input
  obtain ⟨hbase, hdot, hrest, -⟩ := convertFromFATFormat_ext output (hlegal 0 (by decide)).2.1 h₈
  have hlong := lt_strnlen_convertFromFATFormat hlegal h₈ hlen
  obtain ⟨-, hz, -⟩ := strnlen_eq_some_iff.mp hlen
  have hskip : convertFromFATFormat input output (baseLength input + 1 + extLength input)
      = output (baseLength input + 1 + extLength input) := by
    rw [hrest _ hext, if_neg (Nat.lt_irrefl _), if_pos rfl]
  -- the string goes on over the skipped byte
  have hlt : baseLength input + 1 + extLength input < len := by
    rcases Nat.lt_or_ge (baseLength input + 1 + extLength input) len with h | h
    · exact h
    · obtain rfl : len = baseLength input + 1 + extLength input := by omega
      exact absurd (hskip.symm.trans hz) hr
  set arr := memcpy (fun _ => 0) 0 (convertFromFATFormat input output) (len + 1) with harr
  have hval : ∀ i < len, arr i = convertFromFATFormat input output i := fun i hi => by
    rw [harr, strcpy_apply hlen, if_pos hi]
  have hstr : strnlen arr 13 = some len := by
    obtain ⟨h₁, -, h₃⟩ := strnlen_eq_some_iff.mp hlen
    refine strnlen_eq_some_iff.mpr ⟨h₁, ?_, fun i hi => ?_⟩
    · rw [harr, strcpy_apply hlen, if_neg (Nat.lt_irrefl _)]
    · rw [hval i hi]
      exact h₃ i hi
  have hupper : ∀ i < len, uppercaseStr arr ((strnlen arr 13).getD 13) i
      = uppercase (convertFromFATFormat input output i) := fun i hi => by
    rw [hstr, Option.getD_some, uppercaseStr, if_pos hi, hval i hi]
  have hbefore : ∀ i < baseLength input,
      ¬ (uppercaseStr arr ((strnlen arr 13).getD 13) i = 0x2E ∨
        uppercaseStr arr ((strnlen arr 13).getD 13) i = 0) := by
    intro i hi
    have hl := hlegal i (by omega)
    rw [hupper i (by omega), hbase i hi, hl.uppercase_eq, not_or]
    exact ⟨hl.2.1, hl.ne_zero⟩
  have hstop : uppercaseStr arr ((strnlen arr 13).getD 13) (baseLength input) = 0x2E := by
    rw [hupper _ (by omega), hdot]
    decide
  rw [(convertToFATFormat_of_stop rfl (by omega) (.inl hstop) hbefore (by omega)).1,
    if_neg (by omega), Nat.add_sub_cancel_left, hupper _ hlt, hskip, if_pos]
  rw [ne_eq, uppercase_eq_iff_of_lt (by decide)]
  exact hr

/-- A legal name without inner spaces comes back from its dotted form exactly
when the byte that the conversion skips ends or pads it. -/
theorem searchName_convertFromFATFormat_iff (hl : testIfFATFormat input = 0) (hp : Padded input) :
    (∃ key, searchName (convertFromFATFormat input output) = some key ∧
      ∀ i < 11, key i = input i) ↔ ResidueOk input output := by
  refine ⟨?_, searchName_convertFromFATFormat hl hp⟩
  rintro ⟨key, hkey, hk⟩
  by_contra hbad
  rw [ResidueOk, not_or, not_or, not_or] at hbad
  obtain ⟨h₀, h₃, hr, hspace⟩ := hbad
  have hlegal := (testIfFATFormat_eq_zero_iff input).mp hl
  have hext : extLength input < 3 := Nat.lt_of_le_of_ne (extLength_spec input).1 h₃
  have h₈ : input 8 ≠ 0x20 := by
    intro h₈
    have := (fieldLength_spec input 8 3).2.1 0 (Nat.pos_of_ne_zero h₀)
    exact this h₈
  rcases hlen : strnlen (convertFromFATFormat input output) 13 with - | len
  · rw [searchName, hlen] at hkey
    cases hkey
  · rw [searchName_eq_convertToFATFormat hlegal h₈ hlen] at hkey
    have hres := convertToFATFormat_residue hlegal h₈ hext hr hlen
    rw [Option.some.inj hkey, hk _ (by omega), (extLength_spec input).2 hext, eq_comm,
      uppercase_eq_iff_of_lt (by decide)] at hres
    exact hspace hres

/-- Eight letters, one letter of extension. -/
def oneLetterExt : Mem := fun i => if i < 9 then 0x41 else 0x20

theorem searchName_convertFromFATFormat_zeroed :
    testIfFATFormat oneLetterExt = 0 ∧
      ∃ key, searchName (convertFromFATFormat oneLetterExt fun _ => 0) = some key ∧
        ∀ i < 11, key i = oneLetterExt i := by
  have hp : Padded oneLetterExt := by
    refine ⟨fun i j hij hj h => ?_, fun i j hij hj _ => if_neg (by omega)⟩
    rw [oneLetterExt, if_pos (by omega)] at h
    exact absurd h (by decide)
  exact ⟨by decide, (searchName_convertFromFATFormat_iff (by decide) hp).mpr
    (.inr (.inr (.inl rfl)))⟩

/-- Letters in the output before the call end up in the key. -/
theorem not_searchName_convertFromFATFormat_letters :
    ¬ ∃ key, searchName (convertFromFATFormat oneLetterExt fun _ => 0x42) = some key ∧
      ∀ i < 11, key i = oneLetterExt i := by
  rintro ⟨key, hkey, hk⟩
  have h₉ : (searchName (convertFromFATFormat oneLetterExt fun _ => 0x42)).map (· 9)
      = some 0x42 := by
    decide
  rw [hkey, Option.map_some, hk 9 (by decide)] at h₉
  exact absurd h₉ (by decide)

end

/-! ### Names without a dot -/

section

variable {s : List UInt8}

theorem getD_drop (k j : Nat) : (s.drop k).getD j 0 = s.getD (k + j) 0 := by
  rw [List.getD_eq_getElem?_getD, List.getD_eq_getElem?_getD, List.getElem?_drop]

/-- Without a dot among its first nine characters a name loses these nine. -/
theorem bytesAt_convertToFATFormat_dotless (h₀ : ∀ b ∈ s, b ≠ 0) (hdot : ∀ b ∈ s.take 9, b ≠ 0x2E)
    (h₁ : 9 ≤ s.length) (h₂ : s.length ≤ 11) :
    bytesAt (convertToFATFormat (buffer s)) 0 11 = shortKey [] (s.drop 9) := by
  have hu := uppercaseStr_buffer h₀ (show s.length < 13 by omega)
  -- the search for the dot or the end passes over nine characters
  have hstop : ∀ i < 9,
      ¬ (buffer (s.map uppercase) i = 0x2E ∨ buffer (s.map uppercase) i = 0) := by
    intro i hi
    rw [buffer, List.getD_eq_getElem _ _ (by rw [List.length_map]; omega), List.getElem_map,
      uppercase_eq_iff_of_lt (by decide), uppercase_eq_iff_of_lt (by decide), not_or]
    refine ⟨hdot _ ?_, h₀ _ (List.getElem_mem _)⟩
    rw [← List.getElem_take (j := 9) (h := by rw [List.length_take]; omega)]
    exact List.getElem_mem _
  have hl : (s.drop 9).length ≤ 3 := by
    rw [List.length_drop]
    omega
  refine bytesAt_eq_of_getD (length_shortKey (Nat.zero_le _) hl) fun i hi => ?_
  rw [(convertToFATFormat_of_noStop hu hstop hi).1, getD_shortKey (Nat.zero_le _) hi]
  split
  · rfl
  · -- the extension is taken from behind them
    have hd : buffer (s.map uppercase) (9 + (i - 8))
        = ((s.drop 9).map uppercase).getD (i - 8) 0 := by
      rw [List.map_drop, getD_drop]
      rfl
    rw [hd, orSpace_getD (map_uppercase_ne_zero fun b hb => h₀ b (List.mem_of_mem_drop hb)),
      List.length_map]

theorem forall_map_uppercase_eq_space {l : List UInt8} :
    (∀ b ∈ l.map uppercase, decide (b = 0x20) = true) ↔ ∀ b ∈ l, b = 0x20 := by
  simp only [List.mem_map, forall_exists_index, and_imp, forall_apply_eq_imp_iff₂,
    decide_eq_true_eq, uppercase_eq_iff_of_lt (show (0x20 : UInt8) < 65 by decide)]

/-- A name of 9 to 11 characters without a dot keeps its base and extension
only if it is blank. -/
theorem convertToFATFormat_kept_iff (h₀ : ∀ b ∈ s, b ≠ 0) (hdot : ∀ b ∈ s, b ≠ 0x2E)
    (h₁ : 9 ≤ s.length) (h₂ : s.length ≤ 11) :
    bytesAt (convertToFATFormat (buffer s)) 0 11 = shortKey (s.take 8) (s.drop 8) ↔
      ∀ b ∈ s, b = 0x20 := by
  have h₈ : s.drop 8 = s[8] :: s.drop 9 := List.drop_eq_getElem_cons (by omega)
  have hsplit : (∀ b ∈ s, b = 0x20) ↔
      (∀ b ∈ s.take 8, b = 0x20) ∧ ∀ b ∈ s.drop 8, b = 0x20 := by
    conv_lhs => rw [← List.take_append_drop 8 s]
    exact List.forall_mem_append
  rw [bytesAt_convertToFATFormat_dotless h₀ (fun b hb => hdot b (List.mem_of_mem_take hb)) h₁ h₂,
    shortKey_inj (Nat.zero_le _) (by rw [List.length_take]; omega), hsplit]
  refine and_congr ?_ ?_
  · -- the base is replaced by spaces
    rw [rightpad_eq_iff (Nat.zero_le _) (by rw [List.length_map, List.length_take]; omega),
      List.map_nil, List.rdropWhile_nil, eq_comm, List.rdropWhile_eq_nil_iff,
      forall_map_uppercase_eq_space]
  · -- the extension starts one character late
    rw [h₈, List.map_cons, rightpad_eq_iff (by simp; omega) (by simp; omega), eq_comm,
      rdropWhile_cons_eq_iff, ← List.map_cons, forall_map_uppercase_eq_space]

/-- A key with two characters of extension that ends in three given ones. -/
theorem shortKey_two_eq_iff {base front : List UInt8} {a b c : UInt8} (hb : base.length ≤ 8)
    (hf : front.length = 8) :
    shortKey base [a, b] = front ++ [c, a, b] ↔
      (base.map uppercase).rightpad 8 0x20 = front ∧ c = 0x20 ∧ a = 0x20 ∧ b = 0x20 := by
  have htail : ([a, b].map uppercase).rightpad 3 0x20 = [c, a, b] ↔
      c = 0x20 ∧ a = 0x20 ∧ b = 0x20 := by
    have hspace : uppercase 0x20 = 0x20 := by decide
    constructor
    · intro h
      have h' : [uppercase a, uppercase b, 0x20] = [c, a, b] := h
      simp only [List.cons.injEq, and_true] at h'
      obtain ⟨hc, ha, hz⟩ := h'
      rw [← hz, hspace] at ha
      rw [← ha, hspace] at hc
      exact ⟨hc.symm, ha.symm, hz.symm⟩
    · rintro ⟨rfl, rfl, rfl⟩
      decide
  rw [shortKey, ← htail]
  constructor
  · intro h
    exact List.append_inj h (by rw [length_rightpad_of_le (by simpa using hb), hf])
  · rintro ⟨h₁, h₂⟩
    rw [h₁, h₂]

/-- Eleven characters with no dot among the first eight are left unchanged only
if they are blank. -/
theorem convertToFATFormat_unchanged_iff (h₀ : ∀ b ∈ s, b ≠ 0)
    (hdot : ∀ b ∈ s.take 8, b ≠ 0x2E) (hl : s.length = 11) :
    bytesAt (convertToFATFormat (buffer s)) 0 11 = s ↔ ∀ b ∈ s, b = 0x20 := by
  obtain ⟨c, a, b, hcab⟩ := List.length_eq_three.mp (show (s.drop 8).length = 3 by simp [hl])
  set front := s.take 8 with hfront
  have hf : front.length = 8 := by simp [hfront, hl]
  have hs : s = front ++ [c, a, b] := by rw [← hcab, hfront, List.take_append_drop]
  clear_value front
  subst hs
  have hblank : (∀ x ∈ front ++ [c, a, b], x = 0x20) ↔
      (∀ x ∈ front, x = 0x20) ∧ c = 0x20 ∧ a = 0x20 ∧ b = 0x20 := by
    rw [List.forall_mem_append, List.forall_mem_cons, List.forall_mem_cons,
      List.forall_mem_singleton]
  rw [hblank]
  by_cases hc : c = 0x2E
  · -- the dot is dropped and the rest moves up
    subst hc
    have hconv : bytesAt (convertToFATFormat (buffer (front ++ [0x2E, a, b]))) 0 11
        = shortKey front [a, b] :=
      bytesAt_convertToFATFormat (fun x hx => ⟨h₀ x (List.mem_append_left _ hx), hdot x hx⟩) hf.le
        (fun x hx => h₀ x (List.mem_append_right _ (List.mem_cons_of_mem _ hx))) (by simp)
        (.inl rfl)
    rw [hconv, shortKey_two_eq_iff hf.le hf]
    exact iff_of_false (fun h => absurd h.2.1 (by decide)) fun h => absurd h.2.1 (by decide)
  · have h₉ : ∀ x ∈ (front ++ [c, a, b]).take 9, x ≠ 0x2E := by
      intro x hx
      rw [List.take_append, List.take_of_length_le (by omega), hf] at hx
      rcases List.mem_append.mp hx with hx | hx
      · exact hdot x hx
      · rw [List.mem_singleton.mp hx]
        exact hc
    have hd : (front ++ [c, a, b]).drop 9 = [a, b] := by
      rw [List.drop_append, List.drop_eq_nil_of_le (by omega), hf]
      rfl
    rw [bytesAt_convertToFATFormat_dotless h₀ h₉ (by omega) (by omega), hd,
      shortKey_two_eq_iff (Nat.zero_le _) hf]
    refine and_congr_left fun _ => ?_
    rw [eq_comm, List.map_nil, show List.rightpad 8 (0x20 : UInt8) [] = List.replicate 8 0x20
      from rfl, List.eq_replicate_iff]
    exact and_iff_right hf

/-- A name without a dot that is longer than a base. -/
structure Dotless (s : List UInt8) : Prop where
  ne_zero : ∀ b ∈ s, b ≠ 0
  ne_dot : ∀ b ∈ s, b ≠ 0x2E
  nine_le : 9 ≤ s.length
  le_eleven : s.length ≤ 11

/-- `s` is what some call of `convertToFATFormat` makes. -/
def Converted (s : List UInt8) : Prop := ∃ m, bytesAt (convertToFATFormat m) 0 11 = s

theorem Converted.unchanged_iff (h : Converted s) :
    bytesAt (convertToFATFormat (buffer s)) 0 11 = s ↔ ∀ b ∈ s, b = 0x20 := by
  obtain ⟨m, rfl⟩ := h
  refine convertToFATFormat_unchanged_iff (fun b hb => ?_) (fun b hb => ?_) (by simp [bytesAt])
  · obtain ⟨i, hi, rfl⟩ := List.mem_map.mp hb
    rw [Nat.zero_add]
    exact convertToFATFormat_ne_zero m (List.mem_range.mp hi)
  · rw [show (11 : Nat) = 8 + 3 from rfl, bytesAt_add, List.take_left' (by simp [bytesAt])] at hb
    obtain ⟨i, hi, rfl⟩ := List.mem_map.mp hb
    rw [Nat.zero_add]
    exact convertToFATFormat_ne_dot m (List.mem_range.mp hi)

theorem unchanged_iff_of_legal (hl : s.length = 11) (ht : testIfFATFormat (buffer s) = 0) :
    bytesAt (convertToFATFormat (buffer s)) 0 11 = s ↔ ∀ b ∈ s, b = 0x20 := by
  have hlegal : ∀ b ∈ s, LegalByte b := by
    intro b hb
    obtain ⟨i, hi, rfl⟩ := List.getElem_of_mem hb
    have := (testIfFATFormat_eq_zero_iff _).mp ht i (by omega)
    rwa [buffer, List.getD_eq_getElem _ _ hi] at this
  exact convertToFATFormat_unchanged_iff (fun b hb => (hlegal b hb).ne_zero)
    (fun b hb => (hlegal b (List.mem_of_mem_take hb)).2.1) hl

/-- A name without a dot is converted to its first eight and its other
characters, a legal name is left unchanged, and a conversion is repeated
without effect, exactly on blanks. -/
theorem convertToFATFormat_dotless_iff (s : List UInt8) :
    (Dotless s →
      (bytesAt (convertToFATFormat (buffer s)) 0 11 = shortKey (s.take 8) (s.drop 8) ↔
        ∀ b ∈ s, b = 0x20)) ∧
    (s.length = 11 ∧ testIfFATFormat (buffer s) = 0 →
      (bytesAt (convertToFATFormat (buffer s)) 0 11 = s ↔ ∀ b ∈ s, b = 0x20)) ∧
    (Converted s →
      (bytesAt (convertToFATFormat (buffer s)) 0 11 = s ↔ ∀ b ∈ s, b = 0x20)) := by
  refine ⟨fun h => ?_, fun h => ?_, fun h => ?_⟩
  · exact convertToFATFormat_kept_iff h.ne_zero h.ne_dot h.nine_le h.le_eleven
  · exact unchanged_iff_of_legal h.1 h.2
  · exact h.unchanged_iff

theorem convertToFATFormat_dotless_blank :
    bytesAt (convertToFATFormat (buffer (List.replicate 9 0x20))) 0 11
      = shortKey (List.replicate 8 0x20) [0x20] :=
  ((convertToFATFormat_dotless_iff (List.replicate 9 0x20)).1
    ⟨by simp, by simp, by simp, by simp⟩).mpr (by simp)

/-- Eleven letters are a legal name without a dot.  They lose nine of them, and
what they are converted to is changed by another conversion. -/
theorem not_convertToFATFormat_dotless_letters :
    Dotless (List.replicate 11 0x41) ∧
      testIfFATFormat (buffer (List.replicate 11 0x41)) = 0 ∧
      ¬ bytesAt (convertToFATFormat (buffer (List.replicate 11 0x41))) 0 11
        = shortKey (List.replicate 8 0x41) (List.replicate 3 0x41) ∧
      ¬ bytesAt (convertToFATFormat (buffer (List.replicate 11 0x41))) 0 11
        = List.replicate 11 0x41 ∧
      Converted (List.replicate 8 0x20 ++ [0x41, 0x41, 0x20]) ∧
      ¬ bytesAt (convertToFATFormat (buffer (List.replicate 8 0x20 ++ [0x41, 0x41, 0x20]))) 0 11
        = List.replicate 8 0x20 ++ [0x41, 0x41, 0x20] :=
  ⟨⟨List.forall_mem_replicate.mpr (.inr (by decide)),
      List.forall_mem_replicate.mpr (.inr (by decide)), by decide, by decide⟩,
    by decide, by decide, by decide, ⟨buffer (List.replicate 11 0x41), by decide⟩, by decide⟩

end

end PotatoOS
