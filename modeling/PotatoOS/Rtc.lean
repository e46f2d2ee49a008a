/-
PotatoOS/Rtc.lean

`read_rtc` of tty.c, the date and time of the CMOS clock.

The clock goes on while its registers are read.  The function reads the six
registers in passes until two passes in a row give the same, then converts what
it has read.  Every access to the CMOS happens at a moment, counted by
`moment`, and the registers may hold other bytes at every moment (`Cmos`);
`passes` records the moments at which the passes began.

The first result is about the passes.  The seconds are read first.  If less than
a minute goes by, equal seconds in two passes mean that the clock stood still
from the one to the other, so the first pass was not torn, and the second one
read the same (`readStamp_consistent`).  The loop ends when the clock rests for
two passes at some time, and the flag of an update is clear again and again
(`readRtc_returns`).

The second result is about the conversion.  It undoes the encodings of the
hardware, except for the twelve o'clocks of the 12-hour clock: 12 PM becomes 0
and 12 AM stays 12 (`readsRight_iff`).
-/
import PotatoOS.Shell

namespace PotatoOS

open Prog

/-! ### Reading -/

/-- The bytes of the CMOS registers at each moment. -/
def Cmos : Type := Nat → UInt8 → UInt8

/-- The six global variables. -/
structure Stamp where
  second : UInt8
  minute : UInt8
  hour : UInt8
  day : UInt8
  month : UInt8
  year : UInt32
  deriving DecidableEq, Repr

/-- The machine while it reads the clock.  `century` is a local variable that is never set. -/
structure Rtc where
  shell : Shell
  moment : Nat
  stamp : Stamp
  century : UInt8
  passes : List Nat

/-- `CURRENT_YEAR`: a year before it belongs to the next century. -/
def currentYear : UInt32 := 2023

/-- `century_register`: 0, there is none. -/
def centuryRegister : UInt8 := 0x00

namespace Rtc

variable (cmos : Cmos)

/-- `get_RTC_register`: one access, which takes one unit of time. -/
def getRtcRegister (reg : UInt8) : Prog Rtc UInt8 := do
  let moment ← gets (·.moment)
  modify ({ · with moment := moment + 1 })
  return cmos moment reg

/-- `get_update_in_progress_flag`: the upper bit of status register A. -/
def getUpdateInProgressFlag : Prog Rtc UInt8 := do
  let status ← getRtcRegister cmos 0x0A
  return status &&& 0x80

/-- Make sure an update isn't in progress. -/
def waitUpdate : Nat → Prog Rtc Unit
  | 0 => halt .exhausted
  | fuel + 1 => do
      let flag ← getUpdateInProgressFlag cmos
      if flag ≠ 0 then waitUpdate fuel else return ()

/-- One pass over the registers. -/
def readPass : Prog Rtc Unit := do
  modify fun s => { s with passes := s.moment :: s.passes }
  let second ← getRtcRegister cmos 0x00
  let minute ← getRtcRegister cmos 0x02
  let hour ← getRtcRegister cmos 0x04
  let day ← getRtcRegister cmos 0x07
  let month ← getRtcRegister cmos 0x08
  let year ← getRtcRegister cmos 0x09
  modify ({ · with stamp := ⟨second, minute, hour, day, month, year.toUInt32⟩ })
  if centuryRegister ≠ 0 then do
    let century ← getRtcRegister cmos centuryRegister
    modify ({ · with century := century })

/-- The comparison of two passes; the last year is kept in a byte. -/
def Differ (last now : Stamp) (lastCentury century : UInt8) : Prop :=
  last.second ≠ now.second ∨ last.minute ≠ now.minute ∨ last.hour ≠ now.hour ∨
    last.day ≠ now.day ∨ last.month ≠ now.month ∨ last.year.toUInt8.toUInt32 ≠ now.year ∨
    lastCentury ≠ century

instance (last now : Stamp) (lastCentury century : UInt8) :
    Decidable (Differ last now lastCentury century) := inferInstanceAs (Decidable (_ ∨ _))

/-- The do-while loop. -/
def readLoop (fuel : Nat) : Nat → Prog Rtc Unit
  | 0 => halt .exhausted
  | n + 1 => do
      let last ← gets (·.stamp)
      let lastCentury ← gets (·.century)
      waitUpdate cmos fuel
      readPass cmos
      let now ← gets (·.stamp)
      let century ← gets (·.century)
      if Differ last now lastCentury century then readLoop fuel n else return ()

/-- The function up to the end of its loop. -/
def readStamp (fuel : Nat) : Prog Rtc Unit := do
  waitUpdate cmos fuel
  readPass cmos
  readLoop cmos fuel fuel

end Rtc

/-! ### Converting -/

namespace Stamp

/-- The conversion of a byte from BCD, as it is written for the seconds. -/
def fromBcd (b : UInt8) : UInt8 := (b &&& 0x0F) + b / 16 * 10

/-- The PM flag is left aside. -/
def hourFromBcd (b : UInt8) : UInt8 := ((b &&& 0x0F) + (b &&& 0x70) / 16 * 10) ||| (b &&& 0x80)

/-- The same for the year, in 32 bits. -/
def yearFromBcd (year : UInt32) : UInt32 := (year &&& 0x0F) + year / 16 * 10

variable (s : Stamp) (registerB century : UInt8)

/-- BCD to binary values if necessary. -/
def toBinary : Stamp :=
  if registerB &&& 0x04 = 0 then
    ⟨fromBcd s.second, fromBcd s.minute, hourFromBcd s.hour, fromBcd s.day, fromBcd s.month,
      yearFromBcd s.year⟩
  else s

/-- The same for the century, if there is a register for it. -/
def centuryToBinary : UInt8 :=
  if registerB &&& 0x04 = 0 ∧ centuryRegister ≠ 0 then fromBcd century else century

/-- 12 hour clock to 24 hour clock if necessary. -/
def to24Hours : Stamp :=
  if registerB &&& 0x02 = 0 ∧ s.hour &&& 0x80 ≠ 0 then
    { s with hour := ((s.hour &&& 0x7F) + 12) % 24 }
  else s

/-- The full (4-digit) year. -/
def fullYear : Stamp :=
  if centuryRegister ≠ 0 then { s with year := s.year + century.toUInt32 * 100 }
  else
    let year := s.year + currentYear / 100 * 100
    { s with year := if year < currentYear then year + 100 else year }

/-- What `read_rtc` makes of the registers. -/
def decode : Stamp :=
  ((s.toBinary registerB).to24Hours registerB).fullYear (centuryToBinary registerB century)

end Stamp

/-- `read_rtc`: read the registers until they agree, then convert them by status register B. -/
def Rtc.readRtc (cmos : Cmos) (fuel : Nat) : Prog Rtc Unit := do
  modify fun s => { s with shell := s.shell.task (text "Read RTC...") 0 }
  Rtc.readStamp cmos fuel
  let registerB ← Rtc.getRtcRegister cmos 0x0B
  modify fun s => { s with stamp := s.stamp.decode registerB s.century }
  modify fun s => { s with shell := s.shell.task (text "Read RTC...") 1 }

/-! ### Passes -/

namespace Rtc

variable {cmos : Cmos} {s s' : Rtc} {fuel n : Nat}

/-- What a pass reads that begins at moment `t`. -/
def pass (cmos : Cmos) (t : Nat) : Stamp :=
  ⟨cmos t 0x00, cmos (t + 1) 0x02, cmos (t + 2) 0x04, cmos (t + 3) 0x07, cmos (t + 4) 0x08,
    (cmos (t + 5) 0x09).toUInt32⟩

theorem readPass_eq (s : Rtc) :
    readPass cmos s = (.value (), { s with
      moment := s.moment + 6
      stamp := pass cmos s.moment
      passes := s.moment :: s.passes }) := rfl

/-- Waiting only takes time. -/
theorem waitUpdate_value (h : waitUpdate cmos fuel s = (.value (), s')) :
    ∃ t, s.moment ≤ t ∧ s' = { s with moment := t } := by
  induction fuel generalizing s with
  | zero => cases h
  | succ fuel ih =>
      have hflag : getUpdateInProgressFlag cmos s
          = (.value (cmos s.moment 0x0A &&& 0x80), { s with moment := s.moment + 1 }) := rfl
      rw [waitUpdate, bind_value hflag] at h
      split at h
      · obtain ⟨t, ht, rfl⟩ := ih h
        exact ⟨t, (Nat.le_succ _).trans ht, rfl⟩
      · cases h
        exact ⟨s.moment + 1, Nat.le_succ _, rfl⟩

/-- The state behind a pass that began at `a`. -/
structure Behind (cmos : Cmos) (a : Nat) (s : Rtc) : Prop where
  stamp : s.stamp = pass cmos a
  passes : ∃ rest, s.passes = a :: rest
  moment : a + 6 ≤ s.moment

/-- Wait and read: a pass that begins later. -/
theorem readPass_behind {a : Nat} {t : Nat} (h : Behind cmos a s) (ht : s.moment ≤ t) :
    ∃ b rest, a + 6 ≤ b ∧ Behind cmos b (readPass cmos { s with moment := t }).2 ∧
      (readPass cmos { s with moment := t }).2.passes = b :: a :: rest := by
  obtain ⟨rest, hrest⟩ := h.passes
  refine ⟨t, rest, h.moment.trans ht, ⟨rfl, ⟨_, rfl⟩, Nat.le_refl _⟩, ?_⟩
  rw [readPass_eq]
  exact congrArg (t :: ·) hrest

/-- The loop is left behind two passes that do not differ. -/
theorem readLoop_value {a : Nat} (h : Behind cmos a s)
    (hrun : readLoop cmos fuel n s = (.value (), s')) :
    ∃ a b rest, s'.passes = b :: a :: rest ∧ a + 6 ≤ b ∧ s'.stamp = pass cmos b ∧
      ¬Differ (pass cmos a) (pass cmos b) s'.century s'.century := by
  induction n generalizing s a with
  | zero => cases hrun
  | succ n ih =>
      rw [readLoop, gets_bind, gets_bind] at hrun
      obtain ⟨⟨⟩, s₁, hwait, hrun⟩ := bind_eq_value hrun
      obtain ⟨t, ht, rfl⟩ := waitUpdate_value hwait
      rw [bind_value (readPass_eq _), gets_bind, gets_bind] at hrun
      obtain ⟨b, rest, hab, hb, hpasses⟩ := readPass_behind h ht
      rw [readPass_eq] at hb hpasses
      split at hrun
      · exact ih hb hrun
      next hsame =>
        cases hrun
        refine ⟨a, b, rest, hpasses, hab, hb.stamp, ?_⟩
        rw [← hb.stamp, ← h.stamp]
        exact hsame

theorem readStamp_value (hrun : readStamp cmos fuel s = (.value (), s')) :
    ∃ a b rest, s'.passes = b :: a :: rest ∧ a + 6 ≤ b ∧ s'.stamp = pass cmos b ∧
      ¬Differ (pass cmos a) (pass cmos b) s'.century s'.century := by
  rw [readStamp] at hrun
  obtain ⟨⟨⟩, s₁, hwait, hrun⟩ := bind_eq_value hrun
  obtain ⟨t, ht, rfl⟩ := waitUpdate_value hwait
  rw [bind_value (readPass_eq _)] at hrun
  exact readLoop_value ⟨rfl, ⟨_, rfl⟩, Nat.le_refl _⟩ hrun

/-- The byte in which the last year is kept is wide enough for a pass. -/
theorem year_pass (t : Nat) : (pass cmos t).year.toUInt8.toUInt32 = (pass cmos t).year := by
  show (cmos (t + 5) 0x09).toUInt32.toUInt8.toUInt32 = (cmos (t + 5) 0x09).toUInt32
  rw [UInt8.toUInt8_toUInt32]

theorem not_differ_pass (t : Nat) (century : UInt8) :
    ¬Differ (pass cmos t) (pass cmos t) century century := by
  simp only [Differ, year_pass, ne_eq, not_true_eq_false, or_self, not_false_eq_true]

theorem pass_eq_of_not_differ {a b : Nat} {century : UInt8}
    (h : ¬Differ (pass cmos a) (pass cmos b) century century) : pass cmos a = pass cmos b := by
  simp only [Differ, not_or, not_not] at h
  obtain ⟨hsecond, hminute, hhour, hday, hmonth, hyear, -⟩ := h
  rw [year_pass] at hyear
  rcases hp : pass cmos a with ⟨second, minute, hour, day, month, year⟩
  rw [hp] at hsecond hminute hhour hday hmonth hyear
  subst hsecond hminute hhour hday hmonth hyear
  rfl

end Rtc

/-! ### A clock that rests -/

/-- The registers that a pass reads. -/
def passRegisters : List UInt8 := [0x00, 0x02, 0x04, 0x07, 0x08, 0x09]

/-- The flag of an update is clear at one of any `patience` accesses in a row, and from the moment
`t` on the registers stand still for as long as two passes and the waits in front of them can
take, should `t` come right behind the first access of another pass. -/
structure Cmos.Rests (cmos : Cmos) (patience t : Nat) : Prop where
  ready : ∀ m, ∃ i < patience, cmos (m + i) 0x0A &&& 0x80 = 0
  still : ∀ m, t ≤ m → m < t + 2 * patience + 17 →
    ∀ reg ∈ passRegisters, cmos m reg = cmos t reg

namespace Rtc

variable {cmos : Cmos} {patience t fuel n : Nat}

/-- A wait ends at the first look that finds the flag clear. -/
theorem waitUpdate_returns {s : Rtc} (h : ∃ i < patience, cmos (s.moment + i) 0x0A &&& 0x80 = 0)
    (hfuel : patience ≤ fuel) :
    ∃ m, s.moment ≤ m ∧ m ≤ s.moment + patience ∧
      waitUpdate cmos fuel s = (.value (), { s with moment := m }) := by
  induction fuel generalizing s patience with
  | zero =>
      obtain ⟨i, hi, -⟩ := h
      omega
  | succ fuel ih =>
      obtain ⟨i, hi, hclear⟩ := h
      have hflag : getUpdateInProgressFlag cmos s
          = (.value (cmos s.moment 0x0A &&& 0x80), { s with moment := s.moment + 1 }) := rfl
      rw [waitUpdate, bind_value hflag]
      by_cases hset : cmos s.moment 0x0A &&& 0x80 = 0
      · rw [if_neg (not_not.mpr hset)]
        exact ⟨s.moment + 1, by omega, by omega, rfl⟩
      · -- the clear look is still to come, with one look less to wait for it
        rw [if_pos hset]
        obtain ⟨j, rfl⟩ : ∃ j, i = j + 1 := by
          rcases i with - | j
          · exact absurd hclear hset
          · exact ⟨j, rfl⟩
        have hlater : ∃ i < patience - 1, cmos (s.moment + 1 + i) 0x0A &&& 0x80 = 0 := by
          refine ⟨j, by omega, ?_⟩
          rwa [Nat.add_assoc, Nat.add_comm 1 j]
        obtain ⟨m, hle, hm, hrun⟩ := ih (s := { s with moment := s.moment + 1 }) hlater (by omega)
        simp only at hle hm
        exact ⟨m, by omega, by omega, hrun⟩

/-- All passes in the time of rest read the same. -/
theorem pass_rests (h : cmos.Rests patience t) {a : Nat} (ha : t ≤ a)
    (hend : a + 5 < t + 2 * patience + 17) : pass cmos a = pass cmos t := by
  have hread (a : Nat) (ha : t ≤ a) (hend : a + 5 < t + 2 * patience + 17) : pass cmos a
      = ⟨cmos t 0x00, cmos t 0x02, cmos t 0x04, cmos t 0x07, cmos t 0x08,
        (cmos t 0x09).toUInt32⟩ := by
    rw [pass, h.still a ha (by omega) 0x00 (by decide),
      h.still (a + 1) (by omega) (by omega) 0x02 (by decide),
      h.still (a + 2) (by omega) (by omega) 0x04 (by decide),
      h.still (a + 3) (by omega) (by omega) 0x07 (by decide),
      h.still (a + 4) (by omega) (by omega) 0x08 (by decide),
      h.still (a + 5) (by omega) (by omega) 0x09 (by decide)]
  rw [hread a ha hend, hread t (Nat.le_refl t) (by omega)]

/-- Behind a pass in the time of rest the loop is left at once. -/
theorem readLoop_rests (h : cmos.Rests patience t) (hfuel : patience ≤ fuel) {s : Rtc} {a : Nat}
    (hstamp : s.stamp = pass cmos a) (hmoment : s.moment = a + 6) (ha : t ≤ a)
    (hle : a ≤ t + patience + 5) :
    ∃ s', readLoop cmos fuel (n + 1) s = (.value (), s') := by
  obtain ⟨b, hlow, hhigh, hwait⟩ := waitUpdate_returns (h.ready s.moment) hfuel
  have hsame : pass cmos b = pass cmos a := by
    rw [pass_rests h (by omega) (by omega), pass_rests h ha (by omega)]
  rw [readLoop, gets_bind, gets_bind, bind_value hwait, bind_value (readPass_eq _), gets_bind,
    gets_bind]
  simp only [hstamp, hsame, if_neg (not_differ_pass a _)]
  exact ⟨_, rfl⟩

/-- The loop is left in the time of rest, if not before. -/
theorem readLoop_returns (h : cmos.Rests patience t) (hfuel : patience ≤ fuel) {s : Rtc} {a : Nat}
    (hstamp : s.stamp = pass cmos a) (hmoment : s.moment = a + 6) (hle : a ≤ t + patience + 5)
    (hn : t < a + n) (hn₀ : 0 < n) : ∃ s', readLoop cmos fuel n s = (.value (), s') := by
  induction n generalizing s a with
  | zero => exact absurd hn₀ (Nat.lt_irrefl 0)
  | succ n ih =>
      by_cases ha : t ≤ a
      · exact readLoop_rests h hfuel hstamp hmoment ha hle
      · -- the pass began before the time of rest; the next one begins six accesses later or more
        obtain ⟨b, hlow, hhigh, hwait⟩ := waitUpdate_returns (h.ready s.moment) hfuel
        rw [readLoop, gets_bind, gets_bind, bind_value hwait, bind_value (readPass_eq _),
          gets_bind, gets_bind]
        split
        · exact ih (a := b) rfl rfl (by omega) (by omega) (by omega)
        · exact ⟨_, rfl⟩

/-- With a clock that rests the function returns, whatever the registers hold before and after. -/
theorem readRtc_returns (h : cmos.Rests patience t) {s : Rtc} (ht : s.moment ≤ t)
    (hfuel : patience + t < fuel) : ∃ s', readRtc cmos fuel s = (.value (), s') := by
  have hstamp (s : Rtc) (ht : s.moment ≤ t) : ∃ s', readStamp cmos fuel s = (.value (), s') := by
    obtain ⟨b, hlow, hhigh, hwait⟩ := waitUpdate_returns (h.ready s.moment)
      (by omega : patience ≤ fuel)
    rw [readStamp, bind_value hwait, bind_value (readPass_eq _)]
    exact readLoop_returns (a := b) h (by omega) rfl rfl (by omega) (by omega) (by omega)
  obtain ⟨s', hrun⟩ := hstamp { s with shell := s.shell.task (text "Read RTC...") 0 } ht
  rw [readRtc, modify_bind, bind_value hrun]
  exact ⟨_, rfl⟩

end Rtc

/-! ### A clock that goes on -/

/-- Day, month and year of the century, by the number of the day. -/
structure Calendar where
  day : Nat → UInt8
  month : Nat → UInt8
  year : Nat → UInt8

/-- The fields of a clock value in seconds. -/
def fieldsOf (cal : Calendar) (v : Nat) : Stamp :=
  ⟨UInt8.ofNat (v % 60), UInt8.ofNat (v / 60 % 60), UInt8.ofNat (v / 3600 % 24),
    cal.day (v / 86400), cal.month (v / 86400), (cal.year (v / 86400)).toUInt32⟩

/-- At every moment the registers hold the fields of the clock. -/
structure Cmos.Shows (cmos : Cmos) (clock : Nat → Nat) (cal : Calendar) : Prop where
  second : ∀ t, cmos t 0x00 = (fieldsOf cal (clock t)).second
  minute : ∀ t, cmos t 0x02 = (fieldsOf cal (clock t)).minute
  hour : ∀ t, cmos t 0x04 = (fieldsOf cal (clock t)).hour
  day : ∀ t, cmos t 0x07 = (fieldsOf cal (clock t)).day
  month : ∀ t, cmos t 0x08 = (fieldsOf cal (clock t)).month
  year : ∀ t, (cmos t 0x09).toUInt32 = (fieldsOf cal (clock t)).year

namespace Rtc

variable {cmos : Cmos} {clock : Nat → Nat} {cal : Calendar} {a b : Nat}

/-- A pass while the clock stands still. -/
theorem pass_eq_fieldsOf (h : cmos.Shows clock cal) (hstill : ∀ t, a ≤ t → t < a + 6 →
    clock t = clock a) : pass cmos a = fieldsOf cal (clock a) := by
  rw [pass, h.second, h.minute, h.hour, h.day, h.month, h.year,
    hstill (a + 1) (by omega) (by omega), hstill (a + 2) (by omega) (by omega),
    hstill (a + 3) (by omega) (by omega), hstill (a + 4) (by omega) (by omega),
    hstill (a + 5) (by omega) (by omega)]

/-- Within a minute equal seconds mean equal times. -/
theorem clock_eq_of_second (h : cmos.Shows clock cal) (hle : clock a ≤ clock b)
    (hlt : clock b < clock a + 60) (hsecond : cmos a 0x00 = cmos b 0x00) : clock b = clock a := by
  rw [h.second, h.second] at hsecond
  have hmod := congrArg UInt8.toNat hsecond
  simp only [fieldsOf, UInt8.toNat_ofNat'] at hmod
  omega

/-- The values with which the loop is left are the fields of the clock at one moment between the
first read of the last pass but one and the last read of the last one, if less than 60 seconds go
by from the one to the other. -/
theorem readStamp_consistent (hclock : Monotone clock) (hcmos : cmos.Shows clock cal) (fuel : Nat)
    (s s' : Rtc) (hrun : readStamp cmos fuel s = (.value (), s')) :
    ∃ a b rest, s'.passes = b :: a :: rest ∧ a + 6 ≤ b ∧
      (clock (b + 5) < clock a + 60 →
        ∃ t, a ≤ t ∧ t ≤ b + 5 ∧ s'.stamp = fieldsOf cal (clock t)) := by
  obtain ⟨a, b, rest, hpasses, hab, hstamp, hsame⟩ := readStamp_value hrun
  refine ⟨a, b, rest, hpasses, hab, fun hlt => ⟨a, Nat.le_refl a, by omega, ?_⟩⟩
  have hpass := pass_eq_of_not_differ hsame
  have hb : clock b = clock a :=
    clock_eq_of_second hcmos (hclock (by omega)) ((hclock (Nat.le_add_right b 5)).trans_lt hlt)
      (congrArg Stamp.second hpass)
  -- between the two reads of the seconds the clock stands still
  rw [hstamp, ← hpass]
  refine pass_eq_fieldsOf hcmos fun t hat hta => le_antisymm ?_ (hclock hat)
  exact (hclock (by omega : t ≤ b)).trans hb.le

/-- The machine in front of `read_rtc`. -/
def startRtc : Rtc := ⟨bootShell, 0, ⟨0, 0, 0, 0, 0, 0⟩, 0, []⟩

/-- A clock at the end of a day: midnight comes between the second and the third access. -/
def midnightClock (t : Nat) : Nat := if t < 3 then 86399 else 86400

/-- A January. -/
def januaryCalendar : Calendar := ⟨fun n => UInt8.ofNat (n + 1), fun _ => 1, fun _ => 23⟩

/-- The registers of that clock; no update is in progress. -/
def midnightCmos : Cmos := fun t reg =>
  let now := fieldsOf januaryCalendar (midnightClock t)
  if reg = 0x00 then now.second else if reg = 0x02 then now.minute
  else if reg = 0x04 then now.hour else if reg = 0x07 then now.day
  else if reg = 0x08 then now.month else if reg = 0x09 then now.year.toUInt8 else 0

theorem monotone_midnightClock : Monotone midnightClock := by
  intro t t' h
  rw [midnightClock, midnightClock]
  split
  · split <;> decide
  · rw [if_neg (by omega)]

theorem shows_midnightCmos : midnightCmos.Shows midnightClock januaryCalendar where
  second _ := rfl
  minute _ := rfl
  hour _ := rfl
  day _ := rfl
  month _ := rfl
  year _ := rfl

theorem rests_midnightCmos : midnightCmos.Rests 1 3 where
  ready _ := ⟨0, Nat.one_pos, show (0 : UInt8) &&& 0x80 = 0 by decide⟩
  still m hm _ reg _ := by
    have hclock : midnightClock m = midnightClock 3 := if_neg (by omega)
    rw [midnightCmos, hclock]
    rfl

/-- The first pass is torn: 00:59:59 of the second day.  The loop goes on, and is left with
midnight. -/
theorem readStamp_consistent_midnight :
    pass midnightCmos 1 = ⟨59, 59, 0, 2, 1, 23⟩ ∧
    (readStamp midnightCmos 2 startRtc).2.passes = [15, 8, 1] ∧
    ∃ t, 8 ≤ t ∧ t ≤ 20 ∧ (readStamp midnightCmos 2 startRtc).2.stamp
      = fieldsOf januaryCalendar (midnightClock t) := by
  have hpasses : (readStamp midnightCmos 2 startRtc).2.passes = [15, 8, 1] := rfl
  obtain ⟨a, b, rest, hlast, -, h⟩ := readStamp_consistent monotone_midnightClock
    shows_midnightCmos 2 startRtc (readStamp midnightCmos 2 startRtc).2 rfl
  rw [hpasses] at hlast
  cases hlast
  exact ⟨rfl, hpasses, h (by decide)⟩

end Rtc

/-! ### Registers that stand still -/

/-- Length of a month. -/
def daysIn (year month : Nat) : Nat :=
  if month = 2 then if year % 4 = 0 ∧ (year % 100 ≠ 0 ∨ year % 400 = 0) then 29 else 28
  else if month = 4 ∨ month = 6 ∨ month = 9 ∨ month = 11 then 30 else 31

/-- A date and time that the two digits of the year determine. -/
structure DateTime where
  second : Nat
  minute : Nat
  hour : Nat
  day : Nat
  month : Nat
  year : Nat
  second_lt : second < 60
  minute_lt : minute < 60
  hour_lt : hour < 24
  one_le_day : 1 ≤ day
  day_le : day ≤ daysIn year month
  one_le_month : 1 ≤ month
  month_le : month ≤ 12
  le_year : 2023 ≤ year
  year_le : year ≤ 2122

/-- The global variables that show this date and time. -/
def DateTime.stamp (d : DateTime) : Stamp :=
  ⟨UInt8.ofNat d.second, UInt8.ofNat d.minute, UInt8.ofNat d.hour, UInt8.ofNat d.day,
    UInt8.ofNat d.month, UInt32.ofNat d.year⟩

/-- A number of two digits in a register, in BCD or binary. -/
def encodeByte (registerB : UInt8) (n : Nat) : UInt8 :=
  if registerB &&& 0x04 = 0 then UInt8.ofNat (n / 10 * 16 + n % 10) else UInt8.ofNat n

/-- The hour in its register; the 12-hour clock counts 12, 1, …, 11 and has a flag for PM. -/
def encodeHour (registerB : UInt8) (hour : Nat) : UInt8 :=
  if registerB &&& 0x02 = 0 then
    encodeByte registerB (if hour % 12 = 0 then 12 else hour % 12) |||
      (if 12 ≤ hour then 0x80 else 0)
  else encodeByte registerB hour

/-- The registers hold a date and time all along, and no update is in progress. -/
structure Cmos.Holds (cmos : Cmos) (registerB : UInt8) (d : DateTime) : Prop where
  second : ∀ t, cmos t 0x00 = encodeByte registerB d.second
  minute : ∀ t, cmos t 0x02 = encodeByte registerB d.minute
  hour : ∀ t, cmos t 0x04 = encodeHour registerB d.hour
  day : ∀ t, cmos t 0x07 = encodeByte registerB d.day
  month : ∀ t, cmos t 0x08 = encodeByte registerB d.month
  year : ∀ t, cmos t 0x09 = encodeByte registerB (d.year % 100)
  idle : ∀ t, cmos t 0x0A &&& 0x80 = 0
  mode : ∀ t, cmos t 0x0B = registerB

/-- The function returns and leaves this date and time. -/
def Rtc.ReadsRight (cmos : Cmos) (d : DateTime) (s : Rtc) : Prop :=
  ∀ fuel ≥ 1, ∃ s', readRtc cmos fuel s = (.value (), s') ∧ s'.stamp = d.stamp

/-- The registers as one pass reads them. -/
def DateTime.raw (registerB : UInt8) (d : DateTime) : Stamp :=
  ⟨encodeByte registerB d.second, encodeByte registerB d.minute, encodeHour registerB d.hour,
    encodeByte registerB d.day, encodeByte registerB d.month,
    (encodeByte registerB (d.year % 100)).toUInt32⟩

theorem daysIn_le (year month : Nat) : daysIn year month ≤ 31 := by
  rw [daysIn]
  split
  · split <;> decide
  · split <;> decide

namespace Stamp

variable {registerB : UInt8} {n : Nat}

/-- The conversion undoes the encoding. -/
theorem fromBcd_encodeByte (hn : n < 100) :
    (if registerB &&& 0x04 = 0 then fromBcd (encodeByte registerB n) else encodeByte registerB n)
      = UInt8.ofNat n := by
  have hbcd : ∀ n < 100, fromBcd (UInt8.ofNat (n / 10 * 16 + n % 10)) = UInt8.ofNat n := by decide
  rw [encodeByte]
  split
  · exact hbcd n hn
  · rfl

theorem yearFromBcd_encodeByte (hn : n < 100) :
    (if registerB &&& 0x04 = 0 then yearFromBcd (encodeByte registerB n).toUInt32
      else (encodeByte registerB n).toUInt32) = UInt32.ofNat n := by
  have hbcd : ∀ n < 100, yearFromBcd (UInt8.ofNat (n / 10 * 16 + n % 10)).toUInt32
      = UInt32.ofNat n := by decide
  have hbin : ∀ n < 100, (UInt8.ofNat n).toUInt32 = UInt32.ofNat n := by decide
  rw [encodeByte]
  split
  · exact hbcd n hn
  · exact hbin n hn

/-- The hour that the two conversions make of a register. -/
def hourOut (registerB b : UInt8) : UInt8 :=
  let hour := if registerB &&& 0x04 = 0 then hourFromBcd b else b
  if registerB &&& 0x02 = 0 ∧ hour &&& 0x80 ≠ 0 then ((hour &&& 0x7F) + 12) % 24 else hour

/-- The hour of a register in binary. -/
def binaryHour (registerB : UInt8) (hour : Nat) : UInt8 :=
  if registerB &&& 0x02 = 0 then
    UInt8.ofNat (if hour % 12 = 0 then 12 else hour % 12) ||| (if 12 ≤ hour then 0x80 else 0)
  else UInt8.ofNat hour

/-- The conversion from BCD leaves the PM flag as it is. -/
theorem hourFromBcd_encodeHour (registerB : UInt8) {hour : Nat} (h : hour < 24) :
    (if registerB &&& 0x04 = 0 then hourFromBcd (encodeHour registerB hour)
      else encodeHour registerB hour) = binaryHour registerB hour := by
  by_cases hbcd : registerB &&& 0x04 = 0
  · simp only [encodeHour, encodeByte, binaryHour, if_pos hbcd]
    split
    · revert hour
      decide
    · revert hour
      decide
  · simp only [encodeHour, encodeByte, binaryHour, if_neg hbcd]

/-- The hour is right except at the twelve o'clocks of the 12-hour clock. -/
theorem hourOut_encodeHour_iff (registerB : UInt8) {hour : Nat} (h : hour < 24) :
    hourOut registerB (encodeHour registerB hour) = UInt8.ofNat hour ↔
      registerB &&& 0x02 ≠ 0 ∨ hour % 12 ≠ 0 := by
  simp only [hourOut, hourFromBcd_encodeHour registerB h, binaryHour]
  by_cases h12 : registerB &&& 0x02 = 0
  · simp only [h12, if_true, true_and, ne_eq, not_true, false_or]
    revert hour
    decide
  · simp only [h12, if_false, false_and, ne_eq, not_false_eq_true, true_or]

/-- The window of a hundred years. -/
def yearOut (year : UInt32) : UInt32 :=
  if year + 2000 < currentYear then year + 2000 + 100 else year + 2000

theorem yearOut_ofNat {year : Nat} (h : 2023 ≤ year) (h' : year ≤ 2122) :
    yearOut (UInt32.ofNat (year % 100)) = UInt32.ofNat year := by
  have hyear : ∀ k < 100, yearOut (UInt32.ofNat ((2023 + k) % 100)) = UInt32.ofNat (2023 + k) := by
    decide
  obtain ⟨k, rfl⟩ := Nat.exists_eq_add_of_le h
  exact hyear k (by omega)

theorem decode_eq (s : Stamp) (registerB century : UInt8) :
    s.decode registerB century =
      { second := if registerB &&& 0x04 = 0 then fromBcd s.second else s.second
        minute := if registerB &&& 0x04 = 0 then fromBcd s.minute else s.minute
        hour := hourOut registerB s.hour
        day := if registerB &&& 0x04 = 0 then fromBcd s.day else s.day
        month := if registerB &&& 0x04 = 0 then fromBcd s.month else s.month
        year := yearOut (if registerB &&& 0x04 = 0 then yearFromBcd s.year else s.year) } := by
  rw [decode, fullYear, if_neg (by decide), to24Hours, toBinary]
  by_cases hbcd : registerB &&& 0x04 = 0
  · simp only [if_pos hbcd, hourOut]
    split <;> rfl
  · simp only [if_neg hbcd, hourOut]
    split <;> rfl

/-- The conversion undoes the encoding, up to the hour. -/
theorem decode_raw (registerB century : UInt8) (d : DateTime) :
    (d.raw registerB).decode registerB century =
      { d.stamp with hour := hourOut registerB (encodeHour registerB d.hour) } := by
  have hday := d.day_le.trans (daysIn_le d.year d.month)
  have hmonth := d.month_le
  have hsecond := d.second_lt
  have hminute := d.minute_lt
  rw [decode_eq, DateTime.raw, DateTime.stamp]
  simp only [fromBcd_encodeByte (show d.second < 100 by omega),
    fromBcd_encodeByte (show d.minute < 100 by omega),
    fromBcd_encodeByte (show d.day < 100 by omega),
    fromBcd_encodeByte (show d.month < 100 by omega),
    yearFromBcd_encodeByte (show d.year % 100 < 100 by omega), yearOut_ofNat d.le_year d.year_le]

theorem decode_raw_eq_stamp_iff (registerB century : UInt8) (d : DateTime) :
    (d.raw registerB).decode registerB century = d.stamp ↔
      registerB &&& 0x02 ≠ 0 ∨ d.hour % 12 ≠ 0 := by
  rw [decode_raw, ← hourOut_encodeHour_iff registerB d.hour_lt]
  constructor
  · intro h
    exact congrArg Stamp.hour h
  · intro h
    rw [h]
    rfl

end Stamp

namespace Rtc

variable {cmos : Cmos} {registerB : UInt8} {d : DateTime}

theorem pass_eq_raw (h : cmos.Holds registerB d) (t : Nat) : pass cmos t = d.raw registerB := by
  rw [pass, h.second, h.minute, h.hour, h.day, h.month, h.year, DateTime.raw]

theorem waitUpdate_idle (h : cmos.Holds registerB d) {fuel : Nat} (hf : fuel ≥ 1) (s : Rtc) :
    waitUpdate cmos fuel s = (.value (), { s with moment := s.moment + 1 }) := by
  obtain ⟨fuel, rfl⟩ := Nat.exists_eq_add_of_le' hf
  have hflag : getUpdateInProgressFlag cmos s
      = (.value (cmos s.moment 0x0A &&& 0x80), { s with moment := s.moment + 1 }) := rfl
  rw [waitUpdate, bind_value hflag, if_neg (not_not.mpr (h.idle s.moment))]
  rfl

/-- Two passes are enough. -/
theorem readStamp_idle (h : cmos.Holds registerB d) {fuel : Nat} (hf : fuel ≥ 1) (s : Rtc) :
    readStamp cmos fuel s = (.value (), { s with
      moment := s.moment + 14
      stamp := d.raw registerB
      passes := (s.moment + 8) :: (s.moment + 1) :: s.passes }) := by
  have hwait := fun s => waitUpdate_idle h hf s
  have hloop (s : Rtc) (hs : s.stamp = d.raw registerB) : readLoop cmos fuel fuel s =
      (.value (), { s with
        moment := s.moment + 7
        stamp := d.raw registerB
        passes := (s.moment + 1) :: s.passes }) := by
    obtain ⟨n, hn⟩ := Nat.exists_eq_add_of_le' hf
    nth_rewrite 2 [hn]
    rw [readLoop, gets_bind, gets_bind, bind_value (hwait s), bind_value (readPass_eq _),
      gets_bind, gets_bind, hs, ← pass_eq_raw h (s.moment + 1), if_neg (not_differ_pass _ _)]
    rfl
  rw [readStamp, bind_value (hwait s), bind_value (readPass_eq _), hloop _ (pass_eq_raw h _)]

theorem readRtc_eq (h : cmos.Holds registerB d) {fuel : Nat} (hf : fuel ≥ 1) (s : Rtc) :
    ∃ s', readRtc cmos fuel s = (.value (), s') ∧
      s'.stamp = (d.raw registerB).decode registerB s.century := by
  have hregister (s : Rtc) : getRtcRegister cmos 0x0B s
      = (.value registerB, { s with moment := s.moment + 1 }) := by
    rw [← h.mode s.moment]
    rfl
  rw [readRtc, modify_bind, bind_value (readStamp_idle h hf _), bind_value (hregister _)]
  exact ⟨_, rfl, rfl⟩

/-- With registers that stand still the function leaves their date and time, except at the twelve
o'clocks of the 12-hour clock. -/
theorem readsRight_iff (h : cmos.Holds registerB d) (s : Rtc) :
    ReadsRight cmos d s ↔ registerB &&& 0x02 ≠ 0 ∨ d.hour % 12 ≠ 0 := by
  rw [← Stamp.decode_raw_eq_stamp_iff registerB s.century]
  constructor
  · intro hr
    obtain ⟨s₁, hrun₁, hstamp₁⟩ := hr 1 (Nat.le_refl 1)
    obtain ⟨s₂, hrun₂, hstamp₂⟩ := readRtc_eq h (Nat.le_refl 1) s
    rw [hrun₁] at hrun₂
    cases hrun₂
    exact hstamp₂.symm.trans hstamp₁
  · intro hd fuel hf
    obtain ⟨s', hrun, hstamp⟩ := readRtc_eq h hf s
    exact ⟨s', hrun, hstamp.trans hd⟩

/-- Registers that hold a date and time. -/
def still (registerB : UInt8) (d : DateTime) : Cmos := fun _ reg =>
  if reg = 0x00 then encodeByte registerB d.second
  else if reg = 0x02 then encodeByte registerB d.minute
  else if reg = 0x04 then encodeHour registerB d.hour
  else if reg = 0x07 then encodeByte registerB d.day
  else if reg = 0x08 then encodeByte registerB d.month
  else if reg = 0x09 then encodeByte registerB (d.year % 100)
  else if reg = 0x0B then registerB else 0

theorem holds_still (registerB : UInt8) (d : DateTime) : (still registerB d).Holds registerB d :=
  ⟨fun _ => rfl, fun _ => rfl, fun _ => rfl, fun _ => rfl, fun _ => rfl, fun _ => rfl,
    fun _ => show (0 : UInt8) &&& 0x80 = 0 by decide, fun _ => rfl⟩

/-- New year's day of 2024, on the hour. -/
def newYear (hour : Nat) (h : hour < 24) : DateTime where
  second := 0
  minute := 0
  hour := hour
  day := 1
  month := 1
  year := 2024
  second_lt := by decide
  minute_lt := by decide
  hour_lt := h
  one_le_day := by decide
  day_le := by decide
  one_le_month := by decide
  month_le := by decide
  le_year := by decide
  year_le := by decide

theorem readsRight_afternoon :
    ReadsRight (still 0 (newYear 13 (by decide))) (newYear 13 (by decide)) startRtc :=
  (readsRight_iff (holds_still 0 _) startRtc).mpr (Or.inr (by decide))

/-- Midnight of the 12-hour clock is read as noon. -/
theorem not_readsRight_midnight :
    (still 0 (newYear 0 (by decide))).Holds 0 (newYear 0 (by decide)) ∧
      ¬ReadsRight (still 0 (newYear 0 (by decide))) (newYear 0 (by decide)) startRtc := by
  refine ⟨holds_still 0 _, fun hr => ?_⟩
  obtain ⟨s₁, hrun₁, hstamp₁⟩ := hr 1 (Nat.le_refl 1)
  obtain ⟨s₂, hrun₂, hstamp₂⟩ := readRtc_eq (holds_still 0 _) (Nat.le_refl 1) startRtc
  rw [hrun₁] at hrun₂
  cases hrun₂
  have hhour : (12 : UInt8) = 0 := congrArg Stamp.hour (hstamp₂.symm.trans hstamp₁)
  exact absurd hhour (by decide)

end Rtc

end PotatoOS
