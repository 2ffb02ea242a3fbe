import Mathlib.Data.Nat.Find
import Mathlib.Tactic.Common

/-!
# The Gregorian calendar, as far back and ahead as one likes

A day is counted from the first of January of the year 0. A year of 400 belongs to
an era, which always has 146097 days, and a month belongs to a year. Both are
found the same way: a slot of a table is the last one that does not begin behind
the day (`slot`). Counting and finding undo each other (`ofDay_dayOf`,
`dayOf_ofDay`).
-/

namespace Calendar

/-- The last slot, of those up to `k`, that begins at `n` or before. -/
def slot (start : Nat → Nat) (k n : Nat) : Nat := Nat.findGreatest (fun i => start i ≤ n) k

section

variable {start : Nat → Nat} {k n i : Nat}

theorem slot_le : slot start k n ≤ k := Nat.findGreatest_le k

theorem start_slot_le (h : start 0 ≤ n) : start (slot start k n) ≤ n :=
  Nat.findGreatest_spec (P := fun i => start i ≤ n) (Nat.zero_le k) h

theorem lt_start_slot_succ (h : n < start (k + 1)) : n < start (slot start k n + 1) := by
  have hle : slot start k n ≤ k := slot_le
  rcases Nat.lt_or_eq_of_le hle with hlt | heq
  · exact Nat.not_le.mp (Nat.findGreatest_is_greatest (P := fun i => start i ≤ n)
      (Nat.lt_succ_self (slot start k n)) hlt)
  · rw [heq]
    exact h

/-- The slots do not overlap. -/
theorem slot_eq (hmono : ∀ i ≤ k, start i ≤ start (i + 1)) (hi : i ≤ k) (hle : start i ≤ n)
    (hlt : n < start (i + 1)) : slot start k n = i := by
  have hchain : ∀ j, i + 1 ≤ j → j ≤ k + 1 → start (i + 1) ≤ start j := by
    intro j hj
    induction j, hj using Nat.le_induction with
    | base => exact fun _ => Nat.le_refl _
    | succ j hj ih => exact fun hk => Nat.le_trans (ih (by omega)) (hmono j (by omega))
  refine Nat.le_antisymm (Nat.not_lt.mp fun hlater => ?_)
    (Nat.le_findGreatest (P := fun i => start i ≤ n) hi hle)
  have hzero : start 0 ≤ n := by
    have hdown : ∀ j, j ≤ i → start (i - j) ≤ n := by
      intro j
      induction j with
      | zero => exact fun _ => hle
      | succ j ih =>
          intro hj
          have hstep := hmono (i - (j + 1)) (by omega)
          rw [show i - (j + 1) + 1 = i - j by omega] at hstep
          exact Nat.le_trans hstep (ih (by omega))
    have h0 := hdown i (Nat.le_refl i)
    rwa [Nat.sub_self] at h0
  have hbegins := start_slot_le (k := k) hzero
  have hafter := hchain (slot start k n) hlater (Nat.le_succ_of_le slot_le)
  omega

end

/-! ## Years and months -/

def leap (y : Int) : Bool := y % 4 = 0 ∧ (y % 100 ≠ 0 ∨ y % 400 = 0)

/-- The days of an era in front of its `y`-th year. -/
def yearStart (y : Nat) : Nat := 365 * y + (y + 3) / 4 - (y + 99) / 100 + (y + 399) / 400

/-- The days of a year in front of its `m`-th month. -/
def monthStart (leapYear : Bool) (m : Nat) : Nat :=
  [0, 31, 59, 90, 120, 151, 181, 212, 243, 273, 304, 334].getD m 365 +
    if leapYear ∧ 2 ≤ m then 1 else 0

/-- Months are counted from 0 and days from 1. -/
structure Date where
  year : Int
  month : Nat
  day : Nat
  deriving DecidableEq

def Date.Valid (d : Date) : Prop :=
  d.month ≤ 11 ∧ 1 ≤ d.day ∧
    monthStart (leap d.year) d.month + d.day ≤ monthStart (leap d.year) (d.month + 1)

instance (d : Date) : Decidable d.Valid := inferInstanceAs (Decidable (_ ∧ _ ∧ _))

/-- The number of a day, which may lie outside its month. -/
def dayOf (year : Int) (month : Nat) (day : Int) : Int :=
  year / 400 * 146097 + yearStart (year % 400).toNat + monthStart (leap year) month + (day - 1)

def ofDay (n : Int) : Date :=
  let inEra := (n % 146097).toNat
  let y := slot yearStart 399 inEra
  let year := n / 146097 * 400 + y
  let inYear := inEra - yearStart y
  let month := slot (monthStart (leap year)) 11 inYear
  ⟨year, month, inYear - monthStart (leap year) month + 1⟩

example : ofDay (dayOf 2024 1 29) = ⟨2024, 1, 29⟩ := by decide +kernel

theorem leap_iff (y : Int) : leap y = true ↔ y % 4 = 0 ∧ (y % 100 ≠ 0 ∨ y % 400 = 0) := by
  simp [leap]

theorem leap_era (era y : Int) : leap (era * 400 + y) = leap y := by
  rw [Bool.eq_iff_iff, leap_iff, leap_iff]
  omega

theorem monthStart_twelve (leapYear : Bool) :
    monthStart leapYear 12 = if leapYear then 366 else 365 := by
  cases leapYear <;> rfl

theorem yearStart_succ (y : Nat) :
    yearStart (y + 1) = yearStart y + monthStart (leap y) 12 := by
  have h4 : (y + 1 + 3) / 4 = (y + 3) / 4 + if y % 4 = 0 then 1 else 0 := by
    split <;> omega
  have h100 : (y + 1 + 99) / 100 = (y + 99) / 100 + if y % 100 = 0 then 1 else 0 := by
    split <;> omega
  have h400 : (y + 1 + 399) / 400 = (y + 399) / 400 + if y % 400 = 0 then 1 else 0 := by
    split <;> omega
  have hless : (y + 99) / 100 ≤ (y + 3) / 4 := by omega
  have hleap : leap y = true ↔ y % 4 = 0 ∧ (y % 100 ≠ 0 ∨ y % 400 = 0) := by
    rw [leap_iff]
    omega
  have hdays : monthStart (leap y) 12 =
      if y % 4 = 0 ∧ (y % 100 ≠ 0 ∨ y % 400 = 0) then 366 else 365 := by
    simp only [monthStart_twelve, hleap]
  have h25 : y % 100 = 0 → y % 4 = 0 := by omega
  have h16 : y % 400 = 0 → y % 100 = 0 := by omega
  rw [hdays, yearStart, yearStart, h4, h100, h400]
  split_ifs <;> omega

theorem yearStart_mono (y : Nat) : yearStart y ≤ yearStart (y + 1) := by
  rw [yearStart_succ]
  exact Nat.le_add_right _ _

theorem monthStart_mono (leapYear : Bool) : ∀ m ≤ 11,
    monthStart leapYear m ≤ monthStart leapYear (m + 1) := by
  cases leapYear <;> decide

/-! ## There and back -/

theorem dayOf_ofDay (n : Int) :
    dayOf (ofDay n).year (ofDay n).month (ofDay n).day = n ∧ (ofDay n).Valid := by
  have hfull : yearStart (399 + 1) = 146097 := rfl
  have hera : (n % 146097).toNat < yearStart (399 + 1) := by omega
  obtain ⟨y, hy⟩ : ∃ y, y = slot yearStart 399 (n % 146097).toNat := ⟨_, rfl⟩
  have hyear : (ofDay n).year = n / 146097 * 400 + y := by rw [hy]; rfl
  have hle : y ≤ 399 := by rw [hy]; exact slot_le
  have hfrom : yearStart y ≤ (n % 146097).toNat := by
    rw [hy]
    exact start_slot_le (Nat.zero_le _)
  have hto := lt_start_slot_succ hera
  rw [← hy, yearStart_succ] at hto
  obtain ⟨lp, hlp⟩ : ∃ lp, lp = leap (n / 146097 * 400 + y) := ⟨_, rfl⟩
  have hlp' : leap y = lp := by rw [hlp, leap_era]
  rw [hlp'] at hto
  have hmonth : (n % 146097).toNat - yearStart y < monthStart lp (11 + 1) := by
    show (n % 146097).toNat - yearStart y < monthStart lp 12
    omega
  obtain ⟨m, hm⟩ : ∃ m, m = slot (monthStart lp) 11 ((n % 146097).toNat - yearStart y) := ⟨_, rfl⟩
  have hbegin : monthStart lp m ≤ (n % 146097).toNat - yearStart y := by
    rw [hm]
    exact start_slot_le (by cases lp <;> exact Nat.zero_le _)
  have hend := lt_start_slot_succ hmonth
  rw [← hm] at hend
  have hmle : m ≤ 11 := by rw [hm]; exact slot_le
  have hdate : ofDay n = ⟨n / 146097 * 400 + y, m,
      (n % 146097).toNat - yearStart y - monthStart lp m + 1⟩ := by
    rw [hm, hlp, hy]
    rfl
  rw [hdate]
  constructor
  · have hquot : (n / 146097 * 400 + y : Int) / 400 = n / 146097 := by omega
    have hrem : ((n / 146097 * 400 + y : Int) % 400).toNat = y := by omega
    show dayOf (n / 146097 * 400 + y) m
      (((n % 146097).toNat - yearStart y - monthStart lp m + 1 : Nat) : Int) = n
    rw [dayOf, hquot, hrem, ← hlp]
    omega
  · refine ⟨hmle, Nat.le_add_left 1 _, ?_⟩
    show monthStart (leap (n / 146097 * 400 + y)) m +
        ((n % 146097).toNat - yearStart y - monthStart lp m + 1) ≤
      monthStart (leap (n / 146097 * 400 + y)) (m + 1)
    rw [← hlp]
    omega

theorem ofDay_dayOf {d : Date} (h : d.Valid) : ofDay (dayOf d.year d.month d.day) = d := by
  obtain ⟨hmonth, hday, hlast⟩ := h
  have hyear : monthStart (leap d.year) (d.month + 1) ≤ monthStart (leap d.year) 12 := by
    have hall : ∀ lp : Bool, ∀ m ≤ 11, monthStart lp (m + 1) ≤ monthStart lp 12 := by decide
    exact hall _ _ hmonth
  obtain ⟨y, hy⟩ : ∃ y : Nat, (y : Int) = d.year % 400 := ⟨(d.year % 400).toNat, by omega⟩
  have hsplit : d.year = d.year / 400 * 400 + y := by omega
  have hleap : leap y = leap d.year := by
    rw [hsplit, leap_era]
  have hsucc := yearStart_succ y
  rw [hleap] at hsucc
  have hbound : yearStart (y + 1) ≤ 146097 := by
    have hall : ∀ j, y + 1 ≤ j → yearStart (y + 1) ≤ yearStart j := by
      intro j hj
      induction j, hj using Nat.le_induction with
      | base => exact Nat.le_refl _
      | succ j hj ih => exact Nat.le_trans ih (yearStart_mono j)
    exact hall 400 (by omega)
  have hnum : dayOf d.year d.month d.day = d.year / 400 * 146097 +
      ((yearStart y + (monthStart (leap d.year) d.month + (d.day - 1)) : Nat) : Int) := by
    rw [dayOf, show (d.year % 400).toNat = y by omega]
    omega
  obtain ⟨r, hr⟩ : ∃ r, r = yearStart y + (monthStart (leap d.year) d.month + (d.day - 1)) :=
    ⟨_, rfl⟩
  rw [← hr] at hnum
  have hquot : dayOf d.year d.month d.day / 146097 = d.year / 400 := by omega
  have hrem : (dayOf d.year d.month d.day % 146097).toNat = r := by omega
  have hslot : slot yearStart 399 r = y :=
    slot_eq (fun i _ => yearStart_mono i) (by omega) (by omega) (by omega)
  have hmonthSlot : slot (monthStart (leap d.year)) 11 (r - yearStart y) = d.month :=
    slot_eq (monthStart_mono _) hmonth (by omega) (by omega)
  unfold ofDay
  dsimp only
  rw [hquot, hrem, hslot, ← hsplit, hmonthSlot]
  refine Date.mk.injEq .. ▸ ⟨rfl, rfl, ?_⟩
  omega

end Calendar
