import Mathlib.Data.Int.DivMod

/-!
# The Gregorian calendar

Days are counted from the first of January of the year 1, in the calendar
continued to both sides.  A date may be given with a month out of the year and a
day out of the month; `dayNumber` then is the day that it comes to, as `mktime`
has it.

## Main results

* `yearStart_bounds` — a year has 365 days and about a quarter.
* `dayNumber_dateOf` — the date of a day is one of that day, and a proper one.
-/

namespace Megatron.Lib.Calendar

/-! ## Years -/

def isLeap (y : Int) : Bool := y % 4 == 0 && (y % 100 != 0 || y % 400 == 0)

/-- The first day of a year. -/
def yearStart (y : Int) : Int := 365 * (y - 1) + (y - 1) / 4 - (y - 1) / 100 + (y - 1) / 400

/-- The days of a year behind its 365th. -/
def leapDay (leap : Bool) : Int := if leap then 1 else 0

theorem yearStart_succ (y : Int) : yearStart (y + 1) = yearStart y + 365 + leapDay (isLeap y) := by
  have hLeap : isLeap y = true ↔ y % 4 = 0 ∧ (y % 100 ≠ 0 ∨ y % 400 = 0) := by
    simp [isLeap]
  unfold yearStart leapDay
  by_cases h : isLeap y = true
  · have hDays := hLeap.1 h
    rw [if_pos h]
    omega
  · have hDays := mt hLeap.2 h
    rw [if_neg h]
    omega

theorem yearStart_bounds (y : Int) :
    146097 * (y - 1) - 700 ≤ 400 * yearStart y ∧ 400 * yearStart y ≤ 146097 * (y - 1) + 396 := by
  unfold yearStart
  omega

/-- The year of a day: by the average, and then by one more or less. -/
def yearOf (d : Int) : Int :=
  let y := 400 * d / 146097 + 1
  if d < yearStart y then y - 1 else if yearStart (y + 1) ≤ d then y + 1 else y

theorem yearOf_spec (d : Int) : yearStart (yearOf d) ≤ d ∧ d < yearStart (yearOf d + 1) := by
  have hBefore := yearStart_bounds (400 * d / 146097)
  have hHere := yearStart_bounds (400 * d / 146097 + 1)
  have hNext := yearStart_bounds (400 * d / 146097 + 1 + 1)
  have hAfter := yearStart_bounds (400 * d / 146097 + 1 + 1 + 1)
  unfold yearOf
  dsimp only
  split
  · have hSame : 400 * d / 146097 + 1 - 1 + 1 = 400 * d / 146097 + 1 := by omega
    rw [hSame]
    have hSame' : 400 * d / 146097 + 1 - 1 = 400 * d / 146097 := by omega
    rw [hSame']
    omega
  · split
    · omega
    · omega

/-! ## Months -/

/-- The days of a year in front of a month, which is counted from 0. -/
def monthStart (leap : Bool) (m : Nat) : Int :=
  [0, 31, 59, 90, 120, 151, 181, 212, 243, 273, 304, 334].getD m 334 +
    if 2 ≤ m then leapDay leap else 0

/-- The month of a day of the year. -/
def monthOf (leap : Bool) (n : Nat) : Nat :=
  ((List.range 12).reverse.find? fun m => monthStart leap m ≤ n).getD 0

theorem monthOf_facts : ∀ leap, ∀ n < 366, n < 365 ∨ leap = true →
    monthOf leap n < 12 ∧ monthStart leap (monthOf leap n) ≤ n ∧
      (n : Int) ≤ monthStart leap (monthOf leap n) + 30 := by
  decide +kernel

theorem monthStart_bounds (leap : Bool) {m : Nat} (hm : m < 12) :
    0 ≤ monthStart leap m ∧ monthStart leap m ≤ 335 := by
  have hAll : ∀ leap, ∀ m < 12, 0 ≤ monthStart leap m ∧ monthStart leap m ≤ 335 := by decide
  exact hAll leap m hm

/-! ## Days -/

/-- The day of a date, whose month is counted from 0. -/
def dayNumber (year mon mday : Int) : Int :=
  yearStart (year + mon / 12) + monthStart (isLeap (year + mon / 12)) (mon % 12).toNat + (mday - 1)

theorem dayNumber_bounds (year mon mday : Int) :
    yearStart (year + mon / 12) + mday - 1 ≤ dayNumber year mon mday ∧
      dayNumber year mon mday ≤ yearStart (year + mon / 12) + mday + 334 := by
  have hMonth : (mon % 12).toNat < 12 := by omega
  have hBounds := monthStart_bounds (isLeap (year + mon / 12)) hMonth
  unfold dayNumber
  omega

/-- The date of a day. -/
structure Date where
  year : Int
  mon : Int
  mday : Int

def dateOf (d : Int) : Date :=
  let year := yearOf d
  let mon := monthOf (isLeap year) (d - yearStart year).toNat
  ⟨year, mon, d - yearStart year - monthStart (isLeap year) mon + 1⟩

/-- The fields of the date are in their ranges, and it is that of the day. -/
theorem dayNumber_dateOf (d : Int) :
    dayNumber (dateOf d).year (dateOf d).mon (dateOf d).mday = d ∧
      (0 ≤ (dateOf d).mon ∧ (dateOf d).mon ≤ 11) ∧ 1 ≤ (dateOf d).mday ∧ (dateOf d).mday ≤ 31 := by
  obtain ⟨hStart, hEnd⟩ := yearOf_spec d
  rw [yearStart_succ] at hEnd
  have hYear : (d - yearStart (yearOf d)).toNat < 366 ∧
      ((d - yearStart (yearOf d)).toNat < 365 ∨ isLeap (yearOf d) = true) := by
    unfold leapDay at hEnd
    split at hEnd
    · rename_i hLeap
      exact ⟨by omega, .inr hLeap⟩
    · exact ⟨by omega, .inl (by omega)⟩
  obtain ⟨hMonth, hFirst, hLast⟩ := monthOf_facts (isLeap (yearOf d)) _ hYear.1 hYear.2
  have hDay : ((d - yearStart (yearOf d)).toNat : Int) = d - yearStart (yearOf d) := by omega
  unfold dateOf dayNumber
  dsimp only
  have hDiv : ∀ m : Nat, m < 12 → (m : Int) / 12 = 0 ∧ ((m : Int) % 12).toNat = m := by omega
  obtain ⟨hNoYear, hSame⟩ := hDiv _ hMonth
  rw [hNoYear, hSame, Int.add_zero]
  omega

end Megatron.Lib.Calendar
