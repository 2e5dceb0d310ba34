/-!
# Calendar dates

Dates of the Gregorian calendar, carried back before its introduction and before the
year one. The day before and the day after a date are dates again.
-/

namespace MapTables.Time

def isLeapYear (year : Int) : Bool := year % 4 = 0 && (year % 100 ≠ 0 || year % 400 = 0)

/-- Days of a month, numbered from one; no days for a month that does not exist. -/
def daysInMonth (year : Int) (month : Nat) : Nat :=
  if month = 2 then if isLeapYear year then 29 else 28
  else if month = 4 ∨ month = 6 ∨ month = 9 ∨ month = 11 then 30
  else if 1 ≤ month ∧ month ≤ 12 then 31
  else 0

structure Date where
  year : Int
  month : Nat
  day : Nat
  exists_day : 1 ≤ day ∧ day ≤ daysInMonth year month
deriving DecidableEq

def Date.ofNumbers? (year : Int) (month day : Nat) : Option Date :=
  if h : 1 ≤ day ∧ day ≤ daysInMonth year month then some ⟨year, month, day, h⟩ else none

theorem daysInMonth_ge (year : Int) (m : Nat) (h : 1 ≤ m ∧ m ≤ 12) : 28 ≤ daysInMonth year m := by
  unfold daysInMonth
  repeat' split
  all_goals omega

theorem daysInMonth_zero_of_gt (year : Int) (m : Nat) (h : 12 < m) : daysInMonth year m = 0 := by
  unfold daysInMonth
  repeat' split
  all_goals omega

theorem Date.month_bounds (d : Date) : 1 ≤ d.month ∧ d.month ≤ 12 := by
  have hd := d.exists_day
  by_cases h0 : d.month = 0
  · have hz : daysInMonth d.year d.month = 0 := by simp [h0, daysInMonth]
    omega
  · by_cases h12 : d.month ≤ 12
    · omega
    · have := daysInMonth_zero_of_gt d.year d.month (by omega)
      omega

theorem daysInMonth_december (year : Int) : daysInMonth year 12 = 31 := by simp [daysInMonth]
theorem daysInMonth_january (year : Int) : daysInMonth year 1 = 31 := by simp [daysInMonth]

def Date.next (d : Date) : Date :=
  if h : d.day + 1 ≤ daysInMonth d.year d.month then
    { d with day := d.day + 1, exists_day := ⟨by omega, h⟩ }
  else if h12 : d.month < 12 then
    ⟨d.year, d.month + 1, 1, by
      have := daysInMonth_ge d.year (d.month + 1) (by omega)
      omega⟩
  else ⟨d.year + 1, 1, 1, by rw [daysInMonth_january]; omega⟩

def Date.previous (d : Date) : Date :=
  if h : 1 < d.day then
    { d with day := d.day - 1, exists_day := by have := d.exists_day; omega }
  else if h1 : 1 < d.month then
    ⟨d.year, d.month - 1, daysInMonth d.year (d.month - 1), by
      have := daysInMonth_ge d.year (d.month - 1) (by have := d.month_bounds; omega)
      omega⟩
  else ⟨d.year - 1, 12, 31, by rw [daysInMonth_december]; omega⟩

end MapTables.Time
