import MapTables.Time.Timestamp

/-!
# Days and moments

Every date has a number of its own: that of the day after is one more, and that of the day before is
one less. So local times can be compared whatever their offsets are.
-/

namespace MapTables.Time

/-! ## Numbers of days -/

/-- Days from the start of the year 0 to that of a year, negative before it. -/
def daysBeforeYear (year : Int) : Int :=
  365 * year + (year + 3) / 4 - (year + 99) / 100 + (year + 399) / 400

def daysInYear (year : Int) : Nat := if isLeapYear year then 366 else 365

def daysBeforeMonth (year : Int) (month : Nat) : Nat :=
  (List.range month).foldl (fun days m => days + daysInMonth year m) 0

/-- The days from the start of the year 0 to the end of this one. -/
def Date.dayNumber (d : Date) : Int :=
  daysBeforeYear d.year + daysBeforeMonth d.year d.month + d.day

theorem daysBeforeYear_succ (year : Int) :
    daysBeforeYear (year + 1) = daysBeforeYear year + daysInYear year := by
  unfold daysBeforeYear daysInYear isLeapYear
  by_cases h4 : year % 4 = 0 <;> by_cases h100 : year % 100 = 0 <;>
    by_cases h400 : year % 400 = 0 <;> simp [h4, h100, h400] <;> omega

theorem daysBeforeMonth_succ (year : Int) (month : Nat) :
    daysBeforeMonth year (month + 1) = daysBeforeMonth year month + daysInMonth year month := by
  simp [daysBeforeMonth, List.range_succ]

theorem daysBeforeMonth_one (year : Int) : daysBeforeMonth year 1 = 0 := by
  simp [daysBeforeMonth, daysInMonth]

theorem daysBeforeMonth_end (year : Int) : daysBeforeMonth year 13 = daysInYear year := by
  unfold daysInYear
  simp only [daysBeforeMonth_succ _ (_ + 1), daysBeforeMonth_one, daysInMonth, Nat.reduceEqDiff,
    Nat.reduceAdd, if_true, if_false]
  cases isLeapYear year <;> simp

theorem daysInMonth_le (year : Int) (month : Nat) : daysInMonth year month ≤ 31 := by
  unfold daysInMonth
  repeat' split
  all_goals omega

/-! ## Days one after another -/

theorem Date.dayNumber_next (d : Date) : d.next.dayNumber = d.dayNumber + 1 := by
  have months := d.month_bounds
  have days := d.exists_day
  unfold Date.next
  split
  · simp only [Date.dayNumber]
    omega
  · split
    · -- The month ends with this day.
      have := daysBeforeMonth_succ d.year d.month
      simp only [Date.dayNumber]
      omega
    · have december : d.month = 12 := by omega
      have whole := daysBeforeMonth_end d.year
      rw [daysBeforeMonth_succ, ← december] at whole
      have := daysBeforeYear_succ d.year
      simp only [Date.dayNumber, daysBeforeMonth_one]
      omega

theorem Date.dayNumber_previous (d : Date) : d.previous.dayNumber = d.dayNumber - 1 := by
  have months := d.month_bounds
  have days := d.exists_day
  unfold Date.previous
  split
  · simp only [Date.dayNumber]
    omega
  · split
    · -- The month starts with this day.
      have := daysBeforeMonth_succ d.year (d.month - 1)
      rw [Nat.sub_add_cancel months.1] at this
      simp only [Date.dayNumber]
      omega
    · have january : d.month = 1 := by omega
      have whole := daysBeforeMonth_end (d.year - 1)
      rw [daysBeforeMonth_succ, daysInMonth_december] at whole
      have := daysBeforeYear_succ (d.year - 1)
      rw [Int.sub_add_cancel] at this
      simp only [Date.dayNumber, january, daysBeforeMonth_one]
      omega

/-! ## Dates in order -/

theorem daysBeforeYear_mono {year year' : Int} (h : year ≤ year') :
    daysBeforeYear year ≤ daysBeforeYear year' := by
  unfold daysBeforeYear
  omega

theorem daysBeforeMonth_mono (year : Int) {month month' : Nat} (h : month ≤ month') :
    daysBeforeMonth year month ≤ daysBeforeMonth year month' := by
  induction h with
  | refl => exact Nat.le_refl _
  | step _ ih =>
    rw [daysBeforeMonth_succ]
    omega

theorem Date.dayNumber_bounds (d : Date) : daysBeforeYear d.year < d.dayNumber ∧
    d.dayNumber ≤ daysBeforeYear (d.year + 1) := by
  have months := d.month_bounds
  have days := d.exists_day
  have ending := daysBeforeMonth_mono d.year (show d.month + 1 ≤ 13 by omega)
  rw [daysBeforeMonth_succ, daysBeforeMonth_end] at ending
  have := daysBeforeYear_succ d.year
  unfold Date.dayNumber
  omega

theorem Date.dayNumber_lt_of_year {d d' : Date} (h : d.year < d'.year) :
    d.dayNumber < d'.dayNumber := by
  have := d.dayNumber_bounds
  have := d'.dayNumber_bounds
  have := daysBeforeYear_mono (show d.year + 1 ≤ d'.year by omega)
  omega

theorem Date.dayNumber_lt_of_month {d d' : Date} (hy : d.year = d'.year)
    (h : d.month < d'.month) : d.dayNumber < d'.dayNumber := by
  have days := d.exists_day
  have days' := d'.exists_day
  have ending := daysBeforeMonth_mono d.year (show d.month + 1 ≤ d'.month by omega)
  rw [daysBeforeMonth_succ] at ending
  unfold Date.dayNumber
  rw [← hy]
  omega

theorem Date.dayNumber_inj {d d' : Date} (h : d.dayNumber = d'.dayNumber) : d = d' := by
  have hy : d.year = d'.year := by
    rcases Int.lt_trichotomy d.year d'.year with hl | he | hg
    · have := dayNumber_lt_of_year hl
      omega
    · exact he
    · have := dayNumber_lt_of_year hg
      omega
  have hm : d.month = d'.month := by
    rcases Nat.lt_trichotomy d.month d'.month with hl | he | hg
    · have := dayNumber_lt_of_month hy hl
      omega
    · exact he
    · have := dayNumber_lt_of_month hy.symm hg
      omega
  have hd : d.day = d'.day := by
    unfold Date.dayNumber at h
    rw [hy, hm] at h
    omega
  cases d
  cases d'
  cases hy
  cases hm
  cases hd
  rfl

/-! ## Moments -/

/-- A point of time. A minute may have a sixty-first second, which is a point of its own. -/
structure Moment where
  /-- Minutes since the start of the first day. -/
  minute : Int
  second : Nat
  nanosecond : Nat
deriving DecidableEq

/-- The point of time when clocks that are so many minutes ahead of UTC show this. -/
def Moment.ofLocal (date : Date) (hour minute second nanosecond : Nat) (ahead : Int) : Moment :=
  ⟨(date.dayNumber * 24 + hour) * 60 + minute - ahead, second, nanosecond⟩

def Timestamp.moment (t : Timestamp) : Moment :=
  ⟨t.date.dayNumber * 1440 + t.minute, t.second, t.nanosecond⟩

theorem Timestamp.moment_inj {t t' : Timestamp} (h : t.moment = t'.moment) : t = t' := by
  obtain ⟨minute, second, nanosecond⟩ := Moment.mk.inj h
  have hm := t.minute_lt
  have hm' := t'.minute_lt
  have hd : t.date = t'.date := Date.dayNumber_inj (by omega)
  have hn : t.minute = t'.minute := by
    rw [hd] at minute
    omega
  cases t
  cases t'
  cases hd
  cases hn
  cases second
  cases nanosecond
  rfl

theorem toUtc_spec {date : Date} {minute : Nat} {ahead : Int} (hm : minute < 1440)
    (ha : -1440 < ahead ∧ ahead < 1440) : (toUtc date minute ahead).2 < 1440 ∧
      (toUtc date minute ahead).1.dayNumber * 1440 + (toUtc date minute ahead).2 =
        date.dayNumber * 1440 + minute - ahead := by
  have := date.dayNumber_next
  have := date.dayNumber_previous
  unfold toUtc
  simp only
  split
  · simp only
    omega
  · split <;> simp only <;> omega

end MapTables.Time
