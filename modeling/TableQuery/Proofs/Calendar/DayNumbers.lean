import Mathlib.Tactic.SplitIfs
import TableQuery.Calendar.Moment

/-!
# Every date has a day number of its own

The number of a day is a closed formula in the year plus the days of the months before
the one of the date. That no two dates share a number is a fact about the calendar: the
formula grows by the days of a year from one year to the next
(`TableQuery.Date.daysBeforeYear_succ`), the sum over the months by the days of a month,
and a date lies within its month and its year. Day numbers are therefore ordered as dates
are (`TableQuery.Date.dayNumber_lt`), and a moment of one day lies in no other
(`TableQuery.Moment.outside_of_ne`).
-/

namespace TableQuery

namespace Date

/-! ### Years -/

/-- The number of days of a year. -/
def daysInYear (year : Int) : Nat :=
  if isLeapYear year then 366 else 365

theorem isLeapYear_iff {year : Int} :
    isLeapYear year = true ↔ year % 4 = 0 ∧ (year % 100 ≠ 0 ∨ year % 400 = 0) := by
  simp [isLeapYear]

theorem daysBeforeYear_succ (year : Int) :
    daysBeforeYear (year + 1) = daysBeforeYear year + daysInYear year := by
  simp only [daysBeforeYear, daysInYear, isLeapYear_iff]
  split_ifs <;> omega

theorem daysBeforeYear_mono {year year' : Int} (h : year ≤ year') :
    daysBeforeYear year ≤ daysBeforeYear year' := by
  obtain ⟨n, rfl⟩ := Int.le.dest h
  clear h
  induction n with
  | zero => simp
  | succ n ih =>
    have hsucc := daysBeforeYear_succ (year + n)
    rw [Int.natCast_succ, ← Int.add_assoc, hsucc]
    omega

/-! ### Months -/

theorem daysBeforeMonth_succ (year : Int) {month : Nat} (h : 1 ≤ month) :
    daysBeforeMonth year (month + 1) = daysBeforeMonth year month + daysInMonth year month := by
  obtain ⟨m, rfl⟩ : ∃ m, month = m + 1 := ⟨month - 1, by omega⟩
  simp only [daysBeforeMonth, Nat.add_sub_cancel, List.range_succ, List.foldl_append,
    List.foldl_cons, List.foldl_nil]

theorem daysBeforeMonth_mono (year : Int) {month month' : Nat} (h : 1 ≤ month)
    (hle : month ≤ month') : daysBeforeMonth year month ≤ daysBeforeMonth year month' := by
  induction hle with
  | refl => exact Nat.le_refl _
  | step hle ih =>
    rw [daysBeforeMonth_succ year (Nat.le_trans h hle)]
    omega

theorem daysBeforeMonth_end (year : Int) : daysBeforeMonth year 13 = daysInYear year := by
  rw [daysInYear]
  cases hleap : isLeapYear year <;>
    simp [daysBeforeMonth, daysInMonth, hleap, List.range_succ]

theorem month_bounds {year : Int} {month : Nat} (h : 0 < daysInMonth year month) :
    1 ≤ month ∧ month ≤ 12 := by
  revert h
  unfold daysInMonth
  split <;> omega

/-! ### Dates -/

/-- The date exists. -/
theorem isValid_iff {d : Date} : d.isValid = true ↔
    yearInRange d.year = true ∧ 1 ≤ d.day ∧ d.day ≤ daysInMonth d.year d.month := by
  simp [isValid, and_assoc]

variable {d e : Date}

theorem month_of_isValid (h : d.isValid = true) : 1 ≤ d.month ∧ d.month ≤ 12 :=
  have ⟨_, hday, hday'⟩ := isValid_iff.mp h
  month_bounds (Nat.lt_of_lt_of_le hday hday')

/-- The days of a month come before those of a later one. -/
theorem daysBeforeMonth_add_day_le (h : d.isValid = true) {month : Nat} (hlt : d.month < month) :
    daysBeforeMonth d.year d.month + d.day ≤ daysBeforeMonth d.year month := by
  obtain ⟨hmonth, -⟩ := month_of_isValid h
  have hsucc := daysBeforeMonth_succ d.year hmonth
  have hmono : daysBeforeMonth d.year (d.month + 1) ≤ daysBeforeMonth d.year month :=
    daysBeforeMonth_mono d.year (by omega) hlt
  have hday := (isValid_iff.mp h).2.2
  omega

/-- A date lies in its year. -/
theorem dayNumber_bounds (h : d.isValid = true) :
    daysBeforeYear d.year ≤ d.dayNumber ∧ d.dayNumber < daysBeforeYear (d.year + 1) := by
  have hmonth := (month_of_isValid h).2
  have hday := (isValid_iff.mp h).2.1
  have hend := daysBeforeMonth_add_day_le h (Nat.lt_succ_of_le hmonth)
  rw [daysBeforeMonth_end] at hend
  rw [daysBeforeYear_succ, dayNumber]
  omega

/-- The order of dates: by year, then by month, then by day. -/
def Before (d e : Date) : Prop :=
  d.year < e.year ∨ d.year = e.year ∧ (d.month < e.month ∨ d.month = e.month ∧ d.day < e.day)

theorem before_or_before (h : d ≠ e) : Before d e ∨ Before e d := by
  have hne : ¬(d.year = e.year ∧ d.month = e.month ∧ d.day = e.day) := by
    rintro ⟨hyear, hmonth, hday⟩
    refine h ?_
    cases d
    cases e
    simp_all
  simp only [Before]
  omega

/-- **Day numbers are ordered as dates are.** -/
theorem dayNumber_lt (hd : d.isValid = true) (he : e.isValid = true) (h : Before d e) :
    d.dayNumber < e.dayNumber := by
  rcases h with hyear | ⟨hyear, hmonth | ⟨hmonth, hday⟩⟩
  · calc d.dayNumber < daysBeforeYear (d.year + 1) := (dayNumber_bounds hd).2
      _ ≤ daysBeforeYear e.year := daysBeforeYear_mono hyear
      _ ≤ e.dayNumber := (dayNumber_bounds he).1
  · have hbefore := daysBeforeMonth_add_day_le hd hmonth
    have hday := (isValid_iff.mp he).2.1
    rw [dayNumber, dayNumber, ← hyear]
    omega
  · rw [dayNumber, dayNumber, ← hyear, ← hmonth]
    omega

theorem dayNumber_ne (hd : d.isValid = true) (he : e.isValid = true) (h : d ≠ e) :
    d.dayNumber ≠ e.dayNumber := by
  rcases before_or_before h with hbefore | hbefore
  · exact Int.ne_of_lt (dayNumber_lt hd he hbefore)
  · exact Int.ne_of_gt (dayNumber_lt he hd hbefore)

end Date

/-! ### Moments -/

namespace Moment

variable {m : Moment}

/-- A minute with a 60th second apart, a time of day is less than a day. -/
theorem millisOfDay_lt (hhour : m.hour < 24) (hminute : m.minute < 60) (hsecond : m.second < 60)
    (hmilli : m.milli < 1000) : (m.millisOfDay : Int) < dayMillis := by
  rw [millisOfDay, dayMillis]
  omega

/-- A moment lies in its day. -/
theorem millis_bounds (h : (m.millisOfDay : Int) < dayMillis) :
    m.date.dayNumber * dayMillis ≤ m.millis ∧
      m.millis ≤ m.date.dayNumber * dayMillis + (dayMillis - 1) := by
  rw [millis]
  omega

/-- **A moment lies in no other day.** -/
theorem outside_of_ne (h : (m.millisOfDay : Int) < dayMillis) (hm : m.date.isValid = true)
    {e : Date} (he : e.isValid = true) (hne : e ≠ m.date) :
    m.millis < e.dayNumber * dayMillis ∨
      e.dayNumber * dayMillis + (dayMillis - 1) < m.millis := by
  have hday := Date.dayNumber_ne he hm hne
  rw [millis, dayMillis] at *
  omega

end Moment

end TableQuery
