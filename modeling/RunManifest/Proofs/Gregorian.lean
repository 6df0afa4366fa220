import RunManifest.Proofs.Calendar

/-!
Contract: the number of a day is the number of days counted from 1 January 1970.

Owns:
- `Calendar.Leap`, `Calendar.yearDays` and `Calendar.monthDays`, the rules of the Gregorian calendar;
- `Date.OnCalendar`, that a date exists;
- `Date.countedDays`, the days before a date counted year by year and month by month, and
  `Date.dayNumber_eq_countedDays`, which says that the closed form gives that count.
-/

set_option autoImplicit false

namespace RunManifest

namespace Calendar

/-- A year with a leap day: every fourth year, but of the full centuries only every fourth. -/
def Leap (year : Int) : Prop :=
  4 ∣ year ∧ (100 ∣ year → 400 ∣ year)

instance (year : Int) : Decidable (Leap year) :=
  inferInstanceAs (Decidable (_ ∧ _))

/-- The days of a year. -/
def yearDays (year : Int) : Int :=
  if Leap year then 366 else 365

/-- The days of a month of a year. -/
def monthDays (year : Int) (month : Nat) : Int :=
  if month = 2 then (if Leap year then 29 else 28)
  else if month = 4 ∨ month = 6 ∨ month = 9 ∨ month = 11 then 30
  else 31

/-- The days of the years from one on up to another. -/
def daysBetween (first last : Int) : Int :=
  ∑ place ∈ Finset.range (last - first).toNat, yearDays (first + place)

/-- The days from the start of 1970 to the start of a year, negative for earlier years. -/
def countedYears (year : Int) : Int :=
  daysBetween 1970 year - daysBetween year 1970

private theorem daysBetween_of_le {first last : Int} (backwards : last ≤ first) :
    daysBetween first last = 0 := by
  rw [daysBetween, Int.toNat_of_nonpos (by omega), Finset.sum_range_zero]

private theorem daysBetween_succ {first last : Int} (forwards : first ≤ last) :
    daysBetween first (last + 1) = daysBetween first last + yearDays last := by
  obtain ⟨count, rfl⟩ := Int.le.dest forwards
  have places : (first + count + 1 - first).toNat = count + 1 := by omega
  have before : (first + count - first).toNat = count := by omega
  rw [daysBetween, daysBetween, places, before, Finset.sum_range_succ]

private theorem daysBetween_pred {first last : Int} (forwards : first < last) :
    daysBetween first last = yearDays first + daysBetween (first + 1) last := by
  obtain ⟨count, rfl⟩ := Int.lt.dest forwards
  have places : (first + (count + 1 : Nat) - first).toNat = count + 1 := by omega
  have after : (first + (count + 1 : Nat) - (first + 1)).toNat = count := by omega
  rw [daysBetween, daysBetween, places, after, Finset.sum_range_succ', add_comm]
  simp only [Nat.cast_zero, add_zero, Nat.cast_succ, add_assoc, add_comm (1 : Int)]

private theorem isLeapYear_iff (year : Int) : isLeapYear year = true ↔ Leap year := by
  simp only [isLeapYear, Leap, Bool.and_eq_true, Bool.or_eq_true, beq_iff_eq, bne_iff_ne, ne_eq]
  omega

private theorem yearLength_eq (year : Int) : (yearLength year : Int) = yearDays year := by
  rw [yearLength, yearDays]
  simp only [isLeapYear_iff]
  split <;> rfl

private theorem countedYears_succ (year : Int) :
    countedYears (year + 1) = countedYears year + yearDays year := by
  rw [countedYears, countedYears]
  rcases le_or_gt 1970 year with later | earlier
  · rw [daysBetween_succ later, daysBetween_of_le later,
      daysBetween_of_le (show (1970 : Int) ≤ year + 1 by omega)]
    ring
  · rw [daysBetween_pred earlier, daysBetween_of_le earlier.le,
      daysBetween_of_le (show year + 1 ≤ 1970 by omega)]
    ring

/-- The closed form of the days before a year is the count. -/
theorem daysBeforeYear_eq (year : Int) : daysBeforeYear year = countedYears year := by
  have start : daysBeforeYear 1970 = countedYears 1970 := by
    simp [daysBeforeYear, countedYears]
  rcases le_total 1970 year with later | earlier
  · induction year, later using Int.leInduction with
    | base => exact start
    | succ year _ inductionHypothesis =>
        rw [daysBeforeYear_succ, countedYears_succ, yearLength_eq, inductionHypothesis]
  · induction year, earlier using Int.leInductionDown with
    | base => exact start
    | pred year _ inductionHypothesis =>
        have closed := daysBeforeYear_succ (year - 1)
        have counted := countedYears_succ (year - 1)
        rw [sub_add_cancel] at closed counted
        rw [yearLength_eq] at closed
        omega

/-- The days of the months before one of the twelve. -/
theorem daysBeforeMonth_eq
    (year : Int)
    {month : Nat}
    (first : 1 ≤ month)
    (last : month ≤ 12) :
    (daysBeforeMonth year month : Int) = ∑ before ∈ Finset.Ico 1 month, monthDays year before := by
  simp only [daysBeforeMonth, monthLengths, isLeapYear_iff]
  interval_cases month <;>
    simp [Finset.sum_Ico_succ_top, monthDays] <;>
    split <;> rfl

end Calendar

namespace Date

open Calendar

/-- The days from 1 January 1970 to a date, negative before it: whole years, then the months of its
own year, then the days of its own month. -/
def countedDays (date : Date) : Int :=
  countedYears date.year + ∑ month ∈ Finset.Ico 1 date.month, monthDays date.year month +
    ((date.day : Int) - 1)

/-- Whether there is such a date. -/
def OnCalendar (date : Date) : Prop :=
  (1 ≤ date.month ∧ date.month ≤ 12) ∧ 1 ≤ date.day ∧ date.day ≤ monthDays date.year date.month

instance (date : Date) : Decidable date.OnCalendar :=
  inferInstanceAs (Decidable (_ ∧ _))

theorem isValid_iff (date : Date) : date.isValid = true ↔ date.OnCalendar := by
  obtain ⟨year, month, day⟩ := date
  simp only [isValid, OnCalendar, Bool.and_eq_true, decide_eq_true_eq, and_assoc]
  refine and_congr_right fun first => and_congr_right fun last => and_congr_right fun _ => ?_
  simp only [monthLengths, isLeapYear_iff]
  interval_cases month <;> simp [monthDays]
  split <;> omega

theorem day_le {date : Date} (onCalendar : date.OnCalendar) : date.day ≤ 31 := by
  obtain ⟨-, -, last⟩ := onCalendar
  have longest : monthDays date.year date.month ≤ 31 := by
    rw [monthDays]
    split_ifs <;> decide
  omega

/-- The number of a date is at most a year from that of the start of its year. -/
theorem dayNumber_bounds {date : Date} (onCalendar : date.OnCalendar) :
    daysBeforeYear date.year ≤ date.dayNumber ∧
      date.dayNumber ≤ daysBeforeYear date.year + 366 := by
  have day := day_le onCalendar
  obtain ⟨⟨first, last⟩, start, -⟩ := onCalendar
  have month : daysBeforeMonth date.year date.month ≤ 335 := by
    simp only [daysBeforeMonth, monthLengths]
    interval_cases date.month <;> simp
    all_goals split <;> decide
  rw [dayNumber]
  omega

/-- The number of a date is the count. -/
theorem dayNumber_eq_countedDays
    {date : Date}
    (onCalendar : date.OnCalendar) :
    date.dayNumber = date.countedDays := by
  rw [dayNumber, countedDays, daysBeforeYear_eq,
    daysBeforeMonth_eq _ onCalendar.1.1 onCalendar.1.2]

end Date

end RunManifest
