import Mathlib
import RunManifest.Calendar

/-!
Contract: days and dates correspond.

Owns:
- `Calendar.yearOfDay_spec`, a day lies between the first days of its year and of the next;
- `Calendar.monthAndDay_spec`, an offset into a year lies in the month that it is said to lie in;
- `Date.dayNumber_ofDayNumber` and `Date.isValid_ofDayNumber`, the date of a day exists and is the
  date of that day.
-/

set_option autoImplicit false

namespace RunManifest

namespace Calendar

/-- The length of a year. -/
def yearLength (year : Int) : Nat :=
  if isLeapYear year then 366 else 365

theorem daysBeforeYear_succ (year : Int) :
    daysBeforeYear (year + 1) = daysBeforeYear year + yearLength year := by
  simp only [daysBeforeYear, yearLength, isLeapYear, Bool.and_eq_true, Bool.or_eq_true,
    beq_iff_eq, bne_iff_ne, ne_eq]
  split <;> omega

/-- A day lies in its year: the guess is at most one year off, so one correction is enough. -/
theorem yearOfDay_spec (day : Int) :
    daysBeforeYear (yearOfDay day) ≤ day ∧ day < daysBeforeYear (yearOfDay day + 1) := by
  rw [yearOfDay]
  split_ifs with below above <;> simp only [daysBeforeYear] at * <;> omega

private theorem foldr_monthLengths (year : Int) :
    (monthLengths year).foldr Nat.add 0 = yearLength year := by
  simp only [monthLengths, yearLength]
  split <;> rfl

/-- An offset into consecutive months lies in the month that it is said to lie in. -/
theorem monthAndDay_spec
    (lengths : List Nat)
    (month offset : Nat)
    (inside : offset < lengths.foldr Nat.add 0) :
    ∃ index, index < lengths.length ∧ (monthAndDay month lengths offset).1 = month + index ∧
      1 ≤ (monthAndDay month lengths offset).2 ∧
      (monthAndDay month lengths offset).2 ≤ lengths.getD index 0 ∧
      offset + 1 =
        (lengths.take index).foldr Nat.add 0 + (monthAndDay month lengths offset).2 := by
  induction lengths generalizing month offset with
  | nil => simp at inside
  | cons length rest inductionHypothesis =>
      rw [monthAndDay]
      split
      · rename_i here
        exact ⟨0, by simp, rfl, by simp, by simp; omega, by simp⟩
      · rename_i later
        simp only [List.foldr_cons, Nat.add_eq] at inside
        obtain ⟨index, bound, isMonth, positive, fits, position⟩ :=
          inductionHypothesis (month + 1) (offset - length) (by omega)
        refine ⟨index + 1, by simpa using bound, by omega, positive, by simpa using fits, ?_⟩
        simp only [List.take_succ_cons, List.foldr_cons, Nat.add_eq]
        omega

end Calendar

namespace Date

open Calendar

/-- The year of a day, and where in the year its month and its day lie. -/
theorem ofDayNumber_spec (day : Int) :
    (ofDayNumber day).year = yearOfDay day ∧
      ∃ index, index < 12 ∧ (ofDayNumber day).month = index + 1 ∧ 1 ≤ (ofDayNumber day).day ∧
        (ofDayNumber day).day ≤ (monthLengths (yearOfDay day)).getD index 0 ∧
        (day - daysBeforeYear (yearOfDay day)).toNat + 1 =
          ((monthLengths (yearOfDay day)).take index).foldr Nat.add 0 + (ofDayNumber day).day := by
  obtain ⟨after, before⟩ := yearOfDay_spec day
  rw [daysBeforeYear_succ] at before
  obtain ⟨index, bound, isMonth, positive, fits, position⟩ :=
    monthAndDay_spec (monthLengths (yearOfDay day)) 1
      (day - daysBeforeYear (yearOfDay day)).toNat (by rw [foldr_monthLengths]; omega)
  exact ⟨rfl, index, bound, by rw [← Nat.add_comm 1]; exact isMonth, positive, fits, position⟩

/-- The date of a day exists. -/
theorem isValid_ofDayNumber (day : Int) : (ofDayNumber day).isValid = true := by
  obtain ⟨isYear, index, bound, isMonth, positive, fits, -⟩ := ofDayNumber_spec day
  simp only [isValid, isYear, isMonth, Nat.add_sub_cancel, Bool.and_eq_true, decide_eq_true_eq]
  exact ⟨⟨⟨by omega, by omega⟩, positive⟩, fits⟩

/-- The date of a day is a date of that day. -/
@[simp] theorem dayNumber_ofDayNumber (day : Int) : (ofDayNumber day).dayNumber = day := by
  obtain ⟨isYear, index, -, isMonth, positive, -, position⟩ := ofDayNumber_spec day
  have after := (yearOfDay_spec day).1
  simp only [dayNumber, isYear, isMonth, daysBeforeMonth, Nat.add_sub_cancel]
  omega

theorem month_ofDayNumber (day : Int) :
    1 ≤ (ofDayNumber day).month ∧ (ofDayNumber day).month ≤ 12 := by
  obtain ⟨-, index, bound, isMonth, -⟩ := ofDayNumber_spec day
  omega

theorem day_ofDayNumber (day : Int) : 1 ≤ (ofDayNumber day).day ∧ (ofDayNumber day).day ≤ 31 := by
  obtain ⟨-, index, bound, -, positive, fits, -⟩ := ofDayNumber_spec day
  refine ⟨positive, fits.trans ?_⟩
  simp only [monthLengths]
  interval_cases index <;> simp
  split <;> omega

end Date

end RunManifest
