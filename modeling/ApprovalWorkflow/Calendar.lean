/-!
# Calendar dates

Dates of the Gregorian calendar, extended to all years. Days are counted from 1970-01-01, and
the year of a day is found from the number of days before each year: `daysBeforeYear_le` and
`lt_daysBeforeYear_succ` say that the day lies in the year that is found.
-/

set_option autoImplicit false

namespace ApprovalWorkflow

-- sums begin with the zero of the core library, whatever else is imported
attribute [local instance (2000)] Zero.ofOfNat0

/-- A date. -/
structure Date where
  year : Int
  month : Nat
  day : Nat
deriving DecidableEq, Repr

namespace Date

/-- Every fourth year has a leap day, but of the full centuries only every fourth. -/
def isLeapYear (year : Int) : Bool :=
  year % 4 == 0 && (year % 100 != 0 || year % 400 == 0)

/-- The lengths of the months. -/
def monthLengths (year : Int) : List Nat :=
  [31, if isLeapYear year then 29 else 28, 31, 30, 31, 30, 31, 31, 30, 31, 30, 31]

/-- The number of days from the first day of the year 1 to the first day of a year. -/
def daysBeforeYear (year : Int) : Int :=
  365 * (year - 1) + (year - 1) / 4 - (year - 1) / 100 + (year - 1) / 400

/-- The first day of 1970, counted from the first day of the year 1. -/
def epoch : Int := 719162

/-- The year in which a day lies, counted from the first day of the year 1. -/
def yearOf (days : Int) : Int :=
  let guess := days * 400 / 146097 + 1
  if days < daysBeforeYear guess then guess - 1
  else if daysBeforeYear (guess + 1) ≤ days then guess + 1
  else guess

/-- The month and the day of the month, from the lengths of the months that are left. -/
def monthOf : List Nat → Nat → Nat → Nat × Nat
  | [], month, rest => (month, rest + 1)
  | length :: lengths, month, rest =>
    if rest < length then (month, rest + 1) else monthOf lengths (month + 1) (rest - length)

/-- The date of a day. -/
def ofDays (days : Int) : Date :=
  let days := days + epoch
  let year := yearOf days
  let (month, day) := monthOf (monthLengths year) 1 (days - daysBeforeYear year).toNat
  ⟨year, month, day⟩

/-- The day of a date. -/
def toDays (d : Date) : Int :=
  daysBeforeYear d.year + ((monthLengths d.year).take (d.month - 1)).sum + (d.day - 1) - epoch

/-- Whether the calendar has the date. -/
def isValid (d : Date) : Bool :=
  1 ≤ d.month && d.month ≤ 12 && 1 ≤ d.day
    && d.day ≤ (monthLengths d.year).getD (d.month - 1) 0

/-- The three ways in which the year of a day is found. -/
theorem yearOf_cases (days : Int) :
    let guess := days * 400 / 146097 + 1
    days < daysBeforeYear guess ∧ yearOf days = guess - 1
      ∨ daysBeforeYear guess ≤ days ∧ daysBeforeYear (guess + 1) ≤ days
        ∧ yearOf days = guess + 1
      ∨ daysBeforeYear guess ≤ days ∧ days < daysBeforeYear (guess + 1)
        ∧ yearOf days = guess := by
  intro guess
  by_cases h : days < daysBeforeYear guess
  · exact .inl ⟨h, by simp only [yearOf]; rw [if_pos h]⟩
  · by_cases h' : daysBeforeYear (guess + 1) ≤ days
    · exact .inr (.inl ⟨by omega, h', by simp only [yearOf]; rw [if_neg h, if_pos h']⟩)
    · exact .inr (.inr ⟨by omega, by omega, by simp only [yearOf]; rw [if_neg h, if_neg h']⟩)

/-- A day does not lie before the year that is found for it. -/
theorem daysBeforeYear_le (days : Int) : daysBeforeYear (yearOf days) ≤ days := by
  rcases yearOf_cases days with ⟨_, hy⟩ | ⟨_, _, hy⟩ | ⟨_, _, hy⟩ <;> rw [hy] <;>
    simp only [daysBeforeYear] at * <;> omega

/-- A day lies before the year after the one that is found for it. -/
theorem lt_daysBeforeYear_succ (days : Int) : days < daysBeforeYear (yearOf days + 1) := by
  rcases yearOf_cases days with ⟨_, hy⟩ | ⟨_, _, hy⟩ | ⟨_, _, hy⟩ <;> rw [hy] <;>
    simp only [daysBeforeYear] at * <;> omega

end Date

end ApprovalWorkflow
