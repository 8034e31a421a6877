import Mathlib.Data.Nat.Notation
import Mathlib.Tactic.Common

/-!
# The Gregorian calendar

A `Date` is a day of the calendar, valid by its fields. `Date.next` is the day after it, with the
carry into the next month and the next year, and `Date.ofDay n` is the day `n` days after the first
of January 1970. A later day is a later date (`Date.ofDay_before`).
-/

set_option autoImplicit false

namespace Tmuduo

/-- Every fourth year, except the centuries that 400 does not divide. -/
def isLeapYear (year : ℕ) : Bool :=
  year % 4 = 0 && (year % 100 ≠ 0 || year % 400 = 0)

def daysInMonth (year : ℕ) : ℕ → ℕ
  | 2 => if isLeapYear year then 29 else 28
  | 4 | 6 | 9 | 11 => 30
  | _ => 31

theorem daysInMonth_pos (year month : ℕ) : 0 < daysInMonth year month := by
  unfold daysInMonth
  split
  · split_ifs <;> decide
  all_goals decide

theorem daysInMonth_le (year month : ℕ) : daysInMonth year month ≤ 31 := by
  unfold daysInMonth
  split
  · split_ifs <;> decide
  all_goals decide

/-- A day of the calendar. -/
structure Date where
  year : ℕ
  month : ℕ
  day : ℕ
  month_pos : 0 < month
  month_le : month ≤ 12
  day_pos : 0 < day
  day_le : day ≤ daysInMonth year month
  deriving DecidableEq, Repr

namespace Date

/-- The first of January 1970. -/
def epoch : Date := ⟨1970, 1, 1, by decide, by decide, by decide, by decide⟩

/-- The next day. -/
def next (d : Date) : Date :=
  if hday : d.day < daysInMonth d.year d.month then
    { d with day := d.day + 1, day_pos := Nat.succ_pos _, day_le := hday }
  else if hmonth : d.month < 12 then
    ⟨d.year, d.month + 1, 1, Nat.succ_pos _, hmonth, Nat.one_pos, daysInMonth_pos _ _⟩
  else ⟨d.year + 1, 1, 1, Nat.one_pos, by decide, Nat.one_pos, daysInMonth_pos _ _⟩

/-- The day `n` days after the epoch. -/
def ofDay : ℕ → Date
  | 0 => epoch
  | n + 1 => (ofDay n).next

/-- The first leap day after the epoch. -/
example : ((ofDay 789).year, (ofDay 789).month, (ofDay 789).day) = (1972, 2, 29) := by
  decide +kernel

/-- The years, months and days in the order of the calendar. -/
def Before (d e : Date) : Prop :=
  d.year < e.year ∨ d.year = e.year ∧ (d.month < e.month ∨ d.month = e.month ∧ d.day < e.day)

variable {d e f : Date}

theorem Before.trans (hde : d.Before e) (hef : e.Before f) : d.Before f := by
  unfold Before at *
  omega

theorem before_next (d : Date) : d.Before d.next := by
  unfold Before next
  split_ifs
  · exact Or.inr ⟨rfl, Or.inr ⟨rfl, Nat.lt_succ_self _⟩⟩
  · exact Or.inr ⟨rfl, Or.inl (Nat.lt_succ_self _)⟩
  · exact Or.inl (Nat.lt_succ_self _)

theorem ofDay_before {m n : ℕ} (h : m < n) : (ofDay m).Before (ofDay n) := by
  induction n with
  | zero => exact absurd h (Nat.not_lt_zero m)
  | succ n ih =>
    rcases Nat.eq_or_lt_of_le (Nat.le_of_lt_succ h) with rfl | hlt
    · exact before_next _
    · exact (ih hlt).trans (before_next _)

theorem year_ofDay (n : ℕ) : 1970 ≤ (ofDay n).year := by
  rcases Nat.eq_zero_or_pos n with rfl | hpos
  · exact Nat.le_refl _
  · have hbefore := ofDay_before hpos
    unfold Before at hbefore
    change 1970 < _ ∨ 1970 = _ ∧ _ at hbefore
    omega

end Date

end Tmuduo
