import Mathlib.Tactic

/-!
# The proleptic Gregorian calendar

Dates with the day that follows each, and the numbering of days that has the first of January 1970 as
number zero.
-/

namespace Gregorian

/-- A year of 366 days. -/
def IsLeap (year : ℤ) : Prop := 4 ∣ year ∧ (¬ 100 ∣ year ∨ 400 ∣ year)

instance (year : ℤ) : Decidable (IsLeap year) := inferInstanceAs (Decidable (_ ∧ _))

/-- The number of days of a month, where January is month zero. -/
def monthLength (year : ℤ) (month : ℕ) : ℤ :=
  if month = 1 then if IsLeap year then 29 else 28
  else if month = 3 ∨ month = 5 ∨ month = 8 ∨ month = 10 then 30
  else 31

lemma monthLength_pos (year : ℤ) (month : ℕ) : 28 ≤ monthLength year month := by
  unfold monthLength
  omega

@[ext]
structure Date where
  year : ℤ
  month : ℕ
  date : ℤ
  month_lt : month < 12
  one_le : 1 ≤ date
  le_length : date ≤ monthLength year month

namespace Date

/-- The first day of a month. -/
def first (year : ℤ) (month : ℕ) (h : month < 12) : Date :=
  ⟨year, month, 1, h, le_rfl, le_trans (by omega) (monthLength_pos year month)⟩

def next (d : Date) : Date :=
  if h : d.date < monthLength d.year d.month then
    ⟨d.year, d.month, d.date + 1, d.month_lt, by have := d.one_le; omega, by omega⟩
  else if h : d.month + 1 < 12 then first d.year (d.month + 1) h
  else first (d.year + 1) 0 (by omega)

def epoch : Date := first 1970 0 (by omega)

end Date

/-- A numbering of the days by the integers. -/
structure IsCalendar (civil : ℤ → Date) : Prop where
  zero : civil 0 = Date.epoch
  succ : ∀ n, civil (n + 1) = (civil n).next

end Gregorian
