import Mathlib.Order.Lattice
import Mathlib.Logic.Function.Iterate

/-!
# The Gregorian calendar

A date carries that its month is one of the year and its day one of the month. The calendar is
given by what the day after a date is (`Date.tomorrow`); the number of a day counts the days of the
years and of the months before it (`Date.dayNumber`).

* `dayNumber_tomorrow`: the day after a date has the next number;
* `dayNumber_lt`: an earlier date has the smaller number, so a number belongs to one date;
* **`eq_dateAfter`**: the date with the number `n` above that of `d` is the `n`-th day after `d`;
* `daysBeforeYear_eq`: the days before a year, in closed form.
-/

namespace QcloudIot.Lib

def isLeap (year : Nat) : Bool := year % 4 = 0 ∧ (year % 100 ≠ 0 ∨ year % 400 = 0)

def daysInYear (year : Nat) : Nat := if isLeap year then 366 else 365

def daysInMonth (year : Nat) : Nat → Nat
  | 2 => if isLeap year then 29 else 28
  | 4 | 6 | 9 | 11 => 30
  | _ => 31

@[ext]
structure Date where
  year : Nat
  month : Nat
  day : Nat
  month_pos : 1 ≤ month
  month_le : month ≤ 12
  day_pos : 1 ≤ day
  day_le : day ≤ daysInMonth year month

theorem daysInMonth_pos (year month : Nat) : 1 ≤ daysInMonth year month := by
  unfold daysInMonth
  split
  · split <;> omega
  all_goals omega

namespace Date

/-- The day after a date. -/
def tomorrow (d : Date) : Date :=
  if h : d.day < daysInMonth d.year d.month then
    ⟨d.year, d.month, d.day + 1, d.month_pos, d.month_le, by omega, h⟩
  else if h : d.month < 12 then
    ⟨d.year, d.month + 1, 1, by omega, h, le_refl 1, daysInMonth_pos _ _⟩
  else
    ⟨d.year + 1, 1, 1, le_refl 1, by omega, le_refl 1, daysInMonth_pos _ _⟩

/-- The date `n` days after `d`. -/
def dateAfter (d : Date) (n : Nat) : Date := tomorrow^[n] d

end Date

/-! ## Counting the days -/

/-- The days of the years before one, from the year zero on. -/
def daysBeforeYear : Nat → Nat
  | 0 => 0
  | year + 1 => daysBeforeYear year + daysInYear year

/-- The days of the months of a year before one. -/
def daysBeforeMonth (year : Nat) : Nat → Nat
  | 0 | 1 => 0
  | month + 2 => daysBeforeMonth year (month + 1) + daysInMonth year (month + 1)

/-- The days before a date, from the first of the year zero on. -/
def Date.dayNumber (d : Date) : Nat :=
  daysBeforeYear d.year + daysBeforeMonth d.year d.month + (d.day - 1)

theorem daysBeforeMonth_succ (year : Nat) {month : Nat} (h : 1 ≤ month) :
    daysBeforeMonth year (month + 1) = daysBeforeMonth year month + daysInMonth year month := by
  obtain ⟨month, rfl⟩ := Nat.exists_eq_succ_of_ne_zero (n := month) (by omega)
  rfl

theorem daysBeforeMonth_mono (year : Nat) {m m' : Nat} (h : m ≤ m') :
    daysBeforeMonth year m ≤ daysBeforeMonth year m' := by
  induction h with
  | refl => exact le_rfl
  | @step k _ ih =>
    refine ih.trans ?_
    cases k with
    | zero => exact le_rfl
    | succ k => exact Nat.le_add_right _ _

/-- The months make the year. -/
theorem daysBeforeMonth_thirteen (year : Nat) : daysBeforeMonth year 13 = daysInYear year := by
  unfold daysInYear
  cases h : isLeap year <;> simp [daysBeforeMonth, daysInMonth, h]

theorem daysBeforeYear_mono {y y' : Nat} (h : y ≤ y') : daysBeforeYear y ≤ daysBeforeYear y' := by
  induction h with
  | refl => exact le_rfl
  | step _ ih => exact ih.trans (Nat.le_add_right _ _)

/-- The days before a year: one more every four years, but for three in four hundred. -/
theorem daysBeforeYear_eq (year : Nat) :
    daysBeforeYear year + (year + 99) / 100 = 365 * year + (year + 3) / 4 + (year + 399) / 400 := by
  induction year with
  | zero => rfl
  | succ year ih =>
    have hyear : daysInYear year = 365 +
        if year % 4 = 0 ∧ (year % 100 ≠ 0 ∨ year % 400 = 0) then 1 else 0 := by
      unfold daysInYear isLeap
      split <;> simp_all
    rw [daysBeforeYear, hyear]
    split <;> omega

/-! ## One number, one date -/

namespace Date

theorem dayNumber_tomorrow (d : Date) : d.tomorrow.dayNumber = d.dayNumber + 1 := by
  have hpos := d.day_pos
  have hle := d.day_le
  unfold tomorrow
  split
  · simp only [dayNumber]
    omega
  rename_i hday
  split
  · simp only [dayNumber, daysBeforeMonth_succ d.year d.month_pos]
    omega
  · have hmonth : d.month + 1 = 13 := by have := d.month_le; omega
    have hyear : daysBeforeMonth d.year d.month + daysInMonth d.year d.month = daysInYear d.year := by
      rw [← daysBeforeMonth_succ d.year d.month_pos, hmonth, daysBeforeMonth_thirteen]
    simp only [dayNumber, daysBeforeYear, daysBeforeMonth]
    omega

theorem dayNumber_dateAfter (d : Date) (n : Nat) : (d.dateAfter n).dayNumber = d.dayNumber + n := by
  induction n with
  | zero => rfl
  | succ n ih =>
    rw [dateAfter, Function.iterate_succ_apply', dayNumber_tomorrow, ← dateAfter, ih, Nat.add_assoc]

/-- A date is earlier than another one. -/
def Before (d d' : Date) : Prop :=
  d.year < d'.year ∨
    (d.year = d'.year ∧ (d.month < d'.month ∨ (d.month = d'.month ∧ d.day < d'.day)))

/-- The days of a date's year up to it are days of the months up to its own. -/
theorem day_in_month (d : Date) :
    daysBeforeMonth d.year d.month + (d.day - 1) < daysBeforeMonth d.year (d.month + 1) := by
  have hpos := d.day_pos
  have hle := d.day_le
  rw [daysBeforeMonth_succ d.year d.month_pos]
  omega

theorem dayNumber_lt {d d' : Date} (h : d.Before d') : d.dayNumber < d'.dayNumber := by
  have hday := d.day_in_month
  unfold dayNumber
  obtain hyear | ⟨hyear, hmonth | ⟨hmonth, hday'⟩⟩ := h
  · have hmonths : daysBeforeMonth d.year (d.month + 1) ≤ daysInYear d.year := by
      rw [← daysBeforeMonth_thirteen]
      exact daysBeforeMonth_mono _ (Nat.succ_le_succ d.month_le)
    have hyears : daysBeforeYear d.year + daysInYear d.year ≤ daysBeforeYear d'.year :=
      daysBeforeYear_mono (Nat.succ_le_of_lt hyear)
    omega
  · have hmonths : daysBeforeMonth d.year (d.month + 1) ≤ daysBeforeMonth d.year d'.month :=
      daysBeforeMonth_mono d.year hmonth
    rw [← hyear]
    omega
  · have hpos := d.day_pos
    rw [← hyear, ← hmonth]
    omega

theorem before_or (d d' : Date) : d.Before d' ∨ d = d' ∨ d'.Before d := by
  rw [Date.ext_iff, Before, Before]
  omega

theorem dayNumber_injective {d d' : Date} (h : d.dayNumber = d'.dayNumber) : d = d' := by
  obtain hlt | heq | hgt := before_or d d'
  · exact absurd h (dayNumber_lt hlt).ne
  · exact heq
  · exact absurd h (dayNumber_lt hgt).ne'

/-- **The date with a number** is found by going on from day to day. -/
theorem eq_dateAfter {d d' : Date} {n : Nat} (h : d'.dayNumber = d.dayNumber + n) :
    d' = d.dateAfter n :=
  dayNumber_injective (h.trans (dayNumber_dateAfter d n).symm)

/-- The days go on strictly. -/
theorem before_of_dayNumber_lt {d d' : Date} (h : d.dayNumber < d'.dayNumber) : d.Before d' := by
  obtain hlt | heq | hgt := before_or d d'
  · exact hlt
  · exact absurd (congrArg dayNumber heq) h.ne
  · exact absurd (dayNumber_lt hgt) (by omega)

end Date

end QcloudIot.Lib
