import Mathlib.Data.List.Lex
import Mathlib.Tactic.IntervalCases
import QcloudIot.Lib.Calendar

/-!
# From a timestamp to a date

`timestamp_to_date` adds the time zone to the minutes, as a `size_t`, and finds the year by taking
the leap days out of the number of the day: in the shortened count every year has 365 days. The
31st of December of a leap year, which the shortened count has no room for, is met before, and the
29th of February before the walk over the months.

* `monthLoop_spec`: the month a day of the year is in;
* `dateOfDays_number`: up to the 28th of February 2100 the date written has the number of the day;
* **`timestampToDate_gregorian`**: it is the date of the Gregorian calendar, and a later timestamp
  gives a later date and time.
-/

namespace QcloudIot.Utils

open Lib

/-- `RTC_DATE_TIME`. -/
structure RtcDateTime where
  year : Int
  month : Int
  day : Int
  hour : Int
  minute : Int
  sec : Int
  ms : Int
  deriving Repr, DecidableEq

def sgDayNum : List Int := [31, 28, 31, 30, 31, 30, 31, 31, 30, 31, 30, 31]

/-- The loop over the months, from `month_index` on; `none` behind the end of the table. -/
def monthLoop : List Int → Int → Int → Option (Int × Int)
  | [], _, _ => none
  | days :: rest, monthIndex, dayNum =>
    if days < dayNum then monthLoop rest (monthIndex + 1) (dayNum - days)
    else some (monthIndex, dayNum)

/-- The month and the day, from the number of the day in the shortened year. -/
def dateInYear (year dayNum : Int) : Option (Int × Int × Int) :=
  if year.tmod 4 = 0 ∧ dayNum = 60 then
    some (year, 2, 29)
  else
    let dayNum := if year.tmod 4 = 0 ∧ dayNum > 60 then dayNum - 1 else dayNum
    (monthLoop sgDayNum 0 dayNum).map fun (monthIndex, dayNum) => (year, monthIndex + 1, dayNum)

/-- Year, month and day, as the function finds them from the number of the day. -/
def dateOfDays (dayNum : Int) : Option (Int × Int × Int) :=
  let leapNum := (dayNum + 365).tdiv 1461
  if (dayNum + 366).tmod 1461 = 0 then
    some (dayNum.tdiv 366 + 1970 - 0, 12, 31)
  else
    let dayNum := dayNum - leapNum
    dateInYear (dayNum.tdiv 365 + 1970 - 0) (dayNum.tmod 365 + 1)

/-- `timestamp_to_date`, for a `size_t` of `w` bits. -/
def timestampToDate (w : Nat) (timestampSec : Nat) (dateTime : RtcDateTime) (timeZone : Int) :
    Option RtcDateTime :=
  let dateTime := { dateTime with sec := timestampSec % 60 }
  let timestampSec := timestampSec / 60
  let dateTime := { dateTime with minute := timestampSec % 60 }
  let timestampSec := (timestampSec + (timeZone % 2 ^ w).toNat * 60) % 2 ^ w
  let timestampSec := timestampSec / 60
  let dateTime := { dateTime with hour := timestampSec % 24 }
  let dayNum := Int.bmod (timestampSec / 24 : Nat) (2 ^ 32)
  (dateOfDays dayNum).map fun (year, month, day) =>
    { dateTime with year := year, month := month, day := day }

/-! ## The month of a day -/

/-- **The walk over the months** ends in the one the day is in. -/
theorem monthLoop_spec (days : List Int) (i : Int) {dayNum : Int} (hpos : 0 < dayNum)
    (hle : dayNum ≤ days.sum) : ∃ j < days.length, ∃ day,
      monthLoop days i dayNum = some (i + j, day) ∧ (days.take j).sum + day = dayNum ∧
        0 < day ∧ dayNum ≤ (days.take (j + 1)).sum := by
  induction days generalizing i dayNum with
  | nil => simp only [List.sum_nil] at hle; omega
  | cons len rest ih =>
    rw [List.sum_cons] at hle
    rw [monthLoop]
    split
    · rename_i hlt
      obtain ⟨j, hj, day, hloop, hsum, hday, hnext⟩ :=
        ih (i + 1) (by omega : 0 < dayNum - len) (by omega)
      refine ⟨j + 1, Nat.succ_lt_succ hj, day, ?_, ?_, hday, ?_⟩
      · rw [hloop]
        push_cast
        rw [add_assoc i, add_comm 1]
      · rw [List.take_succ_cons, List.sum_cons]
        omega
      · rw [List.take_succ_cons, List.sum_cons]
        omega
    · rename_i hge
      refine ⟨0, Nat.zero_lt_succ _, dayNum, by simp, by simp, hpos, ?_⟩
      rw [List.take_succ_cons, List.sum_cons, List.take_zero, List.sum_nil]
      omega

/-- What a leap day adds to the days before the month after the `j`-th. -/
theorem daysBeforeMonth_table (year : Nat) {j : Nat} (h : j ≤ 12) :
    (daysBeforeMonth year (j + 1) : Int) =
      (sgDayNum.take j).sum + if isLeap year ∧ 2 ≤ j then 1 else 0 := by
  cases hleap : isLeap year <;> interval_cases j <;>
    simp [daysBeforeMonth, daysInMonth, sgDayNum, hleap]

/-- The day the walk ends with, as a date: the days before it are told by the table. -/
theorem date_of_walk (year : Nat) {j : Nat} {day : Int} (hj : j < 12) (hpos : 0 < day)
    (hle : (sgDayNum.take j).sum + day ≤ (sgDayNum.take (j + 1)).sum) :
    ∃ d : Date, d.year = year ∧ (d.month : Int) = j + 1 ∧ (d.day : Int) = day ∧
      (d.dayNumber : Int) = daysBeforeYear year + ((sgDayNum.take j).sum + day - 1) +
        if isLeap year ∧ 2 ≤ j then 1 else 0 := by
  have hbefore := daysBeforeMonth_table year hj.le
  have hthis := daysBeforeMonth_table year (j := j + 1) hj
  have hsucc : daysBeforeMonth year (j + 1 + 1) = daysBeforeMonth year (j + 1) + daysInMonth year (j + 1) :=
    daysBeforeMonth_succ year (by omega)
  have hday : day.toNat ≤ daysInMonth year (j + 1) := by
    cases hleap : isLeap year <;> simp only [hleap, true_and, false_and, reduceCtorEq] at hbefore hthis <;>
      omega
  refine ⟨⟨year, j + 1, day.toNat, by omega, hj, by omega, hday⟩, rfl, by simp, by simp; omega, ?_⟩
  simp only [Date.dayNumber]
  omega

/-! ## The date of a day -/

theorem epoch_day : 1 ≤ daysInMonth 1970 1 := daysInMonth_pos 1970 1

theorem epoch_first : 1 ≤ 1 := Nat.le_refl 1

theorem epoch_month : 1 ≤ 12 := by decide

/-- The day timestamps are counted from. -/
def epoch : Date := ⟨1970, 1, 1, epoch_first, epoch_month, epoch_first, epoch_day⟩

theorem last_day : 28 ≤ daysInMonth 2100 2 := by decide

/-- The last day before the function takes the year 2100 for a leap year. -/
def lastDate : Date := ⟨2100, 2, 28, by omega, by omega, by omega, last_day⟩

theorem epoch_dayNumber : epoch.dayNumber = 719528 := by
  have h := daysBeforeYear_eq 1970
  have hday : epoch.dayNumber = daysBeforeYear 1970 := by
    simp only [Date.dayNumber, epoch, daysBeforeMonth, Nat.add_zero, Nat.sub_self]
  omega

theorem lastDate_dayNumber : lastDate.dayNumber = epoch.dayNumber + 47540 := by
  have h := daysBeforeYear_eq 2100
  have hday : lastDate.dayNumber = daysBeforeYear 2100 + 58 := by
    simp only [Date.dayNumber, lastDate, daysBeforeMonth, daysInMonth, Nat.zero_add, Nat.add_assoc]
  rw [epoch_dayNumber]
  omega

/-- The years `dateOfDays` takes for leap years, where they are none of the calendar's. -/
theorem isLeap_iff {year : Nat} (h : 1970 ≤ year) (h' : year < 2100) :
    isLeap year ↔ year % 4 = 0 := by
  simp only [isLeap, decide_eq_true_eq]
  omega

/-- The centuries before one of these years: fifteen of them have no leap day. -/
theorem daysBeforeYear_since (year : Nat) (h : 1970 ≤ year) (h' : year ≤ 2100) :
    daysBeforeYear year + 15 = 365 * year + (year + 3) / 4 := by
  have hyears := daysBeforeYear_eq year
  have hcenturies : (year + 99) / 100 = (year + 399) / 400 + 15 := by
    obtain h2000 | h2000 : year ≤ 2000 ∨ 2001 ≤ year := by omega
    · omega
    · omega
  omega

theorem december (year : Nat) : 31 ≤ daysInMonth year 12 := le_rfl

/-- The day before the year after. -/
theorem endOfYear (year : Nat) : ∃ d : Date, d.year = year ∧ d.month = 12 ∧ d.day = 31 ∧
    d.dayNumber + 1 = daysBeforeYear (year + 1) := by
  refine ⟨⟨year, 12, 31, by omega, le_rfl, by omega, december year⟩, rfl, rfl, rfl, ?_⟩
  have h := daysBeforeMonth_thirteen year
  have hsucc : daysBeforeMonth year 13 = daysBeforeMonth year 12 + daysInMonth year 12 :=
    daysBeforeMonth_succ year (by omega)
  have hdec : daysInMonth year 12 = 31 := rfl
  simp only [Date.dayNumber, daysBeforeYear]
  omega

/-- The end of February in the table. -/
theorem table_february {j : Nat} (h : j < 12) :
    (2 ≤ j → 59 ≤ (sgDayNum.take j).sum) ∧ (j < 2 → (sgDayNum.take (j + 1)).sum ≤ 59) := by
  interval_cases j <;> simp [sgDayNum]

theorem february_leap {year : Nat} (h : isLeap year) : 29 ≤ daysInMonth year 2 := by
  simp [daysInMonth, h]

/-- The day with `r` days of its year before it, the last of a leap year apart. -/
theorem dateInYear_number {year r : Nat} (hr : r < 365) (hyear : 1970 ≤ year)
    (hlast : year < 2100 ∨ (year = 2100 ∧ r < 59)) :
    ∃ d : Date, dateInYear year (r + 1) = some (↑d.year, ↑d.month, ↑d.day) ∧
      d.dayNumber = daysBeforeYear year + r := by
  have hfour : (year : Int).tmod 4 = 0 ↔ year % 4 = 0 := by
    rw [Int.tmod_eq_emod_of_nonneg (by omega)]
    omega
  have hleap : isLeap year ↔ year % 4 = 0 ∧ year < 2100 := by
    obtain h | ⟨rfl, -⟩ := hlast
    · rw [isLeap_iff hyear h, and_iff_left h]
    · decide
  -- the walk for `k`, the days up to this one less the leap day before it
  have hwalk : ∀ k : Int, 0 < k → k ≤ 365 →
      (isLeap year → 59 < k → k = r) → (isLeap year → k ≤ 59 → k = r + 1) →
      (¬ isLeap year → k = r + 1) →
      ∃ d : Date, (monthLoop sgDayNum 0 k).map
        (fun (monthIndex, dayNum) => ((year : Int), monthIndex + 1, dayNum)) =
          some (↑d.year, ↑d.month, ↑d.day) ∧ d.dayNumber = daysBeforeYear year + r := by
    intro k hpos hle hlate hearly hplain
    obtain ⟨j, hj, day, hloop, hsum, hday, hnext⟩ :=
      monthLoop_spec sgDayNum 0 hpos hle
    obtain ⟨d, hy, hm, hd, hnumber⟩ := date_of_walk year hj hday (by omega)
    refine ⟨d, by rw [hloop, hy, hm, hd]; simp, ?_⟩
    obtain ⟨htwo, hone⟩ := table_february (j := j) hj
    by_cases h : isLeap year <;> simp only [h, true_and, false_and, if_false,
      forall_const, not_true_eq_false, not_false_eq_true, Bool.false_eq_true, false_implies] at hlate hearly hplain hnumber <;> omega
  unfold dateInYear
  simp only [hfour]
  split
  · rename_i hfeb
    have h : isLeap year := hleap.mpr ⟨hfeb.1, by omega⟩
    refine ⟨⟨year, 2, 29, by omega, by omega, by omega, february_leap h⟩, rfl, ?_⟩
    simp only [Date.dayNumber, daysBeforeMonth, daysInMonth]
    omega
  · rename_i hfeb
    split
    · exact hwalk _ (by omega) (by omega) (by omega) (by omega) (by rw [hleap]; omega)
    · exact hwalk _ (by omega) (by omega) (by rw [hleap]; omega) (by omega) (by omega)

/-- **The date written** has the number of the day. -/
theorem dateOfDays_number {n : Nat} (h : epoch.dayNumber + n ≤ lastDate.dayNumber) :
    ∃ d : Date, dateOfDays n = some (↑d.year, ↑d.month, ↑d.day) ∧
      d.dayNumber = epoch.dayNumber + n := by
  rw [lastDate_dayNumber] at h
  rw [epoch_dayNumber]
  -- `1461` days are four years, the last of them a leap year; `t` is the day in these four years
  obtain ⟨l, t, ht, hn⟩ : ∃ l t, t < 1461 ∧ n + 365 = 1461 * l + t :=
    ⟨(n + 365) / 1461, (n + 365) % 1461, by omega, by omega⟩
  have hleapNum : ((n : Int) + 365).tdiv 1461 = l := by
    rw [Int.tdiv_eq_ediv_of_nonneg (by omega)]
    omega
  have hmod : ((n : Int) + 366).tmod 1461 = 0 ↔ t = 1460 := by
    rw [Int.tmod_eq_emod_of_nonneg (by omega)]
    omega
  unfold dateOfDays
  simp only [hleapNum, hmod]
  split
  · obtain ⟨d, hyear, hmonth, hday, hnumber⟩ := endOfYear (1972 + 4 * l)
    refine ⟨d, ?_, ?_⟩
    · rw [hyear, hmonth, hday, Int.tdiv_eq_ediv_of_nonneg (by omega)]
      congr 2
      omega
    · have hyears := daysBeforeYear_since (1972 + 4 * l + 1) (by omega) (by omega)
      omega
  · rename_i htlast
    obtain ⟨y, r, hr, hty, hy⟩ : ∃ y r, r < 365 ∧ t = 365 * y + r ∧ y < 4 :=
      ⟨t / 365, t % 365, by omega, by omega, by omega⟩
    -- the year has `r` days before this one
    have hdays : (n : Int) - l = 365 * (4 * l + y - 1) + r := by omega
    have hyear : ((n : Int) - l).tdiv 365 + 1970 - 0 = ((1969 + 4 * l + y : Nat) : Int) := by
      rw [Int.tdiv_eq_ediv_of_nonneg (by omega)]
      omega
    have hday : ((n : Int) - l).tmod 365 + 1 = r + 1 := by
      rw [Int.tmod_eq_emod_of_nonneg (by omega)]
      omega
    have hlast : 1969 + 4 * l + y < 2100 ∨ (1969 + 4 * l + y = 2100 ∧ r < 59) := by omega
    obtain ⟨d, hdate, hnumber⟩ := dateInYear_number hr (by omega) hlast
    rw [hyear, hday]
    refine ⟨d, hdate, ?_⟩
    have hyears := daysBeforeYear_since (1969 + 4 * l + y) (by omega) (by omega)
    omega

/-! ## The local time -/

/-- The seconds of the local time from the beginning of 1970 on. -/
def localSec (timestampSec : Nat) (timeZone : Int) : Int := timestampSec + timeZone * 3600

/-- A timestamp of 32 bits and a time zone whose local time is up to the end of `lastDate`. -/
structure InCalendar (timestampSec : Nat) (timeZone : Int) : Prop where
  timestamp : timestampSec < 2 ^ 32
  zone : -12 ≤ timeZone ∧ timeZone ≤ 14
  from_epoch : 0 ≤ localSec timestampSec timeZone
  to_last : epoch.dayNumber + localSec timestampSec timeZone / 86400 ≤ lastDate.dayNumber

/-- The date and time of the calendar, `sec` seconds after the beginning of 1970. -/
def gregorian (sec : Nat) (ms : Int) : RtcDateTime :=
  let d := epoch.dateAfter (sec / 86400)
  { year := d.year, month := d.month, day := d.day, hour := (sec % 86400 / 3600 : Nat),
    minute := (sec % 3600 / 60 : Nat), sec := (sec % 60 : Nat), ms := ms }

/-- A date and time, the greatest unit first. -/
def RtcDateTime.fields (dateTime : RtcDateTime) : List Int :=
  [dateTime.year, dateTime.month, dateTime.day, dateTime.hour, dateTime.minute, dateTime.sec]

/-- The unsigned sum of the minutes and the zone is the local time. -/
theorem zone_minutes {w timestampSec : Nat} {timeZone : Int} (hw : 32 ≤ w)
    (h : InCalendar timestampSec timeZone) :
    (timestampSec / 60 + (timeZone % 2 ^ w).toNat * 60) % 2 ^ w =
      (localSec timestampSec timeZone).toNat / 60 := by
  obtain ⟨ht, hz, hlocal, -⟩ := h
  unfold localSec at hlocal ⊢
  have hwidth : 2 ^ 32 ≤ 2 ^ w := Nat.pow_le_pow_right (by omega) hw
  have hcast : (2 : Int) ^ w = ((2 ^ w : Nat) : Int) := by push_cast; rfl
  rw [hcast]
  generalize 2 ^ w = m at hwidth ⊢
  obtain hneg | hneg : timeZone < 0 ∨ 0 ≤ timeZone := by omega
  · have hmod : (timeZone % (m : Int)).toNat + (-timeZone).toNat = m := by
      rw [← Int.add_emod_right, Int.emod_eq_of_lt (by omega) (by omega)]
      omega
    have hsum : timestampSec / 60 + (timeZone % (m : Int)).toNat * 60 =
        (timestampSec + timeZone * 3600).toNat / 60 + 60 * m := by omega
    rw [hsum, Nat.add_mul_mod_self_right, Nat.mod_eq_of_lt (by omega)]
  · rw [Int.emod_eq_of_lt hneg (by omega), Nat.mod_eq_of_lt (by omega)]
    omega

theorem InCalendar.days {timestampSec : Nat} {timeZone : Int} (h : InCalendar timestampSec timeZone) :
    (localSec timestampSec timeZone).toNat / 86400 ≤ 47540 := by
  have hlast := h.to_last
  rw [lastDate_dayNumber, epoch_dayNumber] at hlast
  omega

theorem InCalendar.of_days {timestampSec : Nat} {timeZone : Int} (ht : timestampSec < 2 ^ 32)
    (hz : -12 ≤ timeZone ∧ timeZone ≤ 14) (hlocal : 0 ≤ localSec timestampSec timeZone)
    (hdays : localSec timestampSec timeZone / 86400 ≤ 47540) : InCalendar timestampSec timeZone := by
  refine ⟨ht, hz, hlocal, ?_⟩
  rw [lastDate_dayNumber, epoch_dayNumber]
  omega

theorem toInt_day {n : Nat} (h : n ≤ 47540) : Int.bmod n (2 ^ 32) = n :=
  Int.bmod_eq_of_le (by omega) (by omega)

theorem timestampToDate_eq {w timestampSec : Nat} {timeZone : Int} (hw : 32 ≤ w)
    (h : InCalendar timestampSec timeZone) (dateTime : RtcDateTime) :
    timestampToDate w timestampSec dateTime timeZone =
      some (gregorian (localSec timestampSec timeZone).toNat dateTime.ms) := by
  have hminutes := zone_minutes hw h
  have hbound := h.days
  obtain ⟨ht, hz, hlocal, -⟩ := h
  have hdays : (localSec timestampSec timeZone).toNat / 60 / 60 / 24 =
      (localSec timestampSec timeZone).toNat / 86400 := by omega
  have hsec : timestampSec % 60 = (localSec timestampSec timeZone).toNat % 60 := by
    unfold localSec at hlocal ⊢
    omega
  have hminute : timestampSec / 60 % 60 = (localSec timestampSec timeZone).toNat % 3600 / 60 := by
    unfold localSec at hlocal ⊢
    omega
  have hhour : (localSec timestampSec timeZone).toNat / 60 / 60 % 24 =
      (localSec timestampSec timeZone).toNat % 86400 / 3600 := by omega
  have hlast : epoch.dayNumber + (localSec timestampSec timeZone).toNat / 86400 ≤
      lastDate.dayNumber := by
    rw [lastDate_dayNumber]
    exact Nat.add_le_add_left hbound _
  have hint : Int.bmod ((localSec timestampSec timeZone).toNat / 86400 : Nat) (2 ^ 32) =
      ((localSec timestampSec timeZone).toNat / 86400 : Nat) := toInt_day hbound
  obtain ⟨d, hdate, hnumber⟩ := dateOfDays_number hlast
  obtain rfl := Date.eq_dateAfter hnumber
  unfold timestampToDate gregorian
  simp only [hminutes, hdays, hint, hdate, Option.map_some]
  rw [← hsec, ← hminute, ← hhour]
  rfl

theorem gregorian_lt {sec sec' : Nat} (h : sec < sec') (ms ms' : Int) :
    (gregorian sec ms).fields < (gregorian sec' ms').fields := by
  simp only [RtcDateTime.fields, gregorian, List.cons_lt_cons_iff]
  obtain hday | hday : sec / 86400 < sec' / 86400 ∨ sec / 86400 = sec' / 86400 := by omega
  · have hbefore : (epoch.dateAfter (sec / 86400)).Before (epoch.dateAfter (sec' / 86400)) := by
      refine Date.before_of_dayNumber_lt ?_
      rw [Date.dayNumber_dateAfter, Date.dayNumber_dateAfter]
      omega
    unfold Date.Before at hbefore
    omega
  · rw [hday]
    omega

/-- **The date written** is that of the calendar, and it goes on with the timestamp. -/
theorem timestampToDate_gregorian {w timestampSec : Nat} {timeZone : Int} (hw : 32 ≤ w)
    (h : InCalendar timestampSec timeZone) (dateTime : RtcDateTime) :
    timestampToDate w timestampSec dateTime timeZone =
        some (gregorian (localSec timestampSec timeZone).toNat dateTime.ms) ∧
      ∀ later dateTime', timestampSec < later → InCalendar later timeZone →
        ∃ date date', timestampToDate w timestampSec dateTime timeZone = some date ∧
          timestampToDate w later dateTime' timeZone = some date' ∧ date.fields < date'.fields := by
  refine ⟨timestampToDate_eq hw h dateTime, ?_⟩
  intro later dateTime' hlt hlater
  refine ⟨_, _, timestampToDate_eq hw h dateTime, timestampToDate_eq hw hlater dateTime', ?_⟩
  have hlocal := h.from_epoch
  refine gregorian_lt ?_ _ _
  unfold localSec at hlocal ⊢
  omega

theorem leapDay_inCalendar : InCalendar 951753599 8 := by
  refine .of_days (by omega) (by omega) ?_ ?_ <;> norm_num [localSec]

theorem newYear_inCalendar : InCalendar 978278399 8 := by
  refine .of_days (by omega) (by omega) ?_ ?_ <;> norm_num [localSec]

/-- From the 28th of February to the 31st of December 2000, eight hours east. -/
theorem timestampToDate_gregorian_leapYear :
    timestampToDate 32 951753599 ⟨0, 0, 0, 0, 0, 0, 0⟩ 8 = some ⟨2000, 2, 28, 23, 59, 59, 0⟩ ∧
      timestampToDate 32 978278399 ⟨0, 0, 0, 0, 0, 0, 0⟩ 8 = some ⟨2000, 12, 31, 23, 59, 59, 0⟩ ∧
      ∃ date date', timestampToDate 32 951753599 ⟨0, 0, 0, 0, 0, 0, 0⟩ 8 = some date ∧
        timestampToDate 32 978278399 ⟨0, 0, 0, 0, 0, 0, 0⟩ 8 = some date' ∧
          date.fields < date'.fields :=
  ⟨by decide, by decide, (timestampToDate_gregorian le_rfl leapDay_inCalendar _).2 _ _
    (by omega) newYear_inCalendar⟩

end QcloudIot.Utils
