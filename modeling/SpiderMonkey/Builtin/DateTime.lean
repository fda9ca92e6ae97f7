import SpiderMonkey.Lib.Gregorian

/-!
# The arithmetic of dates

The functions of `jsdate.cpp` between times and their years, months and dates, on integral times and in
exact arithmetic: `floor` of a quotient is integer division, and `fmod` and `%` are truncating remainders.
A time that is not finite has no integer; the tests for it are left out but in `fillLocalTimeSlots`.
-/

namespace SpiderMonkey.DateTime

/-! ## Days and years -/

def msPerDay : ℤ := 86400000

def positiveModulo (dividend divisor : ℤ) : ℤ :=
  let result := dividend.tmod divisor
  if result < 0 then result + divisor else result

variable (t : ℤ)

def day : ℤ := t / msPerDay

def timeWithinDay : ℤ := positiveModulo t msPerDay

variable (year : ℤ)

def isLeapYear : Bool :=
  year.tmod 4 = 0 && (year.tmod 100 ≠ 0 || year.tmod 400 = 0)

def daysInYear : ℤ := if isLeapYear year = true then 366 else 365

variable (y : ℤ)

def dayFromYear : ℤ := 365 * (y - 1970) + (y - 1969) / 4 - (y - 1901) / 100 + (y - 1601) / 400

def timeFromYear : ℤ := dayFromYear y * msPerDay

/-- The quotient by `msPerDay * 365.2425` is that of ten thousand times both. -/
def estimateYear : ℤ := t * 10000 / (msPerDay * 3652425) + 1970

def yearFromTime : ℤ :=
  let y := estimateYear t
  let t2 := timeFromYear y
  if t2 > t then y - 1
  else if t2 + msPerDay * daysInYear y ≤ t then y + 1
  else y

def daysInFebruary : ℤ := if isLeapYear year = true then 29 else 28

def dayWithinYear (t year : ℤ) : ℤ := day t - dayFromYear year

/-! ## Months and dates -/

/-- The comparisons of `MonthFromTime`. -/
def monthOfDay (february d : ℤ) : ℤ :=
  let step := 31
  if d < step then 0 else
  let step := step + february
  if d < step then 1 else
  let step := step + 31
  if d < step then 2 else
  let step := step + 30
  if d < step then 3 else
  let step := step + 31
  if d < step then 4 else
  let step := step + 30
  if d < step then 5 else
  let step := step + 31
  if d < step then 6 else
  let step := step + 31
  if d < step then 7 else
  let step := step + 30
  if d < step then 8 else
  let step := step + 31
  if d < step then 9 else
  let step := step + 30
  if d < step then 10 else 11

def monthFromTime : ℤ :=
  let year := yearFromTime t
  monthOfDay (daysInFebruary year) (dayWithinYear t year)

/-- The comparisons of `DateFromTime`. -/
def dateOfDay (february d : ℤ) : ℤ :=
  let next := 30
  if d ≤ next then d + 1 else
  let step := next
  let next := next + february
  if d ≤ next then d - step else
  let step := next
  let next := next + 31
  if d ≤ next then d - step else
  let step := next
  let next := next + 30
  if d ≤ next then d - step else
  let step := next
  let next := next + 31
  if d ≤ next then d - step else
  let step := next
  let next := next + 30
  if d ≤ next then d - step else
  let step := next
  let next := next + 31
  if d ≤ next then d - step else
  let step := next
  let next := next + 31
  if d ≤ next then d - step else
  let step := next
  let next := next + 30
  if d ≤ next then d - step else
  let step := next
  let next := next + 31
  if d ≤ next then d - step else
  let step := next
  let next := next + 30
  if d ≤ next then d - step else
  let step := next
  d - step

def dateFromTime : ℤ :=
  let year := yearFromTime t
  dateOfDay (daysInFebruary year) (dayWithinYear t year)

def weekDay : ℤ :=
  let result := (day t + 4).tmod 7
  if result < 0 then result + 7 else result

def firstDayOfMonth (leap : Bool) : List ℤ :=
  if leap = true then [0, 31, 60, 91, 121, 152, 182, 213, 244, 274, 305, 335, 366]
  else [0, 31, 59, 90, 120, 151, 181, 212, 243, 273, 304, 334, 365]

def dayFromMonth (month : ℕ) (leap : Bool) : ℤ := (firstDayOfMonth leap).getD month 0

def makeDay (year month date : ℤ) : ℤ :=
  let ym := year + month / 12
  let mn := (positiveModulo month 12).toNat
  let leap := isLeapYear ym
  let yearday := timeFromYear ym / msPerDay
  let monthday := dayFromMonth mn leap
  yearday + monthday + date - 1

def makeDate (day time : ℤ) : ℤ := day * msPerDay + time

/-! ## The slots of a date object -/

/-- What a slot holds. -/
inductive Slot
  | undefined
  | number (x : ℤ)
  | nan
  deriving DecidableEq

structure DateObject where
  utcTime : Slot
  utcTimeZoneOffset : Slot
  localTime : Slot
  localYear : Slot
  localMonth : Slot
  localDate : Slot
  localDay : Slot
  localSecondsIntoYear : Slot

namespace DateObject

/-- All slots from `COMPONENTS_START_SLOT` on. -/
def setComponents (x : Slot) (d : DateObject) : DateObject :=
  { d with
    localTime := x
    localYear := x
    localMonth := x
    localDate := x
    localDay := x
    localSecondsIntoYear := x }

def setUTCTime (t : Slot) (d : DateObject) : DateObject :=
  { d.setComponents .undefined with utcTime := t }

def fillYear (localTime : ℤ) : ℤ × ℤ × ℤ :=
  let year := estimateYear localTime
  let yearStartTime := timeFromYear year
  if yearStartTime > localTime then
    let year := year - 1
    (year, yearStartTime - msPerDay * daysInYear year, daysInYear year)
  else
    let yearDays := daysInYear year
    let nextStart := yearStartTime + msPerDay * yearDays
    if nextStart ≤ localTime then (year + 1, nextStart, daysInYear (year + 1))
    else (year, yearStartTime, yearDays)

def fillMonth (yearDays day : ℤ) : ℤ × ℤ :=
  let next := 30
  if day ≤ next then (0, -1) else
  let step := next
  let next := next + if yearDays = 366 then 29 else 28
  if day ≤ next then (1, step) else
  let step := next
  let next := next + 31
  if day ≤ next then (2, step) else
  let step := next
  let next := next + 30
  if day ≤ next then (3, step) else
  let step := next
  let next := next + 31
  if day ≤ next then (4, step) else
  let step := next
  let next := next + 30
  if day ≤ next then (5, step) else
  let step := next
  let next := next + 31
  if day ≤ next then (6, step) else
  let step := next
  let next := next + 31
  if day ≤ next then (7, step) else
  let step := next
  let next := next + 30
  if day ≤ next then (8, step) else
  let step := next
  let next := next + 31
  if day ≤ next then (9, step) else
  let step := next
  let next := next + 30
  if day ≤ next then (10, step) else
  (11, next)

/-- What is stored for a local time.  `yearTime` is a `uint64_t`, `yearSeconds` comes from a `uint32_t`. -/
def fillFromLocalTime (localTime : ℤ) (d : DateObject) : DateObject :=
  let (year, yearStartTime, yearDays) := fillYear localTime
  let yearTime := (localTime - yearStartTime) % 2 ^ 64
  let yearSeconds := yearTime / 1000 % 2 ^ 32
  let day := yearSeconds / 86400
  let (month, step) := fillMonth yearDays day
  { d with
    localTime := .number localTime
    localYear := .number year
    localMonth := .number month
    localDate := .number (day - step)
    localDay := .number (weekDay localTime)
    localSecondsIntoYear := .number yearSeconds }

/-- `utcTZOffset` is the offset of the time zone at present, `toLocalTime` is `LocalTime` in it. -/
def fillLocalTimeSlots (utcTZOffset : ℤ) (toLocalTime : ℤ → ℤ) (d : DateObject) : DateObject :=
  if d.localTime ≠ .undefined ∧ d.utcTimeZoneOffset = .number utcTZOffset then d
  else
    let d := { d with utcTimeZoneOffset := .number utcTZOffset }
    match d.utcTime with
    | .number utcTime => d.fillFromLocalTime (toLocalTime utcTime)
    | _ => d.setComponents .nan

end DateObject

/-! ## Years -/

lemma isLeapYear_iff : isLeapYear year = true ↔ Gregorian.IsLeap year := by
  unfold isLeapYear Gregorian.IsLeap
  simp [← Int.dvd_iff_tmod_eq_zero]

lemma daysInYear_eq : daysInYear y = dayFromYear (y + 1) - dayFromYear y := by
  have hleap := isLeapYear_iff y
  unfold Gregorian.IsLeap at hleap
  unfold daysInYear dayFromYear
  split_ifs with h <;> rw [hleap] at h <;> omega

lemma dayFromYear_lt_succ : dayFromYear y + 365 ≤ dayFromYear (y + 1) := by
  have hdays := daysInYear_eq y
  unfold daysInYear at hdays
  split_ifs at hdays <;> omega

lemma dayFromYear_strictMono : StrictMono dayFromYear :=
  strictMono_int_of_lt_succ fun y => by have := dayFromYear_lt_succ y; omega

/-- The mean year deviates from the first days of the years by less than one year. -/
lemma dayFromYear_bounds : 146097 * (y - 1970) - 600 ≤ 400 * dayFromYear y ∧
    400 * dayFromYear y ≤ 146097 * (y - 1970) + 600 := by
  unfold dayFromYear
  omega

/-- The year that the day is in. -/
def IsYearOf (d y : ℤ) : Prop := dayFromYear y ≤ d ∧ d < dayFromYear (y + 1)

lemma IsYearOf.unique {d y y' : ℤ} (h : IsYearOf d y) (h' : IsYearOf d y') : y = y' := by
  refine le_antisymm (Int.le_of_not_gt fun hlt => ?_) (Int.le_of_not_gt fun hlt => ?_)
  · have hle := dayFromYear_strictMono.monotone (Int.add_one_le_of_lt hlt)
    exact absurd (h'.2.trans_le (hle.trans h.1)) (lt_irrefl d)
  · have hle := dayFromYear_strictMono.monotone (Int.add_one_le_of_lt hlt)
    exact absurd (h.2.trans_le (hle.trans h'.1)) (lt_irrefl d)

lemma lt_timeFromYear_iff (t y : ℤ) : t < timeFromYear y ↔ day t < dayFromYear y := by
  unfold timeFromYear day msPerDay
  omega

lemma timeFromYear_succ : timeFromYear y + msPerDay * daysInYear y = timeFromYear (y + 1) := by
  rw [daysInYear_eq]
  unfold timeFromYear
  ring

/-- The estimate is wrong by one year at most. -/
lemma estimateYear_spec : dayFromYear (estimateYear t - 1) ≤ day t ∧ day t < dayFromYear (estimateYear t + 2) := by
  have hbelow := (dayFromYear_bounds (estimateYear t - 1)).2
  have habove := (dayFromYear_bounds (estimateYear t + 2)).1
  have hestimate : estimateYear t = t * 10000 / 315569520000000 + 1970 := rfl
  unfold day msPerDay
  omega

lemma isYearOf_yearFromTime : IsYearOf (day t) (yearFromTime t) := by
  obtain ⟨hbelow, habove⟩ := estimateYear_spec t
  unfold yearFromTime IsYearOf
  simp only [gt_iff_lt, timeFromYear_succ, lt_timeFromYear_iff, ← not_lt]
  split_ifs with h₁ h₂
  · rw [Int.sub_add_cancel]
    exact ⟨not_lt.2 hbelow, h₁⟩
  · exact ⟨h₁, h₂⟩
  · have heq : estimateYear t + 1 + 1 = estimateYear t + 2 := by ring
    rw [heq]
    exact ⟨h₂, habove⟩

/-! ## Months -/

/-- The month that a day of the year is in. -/
def IsMonthOf (leap : Bool) (d : ℤ) (k : ℕ) : Prop :=
  k < 12 ∧ dayFromMonth k leap ≤ d ∧ d < dayFromMonth (k + 1) leap

/-- The number of days of a year, or of a February. -/
def leapDays (days : ℤ) (leap : Bool) : ℤ := if leap = true then days + 1 else days

lemma exists_isMonthOf {leap : Bool} {d : ℤ} (h : 0 ≤ d) (h' : d < leapDays 365 leap) : ∃ k, IsMonthOf leap d k := by
  have hzero : dayFromMonth 0 leap ≤ d := by
    cases leap <;> exact h
  have hlast : d < dayFromMonth 12 leap := by
    cases leap <;> exact h'
  refine ⟨Nat.findGreatest (fun k => dayFromMonth k leap ≤ d) 11, ?_, ?_, ?_⟩
  · exact Nat.lt_succ_of_le (Nat.findGreatest_le 11)
  · exact Nat.findGreatest_spec (P := fun k => dayFromMonth k leap ≤ d) (Nat.zero_le 11) hzero
  · refine lt_of_not_ge fun hle => ?_
    by_cases heq : Nat.findGreatest (fun k => dayFromMonth k leap ≤ d) 11 = 11
    · rw [heq] at hle
      exact absurd hlast (not_lt.2 hle)
    · have hlt := Nat.findGreatest_le (P := fun k => dayFromMonth k leap ≤ d) 11
      have hle' : Nat.findGreatest (fun k => dayFromMonth k leap ≤ d) 11 + 1 ≤ 11 := by omega
      exact Nat.findGreatest_is_greatest (Nat.lt_succ_self _) hle' hle

lemma IsMonthOf.ladders {leap : Bool} {d : ℤ} {k : ℕ} (h : IsMonthOf leap d k) : monthOfDay (leapDays 28 leap) d = k ∧
    dateOfDay (leapDays 28 leap) d = d - dayFromMonth k leap + 1 ∧
    DateObject.fillMonth (leapDays 365 leap) d = ((k : ℤ), dayFromMonth k leap - 1) := by
  obtain ⟨hk, hlo, hhi⟩ := h
  unfold monthOfDay dateOfDay DateObject.fillMonth
  cases leap <;> interval_cases k <;>
    simp only [dayFromMonth, firstDayOfMonth, leapDays, reduceIte, Bool.false_eq_true, List.getD_cons_zero,
      List.getD_cons_succ] at hlo hhi ⊢ <;>
    simp (disch := omega) only [if_pos, if_neg] <;>
    exact ⟨rfl, by omega, by norm_num⟩

lemma daysInYear_eq_leapDays : daysInYear y = leapDays 365 (isLeapYear y) := rfl

lemma monthLength_eq {k : ℕ} (hk : k < 12) :
    Gregorian.monthLength y k = dayFromMonth (k + 1) (isLeapYear y) - dayFromMonth k (isLeapYear y) := by
  have hleap := isLeapYear_iff y
  unfold Gregorian.monthLength
  by_cases h : isLeapYear y = true
  · rw [if_pos (hleap.1 h), h]
    interval_cases k <;> rfl
  · rw [if_neg fun h' => h (hleap.2 h'), Bool.eq_false_of_not_eq_true h]
    interval_cases k <;> rfl

lemma isMonthOf_bounds {leap : Bool} {d : ℤ} {k : ℕ} (h : IsMonthOf leap d k) : 0 ≤ d ∧ d < leapDays 365 leap := by
  obtain ⟨hk, hlo, hhi⟩ := h
  have hfirst : 0 ≤ dayFromMonth k leap := by
    interval_cases k <;> cases leap <;> decide
  have hlast : dayFromMonth (k + 1) leap ≤ leapDays 365 leap := by
    interval_cases k <;> cases leap <;> decide
  omega

/-! ## Dates of days -/

/-- The year and the month of a time, as they are in the calendar. -/
structure Located (t y : ℤ) (k : ℕ) : Prop where
  year : IsYearOf (day t) y
  month : IsMonthOf (isLeapYear y) (dayWithinYear t y) k

lemma exists_located : ∃ k, Located t (yearFromTime t) k := by
  have hyear := isYearOf_yearFromTime t
  have hdays := daysInYear_eq (yearFromTime t)
  rw [daysInYear_eq_leapDays] at hdays
  have hlo : 0 ≤ dayWithinYear t (yearFromTime t) := sub_nonneg.2 hyear.1
  have hhi : dayWithinYear t (yearFromTime t) < leapDays 365 (isLeapYear (yearFromTime t)) := by
    rw [hdays]
    exact sub_lt_sub_right hyear.2 _
  obtain ⟨k, hk⟩ := exists_isMonthOf hlo hhi
  exact ⟨k, hyear, hk⟩

lemma Located.yearFromTime_eq {t y : ℤ} {k : ℕ} (h : Located t y k) : yearFromTime t = y :=
  (isYearOf_yearFromTime t).unique h.year

lemma Located.monthFromTime_eq {t y : ℤ} {k : ℕ} (h : Located t y k) : monthFromTime t = k := by
  unfold monthFromTime
  rw [h.yearFromTime_eq]
  exact h.month.ladders.1

lemma Located.dateFromTime_eq {t y : ℤ} {k : ℕ} (h : Located t y k) :
    dateFromTime t = dayWithinYear t y - dayFromMonth k (isLeapYear y) + 1 := by
  unfold dateFromTime
  rw [h.yearFromTime_eq]
  exact h.month.ladders.2.1

lemma positiveModulo_eq (a : ℤ) {b : ℤ} (hb : 0 < b) : positiveModulo a b = a % b := by
  have hnonneg := Int.emod_nonneg a hb.ne'
  have hlt := Int.emod_lt_of_pos a hb
  unfold positiveModulo
  rw [Int.tmod_eq_emod]
  dsimp only
  split_ifs with h₁ h₂ h₂ <;> omega

lemma makeDay_eq (year month date : ℤ) : makeDay year month date = dayFromYear (year + month / 12) +
      dayFromMonth (month % 12).toNat (isLeapYear (year + month / 12)) + date - 1 := by
  unfold makeDay timeFromYear
  dsimp only
  rw [positiveModulo_eq month (by norm_num), Int.mul_ediv_cancel _ (by norm_num [msPerDay])]

lemma makeDay_of_lt {k : ℕ} (hk : k < 12) (date : ℤ) : makeDay year k date =
    dayFromYear year + dayFromMonth k (isLeapYear year) + date - 1 := by
  have hdiv : (k : ℤ) / 12 = 0 := by omega
  have hmod : ((k : ℤ) % 12).toNat = k := by omega
  simp [makeDay_eq, hdiv, hmod]

lemma Located.makeDay_eq {t y : ℤ} {k : ℕ} (h : Located t y k) :
    makeDay (yearFromTime t) (monthFromTime t) (dateFromTime t) = day t := by
  rw [h.yearFromTime_eq, h.monthFromTime_eq, h.dateFromTime_eq, makeDay_of_lt y h.month.1]
  unfold dayWithinYear
  ring

/-- The date of a day. -/
def civilDate (n : ℤ) : Gregorian.Date where
  year := yearFromTime (n * msPerDay)
  month := (monthFromTime (n * msPerDay)).toNat
  date := dateFromTime (n * msPerDay)
  month_lt := by
    obtain ⟨k, h⟩ := exists_located (n * msPerDay)
    rw [h.monthFromTime_eq, Int.toNat_natCast]
    exact h.month.1
  one_le := by
    obtain ⟨k, h⟩ := exists_located (n * msPerDay)
    rw [h.dateFromTime_eq]
    have hlo := h.month.2.1
    omega
  le_length := by
    obtain ⟨k, h⟩ := exists_located (n * msPerDay)
    rw [h.dateFromTime_eq, h.monthFromTime_eq, Int.toNat_natCast, monthLength_eq _ h.month.1]
    have hhi := h.month.2.2
    omega

lemma day_mul (n : ℤ) : day (n * msPerDay) = n := Int.mul_ediv_cancel _ (by norm_num [msPerDay])

lemma Located.congr {t t' y : ℤ} {k : ℕ} (h : Located t y k) (ht : day t' = day t) : Located t' y k := by
  refine ⟨?_, ?_⟩
  · rw [ht]
    exact h.year
  · unfold dayWithinYear
    rw [ht]
    exact h.month

lemma civilDate_day : (civilDate (day t)).year = yearFromTime t ∧
    ((civilDate (day t)).month : ℤ) = monthFromTime t ∧ (civilDate (day t)).date = dateFromTime t := by
  obtain ⟨k, h⟩ := exists_located t
  have h' := h.congr (day_mul (day t))
  refine ⟨h'.yearFromTime_eq, ?_, ?_⟩
  · show ((monthFromTime (day t * msPerDay)).toNat : ℤ) = _
    simp [h'.monthFromTime_eq, h.monthFromTime_eq]
  · show dateFromTime (day t * msPerDay) = _
    rw [h'.dateFromTime_eq, h.dateFromTime_eq]
    unfold dayWithinYear
    rw [day_mul]

variable (d : Gregorian.Date)

/-- The day of a date. -/
def dayOf : ℤ := makeDay d.year d.month d.date

lemma located_dayOf : Located (dayOf d * msPerDay) d.year d.month := by
  have hday := makeDay_of_lt d.year d.month_lt d.date
  have hlength := monthLength_eq d.year d.month_lt
  have hle := d.le_length
  have hone := d.one_le
  have hmonth : IsMonthOf (isLeapYear d.year) (dayWithinYear (dayOf d * msPerDay) d.year) d.month := by
    unfold dayWithinYear dayOf
    rw [day_mul, hday]
    exact ⟨d.month_lt, by omega, by omega⟩
  have hbounds := isMonthOf_bounds hmonth
  rw [← daysInYear_eq_leapDays, daysInYear_eq] at hbounds
  unfold dayWithinYear at hbounds
  exact ⟨⟨by omega, by omega⟩, hmonth⟩

lemma civilDate_dayOf : civilDate (dayOf d) = d := by
  have h := located_dayOf d
  refine Gregorian.Date.ext h.yearFromTime_eq ?_ ?_
  · show (monthFromTime _).toNat = _
    simp [h.monthFromTime_eq]
  · show dateFromTime _ = _
    rw [h.dateFromTime_eq]
    unfold dayWithinYear
    rw [day_mul]
    unfold dayOf
    rw [makeDay_of_lt d.year d.month_lt]
    ring

lemma dayOf_civilDate (n : ℤ) : dayOf (civilDate n) = n := by
  obtain ⟨k, h⟩ := exists_located (n * msPerDay)
  have hday := h.makeDay_eq
  rw [day_mul] at hday
  unfold dayOf
  show makeDay _ ((monthFromTime (n * msPerDay)).toNat : ℤ) _ = n
  rw [h.monthFromTime_eq] at hday ⊢
  exact hday

lemma dayOf_first (k : ℕ) (hk : k < 12) :
    dayOf (Gregorian.Date.first y k hk) = dayFromYear y + dayFromMonth k (isLeapYear y) := by
  show makeDay y k 1 = _
  rw [makeDay_of_lt y hk]
  ring

lemma dayOf_next : dayOf d.next = dayOf d + 1 := by
  have hday : dayOf d = dayFromYear d.year + dayFromMonth d.month (isLeapYear d.year) + d.date - 1 :=
    makeDay_of_lt d.year d.month_lt d.date
  have hlength := monthLength_eq d.year d.month_lt
  have hle := d.le_length
  have hlt := d.month_lt
  unfold Gregorian.Date.next
  split_ifs with h₁ h₂
  · show makeDay d.year d.month (d.date + 1) = _
    rw [makeDay_of_lt d.year d.month_lt, hday]
    ring
  · rw [dayOf_first, hday]
    omega
  · rw [dayOf_first, hday]
    have hmonth : d.month = 11 := by omega
    have hdays := daysInYear_eq d.year
    rw [daysInYear_eq_leapDays] at hdays
    have hzero : ∀ leap, dayFromMonth 0 leap = 0 := by decide
    have htwelve : ∀ leap, dayFromMonth 12 leap = leapDays 365 leap := by decide
    rw [hmonth] at hlength h₁ hle ⊢
    rw [htwelve] at hlength
    rw [hzero]
    omega

theorem civilDate_isCalendar : Gregorian.IsCalendar civilDate where
  zero := by
    have hepoch : dayOf Gregorian.Date.epoch = 0 := by decide
    rw [← hepoch, civilDate_dayOf]
  succ n := by
    rw [← civilDate_dayOf (civilDate n).next, dayOf_next, dayOf_civilDate]

/-! ## The slots of a date object -/

lemma weekDay_eq : weekDay t = (day t + 4) % 7 := positiveModulo_eq (day t + 4) (by norm_num)

namespace DateObject

lemma fillYear_eq : fillYear t = (yearFromTime t, timeFromYear (yearFromTime t), daysInYear (yearFromTime t)) := by
  have hprev := timeFromYear_succ (estimateYear t - 1)
  rw [Int.sub_add_cancel] at hprev
  unfold fillYear yearFromTime
  simp only [timeFromYear_succ]
  split_ifs with h₁ h₂
  · simp [← hprev]
  · rfl
  · rfl

/-- The components are those of the local time. -/
structure Components (d : DateObject) (t : ℤ) : Prop where
  localTime : d.localTime = .number t
  localYear : d.localYear = .number (yearFromTime t)
  localMonth : d.localMonth = .number (monthFromTime t)
  localDate : d.localDate = .number (dateFromTime t)
  localDay : d.localDay = .number (weekDay t)

lemma seconds_div_eq {t first : ℤ} (h : 0 ≤ day t - first) (h' : day t - first < 366) :
    (t - first * msPerDay) % 2 ^ 64 / 1000 % 2 ^ 32 / 86400 = day t - first := by
  unfold day msPerDay at *
  have hlo : 0 ≤ t - first * 86400000 := by omega
  have hhi : t - first * 86400000 < 31622400000 := by omega
  rw [Int.emod_eq_of_lt hlo (by omega), Int.emod_eq_of_lt (by omega) (by omega)]
  omega

lemma fillFromLocalTime_components (d : DateObject) : (d.fillFromLocalTime t).Components t := by
  obtain ⟨k, h⟩ := exists_located t
  have hbounds := isMonthOf_bounds h.month
  have hle : leapDays 365 (isLeapYear (yearFromTime t)) ≤ 366 := by
    unfold leapDays
    omega
  have hday : (t - timeFromYear (yearFromTime t)) % 2 ^ 64 / 1000 % 2 ^ 32 / 86400 =
      dayWithinYear t (yearFromTime t) := seconds_div_eq hbounds.1 (hbounds.2.trans_le hle)
  have hmonth := h.month.ladders.2.2
  rw [← daysInYear_eq_leapDays] at hmonth
  unfold fillFromLocalTime
  rw [fillYear_eq]
  simp only [hday, hmonth]
  refine ⟨rfl, rfl, congrArg Slot.number h.monthFromTime_eq.symm, ?_, rfl⟩
  rw [h.dateFromTime_eq]
  exact congrArg Slot.number (by ring)

/-- The slots agree: they hold one local time, or they are all `NaN`. -/
inductive Consistent (d : DateObject) : Prop
  | components (t : ℤ) (h : d.Components t)
  | nan (h : d = d.setComponents .nan)

/-- What is done to a date object, one thing after another. -/
inductive Event
  | setUTCTime (t : Slot)
  | fillLocalTimeSlots (utcTZOffset : ℤ) (toLocalTime : ℤ → ℤ)

def apply : Event → DateObject → DateObject
  | .setUTCTime t, d => d.setUTCTime t
  | .fillLocalTimeSlots utcTZOffset toLocalTime, d => d.fillLocalTimeSlots utcTZOffset toLocalTime

/-- The object that `NewDateObjectMsec` makes, after some events. -/
def run (t : Slot) (events : List Event) : DateObject :=
  events.foldl (fun d e => d.apply e)
    (setUTCTime t ⟨.undefined, .undefined, .undefined, .undefined, .undefined, .undefined, .undefined, .undefined⟩)

/-- The cache is empty or right. -/
def CacheRight (d : DateObject) : Prop := d.localTime = .undefined ∨ d.Consistent

lemma cacheRight_setUTCTime (t : Slot) (d : DateObject) : (d.setUTCTime t).CacheRight := .inl rfl

lemma CacheRight.fillLocalTimeSlots {d : DateObject} (h : d.CacheRight) (utcTZOffset : ℤ)
    (toLocalTime : ℤ → ℤ) : (d.fillLocalTimeSlots utcTZOffset toLocalTime).Consistent := by
  unfold DateObject.fillLocalTimeSlots
  split_ifs with hcached
  · exact h.resolve_left hcached.1
  · obtain ⟨utcTime, offset⟩ := d
    cases utcTime with
    | number utcTime => exact .components _ (fillFromLocalTime_components _ _)
    | undefined => exact .nan rfl
    | nan => exact .nan rfl

lemma cacheRight_run (t : Slot) (events : List Event) : (run t events).CacheRight := by
  unfold run
  induction events using List.reverseRecOn with
  | nil => exact cacheRight_setUTCTime _ _
  | append_singleton events e ih =>
    rw [List.foldl_concat]
    cases e with
    | setUTCTime t => exact cacheRight_setUTCTime _ _
    | fillLocalTimeSlots utcTZOffset toLocalTime => exact .inr (ih.fillLocalTimeSlots _ _)

end DateObject

/-! ## Main results -/

lemma weekDay_add_msPerDay : weekDay (t + msPerDay) = (weekDay t + 1) % 7 := by
  rw [weekDay_eq, weekDay_eq]
  unfold day msPerDay
  omega

/-- The month may be any integer, and so may the date. -/
lemma civilDate_makeDay (year month date : ℤ) : civilDate (makeDay year month date - (date - 1)) =
    Gregorian.Date.first (year + month / 12) (month % 12).toNat (by omega) := by
  rw [← civilDate_dayOf (Gregorian.Date.first _ _ _), dayOf_first, makeDay_eq]
  congr 1
  ring

lemma makeDate_timeWithinDay : makeDate (day t) (timeWithinDay t) = t := by
  unfold makeDate timeWithinDay
  rw [positiveModulo_eq t (by norm_num [msPerDay])]
  exact Int.ediv_mul_add_emod t msPerDay

/-- The dates of the days are the calendar, in both directions, and date objects store them. -/
theorem dates_correct : Gregorian.IsCalendar civilDate ∧
    (∀ t, (civilDate (day t)).year = yearFromTime t ∧ ((civilDate (day t)).month : ℤ) = monthFromTime t ∧
      (civilDate (day t)).date = dateFromTime t ∧
      makeDate (makeDay (yearFromTime t) (monthFromTime t) (dateFromTime t)) (timeWithinDay t) = t) ∧
    (∀ d : Gregorian.Date, civilDate (makeDay d.year d.month d.date) = d) ∧
    (∀ year month date, civilDate (makeDay year month date - (date - 1)) =
      Gregorian.Date.first (year + month / 12) (month % 12).toNat (by omega)) ∧
    (∀ t, 0 ≤ weekDay t ∧ weekDay t < 7 ∧ weekDay (day t * msPerDay) = weekDay t ∧
      weekDay (t + msPerDay) = (weekDay t + 1) % 7) ∧
    (∀ t d, (DateObject.fillFromLocalTime t d).Components t) ∧
    ∀ t events utcTZOffset toLocalTime,
      ((DateObject.run t events).fillLocalTimeSlots utcTZOffset toLocalTime).Consistent := by
  refine ⟨civilDate_isCalendar, fun t => ?_, civilDate_dayOf, civilDate_makeDay, fun t => ?_,
    DateObject.fillFromLocalTime_components, fun t events utcTZOffset toLocalTime => ?_⟩
  · obtain ⟨hyear, hmonth, hdate⟩ := civilDate_day t
    obtain ⟨k, h⟩ := exists_located t
    refine ⟨hyear, hmonth, hdate, ?_⟩
    rw [h.makeDay_eq]
    exact makeDate_timeWithinDay t
  · refine ⟨?_, ?_, ?_, weekDay_add_msPerDay t⟩
    · rw [weekDay_eq]
      omega
    · rw [weekDay_eq]
      omega
    · rw [weekDay_eq, weekDay_eq, day_mul]
  · exact (DateObject.cacheRight_run t events).fillLocalTimeSlots _ _

end SpiderMonkey.DateTime
