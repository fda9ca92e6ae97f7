import SpiderMonkey.Builtin.DateTime
import SpiderMonkey.Builtin.DateTimeInfo

/-!
# Local times of date objects

Date objects that cache their local times, while the time zone of the system changes and is reset.
-/

namespace SpiderMonkey

open DateTime Function

/-! ## Reading the fields -/

def hourFromTime (t : ℤ) : ℤ := positiveModulo (t / 3600000) 24

def minFromTime (t : ℤ) : ℤ := positiveModulo (t / 60000) 60

def secFromTime (t : ℤ) : ℤ := positiveModulo (t / 1000) 60

def msFromTime (t : ℤ) : ℤ := positiveModulo t 1000

inductive LocalGetter
  | getYear
  | getFullYear
  | getMonth
  | getDate
  | getDay
  | getHours
  | getMinutes
  | getSeconds
  | getMilliseconds
  /-- What `getTimezoneOffset` subtracts from the time. -/
  | cachedLocalTime
  deriving DecidableEq

/-- A function of a number in a slot; `NaN` stays what it is. -/
def DateTime.Slot.map (f : ℤ → ℤ) : Slot → Slot
  | .number x => .number (f x)
  | x => x

namespace LocalGetter

def read (d : DateObject) : LocalGetter → Slot
  | .getYear => d.localYear.map fun year => year - 1900
  | .getFullYear => d.localYear
  | .getMonth => d.localMonth
  | .getDate => d.localDate
  | .getDay => d.localDay
  | .getHours => d.localSecondsIntoYear.map fun yearSeconds => (yearSeconds.tdiv 3600).tmod 24
  | .getMinutes => d.localSecondsIntoYear.map fun yearSeconds => (yearSeconds.tdiv 60).tmod 60
  | .getSeconds => d.localSecondsIntoYear.map fun yearSeconds => yearSeconds.tmod 60
  | .getMilliseconds => d.utcTime.map msFromTime
  | .cachedLocalTime => d.localTime

def field (localTime : ℤ) : LocalGetter → ℤ
  | .getYear => yearFromTime localTime - 1900
  | .getFullYear => yearFromTime localTime
  | .getMonth => monthFromTime localTime
  | .getDate => dateFromTime localTime
  | .getDay => weekDay localTime
  | .getHours => hourFromTime localTime
  | .getMinutes => minFromTime localTime
  | .getSeconds => secFromTime localTime
  | .getMilliseconds => msFromTime localTime
  | .cachedLocalTime => localTime

end LocalGetter

/-! ## Dates and the time zone -/

/-- What `TimeClip` makes of an integral number, or of one that is not finite. -/
def timeClip : Option ℤ → Slot
  | some t => if |t| ≤ 8640000000000000 then .number t else .nan
  | none => .nan

/-- Date objects, the zone of the system and the one that is in use.  `cachedIn` says in which zone the
fields of an object have been computed. -/
structure Dates (O : Type) where
  system : Zone
  info : DateTimeInfo
  date : O → DateObject
  cachedIn : O → Option Zone

inductive DateEvent (O : Type)
  | setUTCTime (d : O) (t : Option ℤ)
  | systemZone (zone : Zone)
  | resetTimeZone (mode : ResetTimeZoneMode)
  /-- Any other use of the time zone, as in `localTZA`. -/
  | getOffsetMilliseconds (milliseconds : ℤ)
  | get (d : O) (getter : LocalGetter)

namespace Dates

variable {O : Type} [DecidableEq O]

def setUTCTime (d : O) (t : Slot) (s : Dates O) : Dates O :=
  { s with
    date := Function.update s.date d ((s.date d).setUTCTime t)
    cachedIn := Function.update s.cachedIn d none }

/-- `DateTimeInfo` with a valid time zone. -/
def acquire (s : Dates O) : DateTimeInfo := s.info.acquireLockWithValidTimeZone s.system

/-- `LocalTime` is called if the time is finite. -/
def useLocalTime (info : DateTimeInfo) : Slot → DateTimeInfo
  | .number t => (info.localTime t).1
  | _ => info

def fillLocalTimeSlots (d : O) (s : Dates O) : Dates O :=
  let info := s.acquire
  let utcTZOffset := info.utcToLocalStandardOffsetSeconds_
  let date := s.date d
  if date.localTime ≠ .undefined ∧ date.utcTimeZoneOffset = .number utcTZOffset then { s with info := info }
  else
    { s with
      info := useLocalTime info date.utcTime
      date := Function.update s.date d (date.fillLocalTimeSlots utcTZOffset fun t => (info.localTime t).2)
      cachedIn := Function.update s.cachedIn d (some info.timeZone_) }

/-- A getter, which fills the slots first unless it needs none of them. -/
def get (d : O) (getter : LocalGetter) (s : Dates O) : Dates O × Slot :=
  let s := if getter = .getMilliseconds then s else s.fillLocalTimeSlots d
  (s, getter.read (s.date d))

def step (s : Dates O) : DateEvent O → Dates O
  | .setUTCTime d t => s.setUTCTime d (timeClip t)
  | .systemZone zone => { s with system := zone }
  | .resetTimeZone mode => { s with info := s.info.internalResetTimeZone mode }
  | .getOffsetMilliseconds milliseconds => { s with info := (s.acquire.internalGetOffsetMilliseconds milliseconds).1 }
  | .get d getter => (s.get d getter).1

/-- The time zone needs an update at first, and all that is known of it is arbitrary. -/
def init (system : Zone) (info : DateTimeInfo) (t : O → Option ℤ) : Dates O where
  system := system
  info := { info with timeZoneStatus_ := .NeedsUpdate }
  date d := DateObject.setUTCTime (timeClip (t d))
    ⟨.undefined, .undefined, .undefined, .undefined, .undefined, .undefined, .undefined, .undefined⟩
  cachedIn _ := none

def run (events : List (DateEvent O)) (s : Dates O) : Dates O := events.foldl step s

end Dates

/-! ## The zone in force -/

/-- The zone of the system, the reset that has not been followed by a use, and the zone that was used last. -/
structure ZoneClock where
  system : Zone
  due : Option ResetTimeZoneMode
  used : Zone

namespace ZoneClock

/-- The zone in force: that of the system after a forced reset, and after another one if the standard offset
has changed. -/
def inForce (c : ZoneClock) : Zone :=
  match c.due with
  | none => c.used
  | some .ResetEvenIfOffsetUnchanged => c.system
  | some .DontResetIfOffsetUnchanged => if c.system.standard = c.used.standard then c.used else c.system

def reset (mode : ResetTimeZoneMode) (c : ZoneClock) : ZoneClock :=
  { c with due := if c.due = some .ResetEvenIfOffsetUnchanged then c.due else some mode }

def use (c : ZoneClock) : ZoneClock := ⟨c.system, none, c.inForce⟩

def after {O : Type} (c : ZoneClock) : DateEvent O → ZoneClock
  | .setUTCTime _ _ => c
  | .systemZone zone => { c with system := zone }
  | .resetTimeZone mode => c.reset mode
  | .getOffsetMilliseconds _ => c.use
  | .get _ getter => if getter = .getMilliseconds then c else c.use

/-- The clock after some events; at first a forced reset is due. -/
def afterAll {O : Type} (system : Zone) (events : List (DateEvent O)) : ZoneClock :=
  events.foldl after ⟨system, some .ResetEvenIfOffsetUnchanged, system⟩

end ZoneClock

/-! ## The cached fields are right -/

/-- The time within a year in seconds, in the integer types of the code. -/
lemma secondsIntoYear_eq {t first : ℤ} (h : 0 ≤ day t - first) (h' : day t - first < 366) :
    (t - first * msPerDay) % 2 ^ 64 / 1000 % 2 ^ 32 = (t - first * msPerDay) / 1000 := by
  unfold day msPerDay at *
  have hlo : 0 ≤ t - first * 86400000 := by omega
  have hhi : t - first * 86400000 < 31622400000 := by omega
  rw [Int.emod_eq_of_lt hlo (by omega), Int.emod_eq_of_lt (by omega) (by omega)]

/-- The fields of the time within a year are those of the time. -/
lemma timeFields_eq {t first : ℤ} (h : 0 ≤ day t - first) :
    (((t - first * msPerDay) / 1000).tdiv 3600).tmod 24 = hourFromTime t ∧
    (((t - first * msPerDay) / 1000).tdiv 60).tmod 60 = minFromTime t ∧
    ((t - first * msPerDay) / 1000).tmod 60 = secFromTime t := by
  unfold hourFromTime minFromTime secFromTime
  rw [positiveModulo_eq _ (by norm_num), positiveModulo_eq _ (by norm_num), positiveModulo_eq _ (by norm_num)]
  unfold day msPerDay at *
  have hlo : 0 ≤ (t - first * 86400000) / 1000 := by omega
  rw [Int.tdiv_eq_ediv_of_nonneg hlo, Int.tdiv_eq_ediv_of_nonneg hlo, Int.tmod_eq_emod_of_nonneg (by omega),
    Int.tmod_eq_emod_of_nonneg (by omega), Int.tmod_eq_emod_of_nonneg hlo]
  omega

/-- The slots that are filled from a local time give its fields. -/
theorem read_fillFromLocalTime (t : ℤ) (d : DateObject) {getter : LocalGetter} (hgetter : getter ≠ .getMilliseconds) :
    getter.read (d.fillFromLocalTime t) = .number (getter.field t) := by
  have hcomponents := DateObject.fillFromLocalTime_components t d
  obtain ⟨k, hlocated⟩ := exists_located t
  have hbounds := isMonthOf_bounds hlocated.month
  have hle : leapDays 365 (isLeapYear (yearFromTime t)) ≤ 366 := by
    unfold leapDays
    omega
  have hyear : 0 ≤ day t - dayFromYear (yearFromTime t) := hbounds.1
  have hseconds : (d.fillFromLocalTime t).localSecondsIntoYear =
      .number ((t - dayFromYear (yearFromTime t) * msPerDay) / 1000) := by
    unfold DateObject.fillFromLocalTime
    rw [DateObject.fillYear_eq]
    exact congrArg Slot.number (secondsIntoYear_eq hyear (hbounds.2.trans_le hle))
  obtain ⟨hhour, hmin, hsec⟩ := timeFields_eq hyear
  cases getter with
  | getYear => simp only [LocalGetter.read, LocalGetter.field, hcomponents.localYear, Slot.map]
  | getFullYear => exact hcomponents.localYear
  | getMonth => exact hcomponents.localMonth
  | getDate => exact hcomponents.localDate
  | getDay => exact hcomponents.localDay
  | getHours => simp only [LocalGetter.read, LocalGetter.field, hseconds, Slot.map, hhour]
  | getMinutes => simp only [LocalGetter.read, LocalGetter.field, hseconds, Slot.map, hmin]
  | getSeconds => simp only [LocalGetter.read, LocalGetter.field, hseconds, Slot.map, hsec]
  | getMilliseconds => exact absurd rfl hgetter
  | cachedLocalTime => exact hcomponents.localTime

namespace Dates

open DateTimeInfo ZoneClock

variable {O : Type} [DecidableEq O] {s : Dates O} {c : ZoneClock}

/-- The slots are empty, or they give the fields of the local time in the zone they have been filled in. -/
def Filled (date : DateObject) : Option Zone → Prop
  | none => date.localTime = .undefined
  | some zone => date.localTime ≠ .undefined ∧ date.utcTimeZoneOffset = .number zone.standard ∧
    ∀ getter ≠ LocalGetter.getMilliseconds, getter.read date = date.utcTime.map fun t => getter.field (zone.localTime t)

/-- The zone that has been used last, with a cache that is right for it. -/
structure Used (info : DateTimeInfo) (zone : Zone) : Prop where
  timeZone : info.timeZone_ = zone
  standard : info.utcToLocalStandardOffsetSeconds_ = zone.standard
  range : info.localRange_.Right zone.offset
  steady : zone.Steady

/-- The status that goes with a reset that is due. -/
def statusOf : Option ResetTimeZoneMode → TimeZoneStatus
  | none => .Valid
  | some .ResetEvenIfOffsetUnchanged => .NeedsUpdate
  | some .DontResetIfOffsetUnchanged => .UpdateIfChanged

structure Sound (c : ZoneClock) (s : Dates O) : Prop where
  system : s.system = c.system
  steady : c.system.Steady
  status : s.info.timeZoneStatus_ = statusOf c.due
  used : c.due ≠ some .ResetEvenIfOffsetUnchanged → Used s.info c.used
  time : ∀ d, (s.date d).utcTime ≠ .undefined
  filled : ∀ d, Filled (s.date d) (s.cachedIn d)

omit [DecidableEq O] in
lemma Sound.acquire (h : Sound c s) : Used s.acquire c.inForce ∧ s.acquire.timeZoneStatus_ = .Valid := by
  have hnew : Used ⟨.Valid, c.system.standard, c.system, .reset⟩ c.system :=
    ⟨rfl, rfl, RangeCache.right_reset _, h.steady⟩
  have hstatus := h.status
  unfold Dates.acquire acquireLockWithValidTimeZone updateTimeZone inForce
  rw [h.system, hstatus]
  cases hdue : c.due with
  | none =>
    rw [hdue] at hstatus
    exact ⟨h.used (by simp [hdue]), hstatus⟩
  | some mode =>
    cases mode with
    | ResetEvenIfOffsetUnchanged => exact ⟨hnew, rfl⟩
    | DontResetIfOffsetUnchanged =>
      have hused := h.used (by simp [hdue])
      simp only [statusOf, reduceCtorEq, reduceIte, true_and, hused.standard]
      split_ifs
      · exact ⟨⟨hused.timeZone, rfl, hused.range, hused.steady⟩, rfl⟩
      · exact ⟨hnew, rfl⟩

lemma Used.getOffset {info : DateTimeInfo} {zone : Zone} (h : Used info zone) (t : ℤ) :
    Used (info.internalGetOffsetMilliseconds t).1 zone ∧
      (info.internalGetOffsetMilliseconds t).2 = zone.offset (toClampedSeconds t) := by
  obtain ⟨hmin, hmax⟩ := toClampedSeconds_bounds t
  obtain ⟨hright, heq⟩ := RangeCache.getOrComputeValue_right h.steady h.range hmin hmax
  unfold internalGetOffsetMilliseconds
  rw [h.timeZone]
  exact ⟨⟨rfl, h.standard, hright, h.steady⟩, heq⟩

lemma Used.localTime {info : DateTimeInfo} {zone : Zone} (h : Used info zone) (t : ℤ) :
    Used (info.localTime t).1 zone ∧ (info.localTime t).2 = zone.localTime t := by
  obtain ⟨hused, heq⟩ := h.getOffset t
  exact ⟨hused, congrArg (t + ·) heq⟩

lemma Used.useLocalTime {info : DateTimeInfo} {zone : Zone} (h : Used info zone)
    (hvalid : info.timeZoneStatus_ = .Valid) (utcTime : Slot) :
    Used (useLocalTime info utcTime) zone ∧ (Dates.useLocalTime info utcTime).timeZoneStatus_ = .Valid := by
  cases utcTime with
  | number t => exact ⟨(h.localTime t).1, hvalid⟩
  | undefined => exact ⟨h, hvalid⟩
  | nan => exact ⟨h, hvalid⟩

lemma timeClip_ne (t : Option ℤ) : timeClip t ≠ .undefined := by
  cases t with
  | none => simp [timeClip]
  | some t =>
    unfold timeClip
    dsimp only
    split_ifs <;> simp

omit [DecidableEq O] in
lemma Sound.use (h : Sound c s) {info : DateTimeInfo} (hused : Used info c.inForce)
    (hstatus : info.timeZoneStatus_ = .Valid) : Sound c.use { s with info := info } where
  system := h.system
  steady := h.steady
  status := hstatus
  used _ := hused
  time := h.time
  filled := h.filled

lemma Sound.update (h : Sound c s) {d : O} {date : DateObject} {cached : Option Zone}
    (htime : date.utcTime ≠ .undefined) (hfilled : Filled date cached) :
    Sound c
      { s with
        date := Function.update s.date d date
        cachedIn := Function.update s.cachedIn d cached } where
  system := h.system
  steady := h.steady
  status := h.status
  used := h.used
  time d' := by
    change (Function.update s.date d date d').utcTime ≠ _
    by_cases hd : d' = d
    · rwa [hd, update_self]
    · rw [update_of_ne hd]
      exact h.time d'
  filled d' := by
    change Filled (Function.update s.date d date d') (Function.update s.cachedIn d cached d')
    by_cases hd : d' = d
    · rwa [hd, update_self, update_self]
    · rw [update_of_ne hd, update_of_ne hd]
      exact h.filled d'

lemma filled_of_fill {date : DateObject} {zone : Zone} {toLocalTime : ℤ → ℤ}
    (htoLocalTime : ∀ t, toLocalTime t = zone.localTime t) (htime : date.utcTime ≠ .undefined)
    (hstale : ¬ (date.localTime ≠ .undefined ∧ date.utcTimeZoneOffset = .number zone.standard)) :
    Filled (date.fillLocalTimeSlots zone.standard toLocalTime) (some zone) ∧
      (date.fillLocalTimeSlots zone.standard toLocalTime).utcTime = date.utcTime := by
  unfold DateObject.fillLocalTimeSlots
  rw [if_neg hstale]
  obtain ⟨utcTime, offset⟩ := date
  cases utcTime with
  | undefined => exact absurd rfl htime
  | number t =>
    dsimp only
    rw [htoLocalTime]
    refine ⟨⟨?_, rfl, fun getter hgetter => read_fillFromLocalTime _ _ hgetter⟩, rfl⟩
    rw [(DateObject.fillFromLocalTime_components _ _).localTime]
    simp
  | nan =>
    refine ⟨⟨by simp [DateObject.setComponents], rfl, fun getter hgetter => ?_⟩, rfl⟩
    cases getter <;> rfl

/-- After `fillLocalTimeSlots` the slots have been filled in a zone with the standard offset of the one in
force, and unless they had been filled in such a zone before, in this one. -/
theorem Sound.fillLocalTimeSlots (h : Sound c s) (d : O) :
    Sound c.use (s.fillLocalTimeSlots d) ∧ ((s.fillLocalTimeSlots d).date d).utcTime = (s.date d).utcTime ∧
    ∃ zone, (s.fillLocalTimeSlots d).cachedIn d = some zone ∧
      (zone = c.inForce ∨ s.cachedIn d = some zone ∧ zone.standard = c.inForce.standard) := by
  obtain ⟨hused, hvalid⟩ := h.acquire
  have hfilled := h.filled d
  unfold Dates.fillLocalTimeSlots
  dsimp only
  rw [hused.standard, hused.timeZone]
  split_ifs with hcached
  · refine ⟨h.use hused hvalid, rfl, ?_⟩
    dsimp only
    cases hzone : s.cachedIn d with
    | none =>
      rw [hzone] at hfilled
      exact absurd hfilled hcached.1
    | some zone =>
      rw [hzone] at hfilled
      exact ⟨zone, rfl, .inr ⟨rfl, Slot.number.inj (hfilled.2.1.symm.trans hcached.2)⟩⟩
  · obtain ⟨hfill, htime⟩ := filled_of_fill (fun t => (hused.localTime t).2) (h.time d) hcached
    obtain ⟨hused', hvalid'⟩ := hused.useLocalTime hvalid (s.date d).utcTime
    refine ⟨(h.use hused' hvalid').update (htime ▸ h.time d) hfill, ?_, c.inForce, ?_, .inl rfl⟩
    · simp [htime]
    · simp

omit [DecidableEq O] in
lemma Sound.resetTimeZone (h : Sound c s) (mode : ResetTimeZoneMode) :
    Sound (c.reset mode) { s with info := s.info.internalResetTimeZone mode } := by
  have hstatus := h.status
  unfold internalResetTimeZone reset
  by_cases hdue : c.due = some .ResetEvenIfOffsetUnchanged
  · have hneeds : s.info.timeZoneStatus_ = .NeedsUpdate := by
      rw [hstatus, hdue]
      rfl
    rw [if_pos hneeds, if_pos hdue]
    exact ⟨h.system, h.steady, h.status, h.used, h.time, h.filled⟩
  · have hneeds : s.info.timeZoneStatus_ ≠ .NeedsUpdate := by
      rw [hstatus]
      match c.due, hdue with
      | none, _ => simp [statusOf]
      | some .DontResetIfOffsetUnchanged, _ => simp [statusOf]
    obtain ⟨htimeZone, hstandard, hrange, hsteady⟩ := h.used hdue
    rw [if_neg hneeds, if_neg hdue]
    cases mode with
    | ResetEvenIfOffsetUnchanged =>
      exact ⟨h.system, h.steady, rfl, fun _ => ⟨htimeZone, hstandard, hrange, hsteady⟩, h.time, h.filled⟩
    | DontResetIfOffsetUnchanged =>
      exact ⟨h.system, h.steady, rfl, fun _ => ⟨htimeZone, hstandard, hrange, hsteady⟩, h.time, h.filled⟩

/-- Each event keeps the caches right, if the zones of the system are steady. -/
theorem Sound.after (h : Sound c s) (e : DateEvent O) (hsteady : ∀ zone, e = .systemZone zone → zone.Steady) :
    Sound (c.after e) (s.step e) := by
  cases e with
  | setUTCTime d t => exact h.update (timeClip_ne t) rfl
  | systemZone zone => exact ⟨rfl, hsteady zone rfl, h.status, h.used, h.time, h.filled⟩
  | resetTimeZone mode => exact h.resetTimeZone mode
  | getOffsetMilliseconds milliseconds =>
    obtain ⟨hused, hvalid⟩ := h.acquire
    exact h.use (hused.getOffset milliseconds).1 hvalid
  | get d getter =>
    change Sound (if getter = .getMilliseconds then c else c.use)
      (if getter = .getMilliseconds then s else s.fillLocalTimeSlots d)
    split_ifs
    · exact h
    · exact (h.fillLocalTimeSlots d).1

omit [DecidableEq O] in
lemma sound_init {system : Zone} (hsystem : system.Steady) (info : DateTimeInfo) (t : O → Option ℤ) :
    Sound ⟨system, some .ResetEvenIfOffsetUnchanged, system⟩ (init system info t) :=
  ⟨rfl, hsystem, rfl, fun hdue => absurd rfl hdue, fun d => timeClip_ne (t d), fun _ => rfl⟩

theorem sound_run {system : Zone} (hsystem : system.Steady) (info : DateTimeInfo) (t : O → Option ℤ)
    {events : List (DateEvent O)} (hsteady : ∀ zone, .systemZone zone ∈ events → zone.Steady) :
    Sound (afterAll system events) (run events (init system info t)) := by
  unfold afterAll run
  induction events using List.reverseRecOn with
  | nil => exact sound_init hsystem info t
  | append_singleton events e ih =>
    rw [List.foldl_concat, List.foldl_concat]
    refine (ih fun zone hzone => hsteady zone (List.mem_append_left _ hzone)).after e fun zone he => ?_
    simp [hsteady, he]

/-! ## Main results -/

/-- The zones agree on the local time of the object. -/
def Agree (utcTime : Slot) (zone zone' : Zone) : Prop :=
  ∀ t, utcTime = .number t → zone.localTime t = zone'.localTime t

lemma read_of_filled {date : DateObject} {zone zone' : Zone} (h : Filled date (some zone'))
    (hagree : Agree date.utcTime zone' zone) {getter : LocalGetter} (hgetter : getter ≠ .getMilliseconds) :
    getter.read date = date.utcTime.map fun t => getter.field (zone.localTime t) := by
  rw [h.2.2 getter hgetter]
  cases hutc : date.utcTime with
  | number t => exact congrArg (fun x => Slot.number (getter.field x)) (hagree t hutc)
  | undefined => rfl
  | nan => rfl

lemma msFromTime_localTime {zone : Zone} (hwhole : ∀ x, 1000 ∣ zone.offset x) (t : ℤ) :
    msFromTime (zone.localTime t) = msFromTime t := by
  unfold msFromTime Zone.localTime
  rw [positiveModulo_eq _ (by norm_num), positiveModulo_eq _ (by norm_num)]
  have := hwhole (toClampedSeconds t)
  omega

/-- A getter returns the field of the local time in the zone in force, whatever has been done to the object and
to the time zone, unless its slots have been filled in another zone with the same standard offset in which
the local time is another one. -/
theorem get_current {system : Zone} (hsystem : system.Steady) (info : DateTimeInfo) (t : O → Option ℤ)
    {events : List (DateEvent O)} (hsteady : ∀ zone, .systemZone zone ∈ events → zone.Steady) (d : O)
    (getter : LocalGetter)
    (hwhole : getter = .getMilliseconds → ∀ x, 1000 ∣ (afterAll system events).inForce.offset x)
    (hcached : ∀ zone, (run events (init system info t)).cachedIn d = some zone →
      zone.standard = (afterAll system events).inForce.standard →
      Agree ((run events (init system info t)).date d).utcTime zone (afterAll system events).inForce) :
    ((run events (init system info t)).get d getter).2 = ((run events (init system info t)).date d).utcTime.map fun t =>
        getter.field ((afterAll system events).inForce.localTime t) := by
  have hsound := sound_run hsystem info t hsteady
  generalize run events (init system info t) = s at *
  generalize afterAll system events = c at *
  unfold Dates.get
  split_ifs with hms
  · subst hms
    exact congrArg (Slot.map · _) (funext fun x => (msFromTime_localTime (hwhole rfl) x).symm)
  · obtain ⟨hafter, htime, zone, hzone, hfrom⟩ := hsound.fillLocalTimeSlots d
    have hfilled := hafter.filled d
    rw [hzone] at hfilled
    dsimp only
    rw [← htime]
    refine read_of_filled hfilled ?_ hms
    rw [htime]
    obtain rfl | ⟨hbefore, hstandard⟩ := hfrom
    · exact fun x _ => rfl
    · exact hcached zone hbefore hstandard

/-! ## Zones and offsets that are not told apart -/

/-- A time zone without daylight saving time. -/
def fixedZone (offset standard : ℤ) : Zone := ⟨fun _ => offset, standard⟩

lemma fixedZone_steady (offset standard : ℤ) : (fixedZone offset standard).Steady := fun _ _ _ _ _ _ => .inl rfl

/-- A time zone that is one hour ahead for ten days only. -/
def tenDayZone : Zone := ⟨fun x => if 864000 ≤ x ∧ x < 1728000 then 3600000 else 0, 0⟩

def someInfo : DateTimeInfo := ⟨.Valid, 0, fixedZone 0 0, .reset⟩

/-- The system gets another zone with the same standard offset, and there is a forced reset. -/
def movedOn : List (DateEvent Unit) :=
  [.get () .getHours, .systemZone (fixedZone 3600000 0), .resetTimeZone .ResetEvenIfOffsetUnchanged]

/-- Times are looked up before and behind the ten days. -/
def lookedUp : List (DateEvent Unit) :=
  [.getOffsetMilliseconds 0, .getOffsetMilliseconds 2160000000]

/-- The hour stays that of the old zone; it is wrong in a zone whose offset changes twice in thirty days; and
the milliseconds are those of the UTC time. -/
theorem stale_fields : (((run movedOn (init (fixedZone 0 0) someInfo fun _ => some 0)).get () .getHours).2 = .number 0 ∧
      LocalGetter.getHours.field ((ZoneClock.afterAll (fixedZone 0 0) movedOn).inForce.localTime 0) = 1) ∧
    (((run lookedUp (init tenDayZone someInfo fun _ => some 1296000000)).get () .getHours).2 = .number 0 ∧
      LocalGetter.getHours.field ((ZoneClock.afterAll tenDayZone lookedUp).inForce.localTime 1296000000) = 1) ∧
    ((run [] (init (fixedZone 500 0) someInfo fun _ : Unit => some 0)).get () .getMilliseconds).2 = .number 0 ∧
      LocalGetter.getMilliseconds.field
        ((ZoneClock.afterAll (fixedZone 500 0) ([] : List (DateEvent Unit))).inForce.localTime 0) = 500 := by
  decide

/-- The object is read in a zone with another standard offset. -/
theorem get_current_moved :
    ((run [.get () .getHours, .systemZone (fixedZone 3600000 3600), .resetTimeZone .ResetEvenIfOffsetUnchanged]
      (init (fixedZone 0 0) someInfo fun _ => some 0)).get () .getHours).2 = .number 1 := by
  refine (get_current (fixedZone_steady 0 0) someInfo _ (fun zone hzone => ?_) () .getHours (by simp) ?_).trans rfl
  · obtain rfl : zone = fixedZone 3600000 3600 := by simpa using hzone
    exact fixedZone_steady 3600000 3600
  · rintro zone hzone hstandard
    obtain rfl : fixedZone 0 0 = zone := Option.some.inj hzone
    cases hstandard

end Dates

end SpiderMonkey
