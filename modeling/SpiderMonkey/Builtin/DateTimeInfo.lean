import Mathlib.Tactic

/-!
# The time zone

`DateTimeInfo`: the time zone that is refreshed when it is needed, and the cache of its offsets.  The offsets
are those of a build with the in-tree ICU.
-/

namespace SpiderMonkey

/-! ## Zones -/

/-- A time zone: the offset in milliseconds at a UTC time in seconds, and the standard offset in seconds. -/
structure Zone where
  offset : ℤ → ℤ
  standard : ℤ

def rangeExpansionAmount : ℤ := 30 * 86400

/-- The offset never changes more than once in any thirty-day period. -/
def Zone.Steady (z : Zone) : Prop :=
  ∀ a x b, a ≤ x → x ≤ b → b ≤ a + rangeExpansionAmount → z.offset x = z.offset a ∨ z.offset x = z.offset b

/-! ## The cache of offsets -/

/-- The current range and the last one, with their offsets. -/
structure RangeCache where
  startSeconds : ℤ
  endSeconds : ℤ
  oldStartSeconds : ℤ
  oldEndSeconds : ℤ
  offsetMilliseconds : ℤ
  oldOffsetMilliseconds : ℤ

def minTimeT : ℤ := -8640000000000
def maxTimeT : ℤ := 8640000000000

namespace RangeCache

def reset : RangeCache := ⟨-2 ^ 63, -2 ^ 63, -2 ^ 63, -2 ^ 63, 0, 0⟩

/-- The case of `getOrComputeValue` in which the time is behind the start of the current range. -/
def extendEnd (range : RangeCache) (seconds : ℤ) (compute : ℤ → ℤ) : RangeCache × ℤ :=
  let newEndSeconds := min (range.endSeconds + rangeExpansionAmount) maxTimeT
  if seconds ≤ newEndSeconds then
    let endOffsetMilliseconds := compute newEndSeconds
    if endOffsetMilliseconds = range.offsetMilliseconds then
      ({ range with endSeconds := newEndSeconds }, range.offsetMilliseconds)
    else
      let offset := compute seconds
      if offset = endOffsetMilliseconds then
        ({ range with offsetMilliseconds := offset, startSeconds := seconds, endSeconds := newEndSeconds }, offset)
      else ({ range with offsetMilliseconds := offset, endSeconds := seconds }, offset)
  else
    let offset := compute seconds
    ({ range with offsetMilliseconds := offset, startSeconds := seconds, endSeconds := seconds }, offset)

/-- The case in which it is in front of it. -/
def extendStart (range : RangeCache) (seconds : ℤ) (compute : ℤ → ℤ) : RangeCache × ℤ :=
  let newStartSeconds := max (range.startSeconds - rangeExpansionAmount) minTimeT
  if newStartSeconds ≤ seconds then
    let startOffsetMilliseconds := compute newStartSeconds
    if startOffsetMilliseconds = range.offsetMilliseconds then
      ({ range with startSeconds := newStartSeconds }, range.offsetMilliseconds)
    else
      let offset := compute seconds
      if offset = startOffsetMilliseconds then
        ({ range with offsetMilliseconds := offset, startSeconds := newStartSeconds, endSeconds := seconds }, offset)
      else ({ range with offsetMilliseconds := offset, startSeconds := seconds }, offset)
  else
    let offset := compute seconds
    ({ range with offsetMilliseconds := offset, startSeconds := seconds, endSeconds := seconds }, offset)

def getOrComputeValue (range : RangeCache) (seconds : ℤ) (compute : ℤ → ℤ) : RangeCache × ℤ :=
  if range.startSeconds ≤ seconds ∧ seconds ≤ range.endSeconds then (range, range.offsetMilliseconds)
  else if range.oldStartSeconds ≤ seconds ∧ seconds ≤ range.oldEndSeconds then
    (range, range.oldOffsetMilliseconds)
  else
    let range :=
      { range with
        oldOffsetMilliseconds := range.offsetMilliseconds
        oldStartSeconds := range.startSeconds
        oldEndSeconds := range.endSeconds }
    if range.startSeconds ≤ seconds then range.extendEnd seconds compute else range.extendStart seconds compute

/-- The offset at every time of a range is the one that is stored; the range can be one that no time is in. -/
def Holds (f : ℤ → ℤ) (start stop offset : ℤ) : Prop :=
  start ≤ stop ∧ stop ≤ maxTimeT ∧ (stop < minTimeT - rangeExpansionAmount ∨
    minTimeT ≤ start ∧ ∀ x, start ≤ x → x ≤ stop → f x = offset)

/-- Both ranges hold. -/
structure Right (f : ℤ → ℤ) (range : RangeCache) : Prop where
  current : Holds f range.startSeconds range.endSeconds range.offsetMilliseconds
  old : Holds f range.oldStartSeconds range.oldEndSeconds range.oldOffsetMilliseconds

lemma right_reset (f : ℤ → ℤ) : reset.Right f := by
  have h : Holds f (-2 ^ 63) (-2 ^ 63) 0 := ⟨le_rfl, by decide, .inl (by decide)⟩
  exact ⟨h, h⟩

lemma Holds.eq {f : ℤ → ℤ} {start stop offset x : ℤ} (h : Holds f start stop offset) (hmin : minTimeT ≤ x)
    (hstart : start ≤ x) (hstop : x ≤ stop) : f x = offset := by
  obtain ⟨-, -, hfar | ⟨-, hf⟩⟩ := h
  · unfold rangeExpansionAmount at hfar
    omega
  · exact hf x hstart hstop

lemma holds_single {f : ℤ → ℤ} {x : ℤ} (hmin : minTimeT ≤ x) (hmax : x ≤ maxTimeT) : Holds f x x (f x) :=
  ⟨le_rfl, hmax, .inr ⟨hmin, fun _ hy hy' => congrArg f (le_antisymm hy' hy)⟩⟩

variable {z : Zone} {range : RangeCache} {seconds : ℤ}

/-- Between two times of a short period at which the offset is the same it does not change. -/
lemma eq_of_steady (hz : z.Steady) {a b x : ℤ} (hb : b ≤ a + rangeExpansionAmount) (hab : z.offset b = z.offset a)
    (hax : a ≤ x) (hxb : x ≤ b) : z.offset x = z.offset a := by
  obtain h | h := hz a x b hax hxb hb
  · exact h
  · omega

lemma Holds.join (hz : z.Steady) {a b c d offset : ℤ} (hab : Holds z.offset a b offset) (hmin : minTimeT ≤ a)
    (hbc : b ≤ c) (hshort : c ≤ b + rangeExpansionAmount) (hcd : Holds z.offset c d offset) :
    Holds z.offset a d offset := by
  obtain ⟨hle, -, -⟩ := id hab
  obtain ⟨hle', hmax, -⟩ := id hcd
  refine ⟨by omega, hmax, .inr ⟨hmin, fun x hx hx' => ?_⟩⟩
  have hb := hab.eq (x := b) (by omega) hle le_rfl
  have hc := hcd.eq (x := c) (by omega) le_rfl hle'
  by_cases hxb : x ≤ b
  · exact hab.eq (by omega) hx hxb
  · by_cases hxc : x ≤ c
    · exact (eq_of_steady hz hshort (hc.trans hb.symm) (by omega) hxc).trans hb
    · exact hcd.eq (by omega) (by omega) hx'

lemma extendEnd_right (hz : z.Steady) (h : range.Right z.offset) (hmin : minTimeT ≤ seconds)
    (hmax : seconds ≤ maxTimeT) (hend : range.endSeconds < seconds) :
    (range.extendEnd seconds z.offset).1.Right z.offset ∧ (range.extendEnd seconds z.offset).2 = z.offset seconds := by
  obtain ⟨hle, hlast, hholds⟩ := h.current
  have hself := holds_single (f := z.offset) hmin hmax
  unfold extendEnd
  dsimp only
  by_cases hnew : seconds ≤ min (range.endSeconds + rangeExpansionAmount) maxTimeT
  · have hstart : minTimeT ≤ range.startSeconds := (hholds.resolve_left (by omega)).1
    have hnewEnd := holds_single (f := z.offset) (x := min (range.endSeconds + rangeExpansionAmount) maxTimeT)
      (by omega) (by omega)
    rw [if_pos hnew]
    split_ifs with hsame hother
    · rw [hsame] at hnewEnd
      have hjoined := h.current.join hz hstart (by omega) (by omega) hnewEnd
      exact ⟨⟨hjoined, h.old⟩, (hjoined.eq hmin (by omega) hnew).symm⟩
    · rw [← hother] at hnewEnd
      exact ⟨⟨hself.join hz hmin hnew (by omega) hnewEnd, h.old⟩, rfl⟩
    · -- the offset has changed once, and this was behind the time
      have hlastOffset := h.current.eq (x := range.endSeconds) (by omega) hle le_rfl
      have hbefore : z.offset seconds = range.offsetMilliseconds :=
        ((hz range.endSeconds seconds _ hend.le hnew (by omega)).resolve_right hother).trans hlastOffset
      rw [hbefore] at hself ⊢
      exact ⟨⟨h.current.join hz hstart hend.le (by omega) hself, h.old⟩, rfl⟩
  · rw [if_neg hnew]
    exact ⟨⟨hself, h.old⟩, rfl⟩

lemma extendStart_right (hz : z.Steady) (h : range.Right z.offset) (hmin : minTimeT ≤ seconds)
    (hmax : seconds ≤ maxTimeT) (hstart : seconds < range.startSeconds) :
    (range.extendStart seconds z.offset).1.Right z.offset ∧
      (range.extendStart seconds z.offset).2 = z.offset seconds := by
  obtain ⟨hle, hlast, hholds⟩ := h.current
  have hself := holds_single (f := z.offset) hmin hmax
  unfold extendStart
  dsimp only
  by_cases hnew : max (range.startSeconds - rangeExpansionAmount) minTimeT ≤ seconds
  · have hnewStart := holds_single (f := z.offset) (x := max (range.startSeconds - rangeExpansionAmount) minTimeT)
      (by omega) (by omega)
    rw [if_pos hnew]
    split_ifs with hsame hother
    · rw [hsame] at hnewStart
      have hjoined := hnewStart.join hz (by omega) (by omega) (by omega) h.current
      exact ⟨⟨hjoined, h.old⟩, (hjoined.eq hmin hnew (by omega)).symm⟩
    · rw [← hother] at hnewStart
      exact ⟨⟨hnewStart.join hz (by omega) hnew (by omega) hself, h.old⟩, rfl⟩
    · -- the offset has changed once, and this was in front of the time
      have hfirstOffset := h.current.eq (x := range.startSeconds) (by omega) le_rfl hle
      have hbehind : z.offset seconds = range.offsetMilliseconds :=
        ((hz _ seconds range.startSeconds hnew hstart.le (by omega)).resolve_left hother).trans hfirstOffset
      rw [hbehind] at hself ⊢
      exact ⟨⟨hself.join hz hmin hstart.le (by omega) h.current, h.old⟩, rfl⟩
  · rw [if_neg hnew]
    exact ⟨⟨hself, h.old⟩, rfl⟩

/-- The cache returns the offset of a steady zone. -/
theorem getOrComputeValue_right (hz : z.Steady) (h : range.Right z.offset) (hmin : minTimeT ≤ seconds)
    (hmax : seconds ≤ maxTimeT) : (range.getOrComputeValue seconds z.offset).1.Right z.offset ∧
      (range.getOrComputeValue seconds z.offset).2 = z.offset seconds := by
  unfold getOrComputeValue
  split_ifs with hcurrent hold
  · exact ⟨h, (h.current.eq hmin hcurrent.1 hcurrent.2).symm⟩
  · exact ⟨h, (h.old.eq hmin hold.1 hold.2).symm⟩
  · dsimp only
    have hmoved : Right z.offset
        { range with
          oldOffsetMilliseconds := range.offsetMilliseconds
          oldStartSeconds := range.startSeconds
          oldEndSeconds := range.endSeconds } := ⟨h.current, h.current⟩
    split_ifs with hstart
    · exact extendEnd_right hz hmoved hmin hmax (not_le.1 fun hend => hcurrent ⟨hstart, hend⟩)
    · exact extendStart_right hz hmoved hmin hmax (not_le.1 hstart)

end RangeCache

/-! ## The time zone that is in use -/

inductive TimeZoneStatus
  | Valid
  | NeedsUpdate
  | UpdateIfChanged
  deriving DecidableEq

inductive ResetTimeZoneMode
  | DontResetIfOffsetUnchanged
  | ResetEvenIfOffsetUnchanged
  deriving DecidableEq

/-- `timeZone_` is the default zone of ICU at the last update. -/
structure DateTimeInfo where
  timeZoneStatus_ : TimeZoneStatus
  utcToLocalStandardOffsetSeconds_ : ℤ
  timeZone_ : Zone
  localRange_ : RangeCache

namespace DateTimeInfo

def internalResetTimeZone (mode : ResetTimeZoneMode) (info : DateTimeInfo) : DateTimeInfo :=
  if info.timeZoneStatus_ = .NeedsUpdate then info
  else if mode = .ResetEvenIfOffsetUnchanged then { info with timeZoneStatus_ := .NeedsUpdate }
  else { info with timeZoneStatus_ := .UpdateIfChanged }

/-- The zone of the system is `system`. -/
def updateTimeZone (system : Zone) (info : DateTimeInfo) : DateTimeInfo :=
  let updateIfChanged := info.timeZoneStatus_ = .UpdateIfChanged
  let newOffset := system.standard
  if updateIfChanged ∧ newOffset = info.utcToLocalStandardOffsetSeconds_ then
    { info with timeZoneStatus_ := .Valid }
  else ⟨.Valid, newOffset, system, .reset⟩

def acquireLockWithValidTimeZone (system : Zone) (info : DateTimeInfo) : DateTimeInfo :=
  if info.timeZoneStatus_ = .Valid then info else info.updateTimeZone system

def toClampedSeconds (milliseconds : ℤ) : ℤ :=
  let seconds := milliseconds.tdiv 1000
  if maxTimeT < seconds then maxTimeT else if seconds < minTimeT then 86400 else seconds

/-- With `TimeZoneOffset::UTC`. -/
def internalGetOffsetMilliseconds (milliseconds : ℤ) (info : DateTimeInfo) : DateTimeInfo × ℤ :=
  let (range, offset) := info.localRange_.getOrComputeValue (toClampedSeconds milliseconds) info.timeZone_.offset
  ({ info with localRange_ := range }, offset)

/-- `LocalTime`, with the zone after it. -/
def localTime (t : ℤ) (info : DateTimeInfo) : DateTimeInfo × ℤ :=
  let (info, offset) := info.internalGetOffsetMilliseconds t
  (info, t + offset)

lemma toClampedSeconds_bounds (t : ℤ) : minTimeT ≤ toClampedSeconds t ∧ toClampedSeconds t ≤ maxTimeT := by
  unfold toClampedSeconds minTimeT maxTimeT
  dsimp only
  omega

end DateTimeInfo

def Zone.localTime (z : Zone) (t : ℤ) : ℤ := t + z.offset (DateTimeInfo.toClampedSeconds t)

end SpiderMonkey
