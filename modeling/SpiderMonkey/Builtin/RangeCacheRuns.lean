import SpiderMonkey.Builtin.DateTimeInfo
import SpiderMonkey.Lib.Checked

/-!
# The cache of offsets, with its checks

`getOrComputeValue` with what it asserts, over whole sequences of queries: with offsets that change at most once
in thirty days every query returns the offset at its time, and no check fails.
-/

namespace SpiderMonkey

open Checked

namespace RangeCache

/-! ## Times in 64 bits -/

def INT64_MIN : ℤ := -2 ^ 63

/-- The sum of two signed integers of 64 bits, which must not overflow. -/
def addInt64 (a b : ℤ) : Checked ℤ :=
  if -2 ^ 63 ≤ a + b ∧ a + b < 2 ^ 63 then return a + b else throw .undefinedBehavior

/-- Likewise the difference. -/
def subInt64 (a b : ℤ) : Checked ℤ :=
  if -2 ^ 63 ≤ a - b ∧ a - b < 2 ^ 63 then return a - b else throw .undefinedBehavior

/-- The function that computes an offset, which takes times in range only. -/
def compute (f : ℤ → ℤ) (seconds : ℤ) : Checked ℤ := do
  ensure (minTimeT ≤ seconds)
  ensure (seconds ≤ maxTimeT)
  return f seconds

/-- What is asserted of one range. -/
def assertRange (start stop : ℤ) : Checked Unit := do
  ensure (start ≤ stop)
  ensure (start = INT64_MIN → stop = INT64_MIN)
  ensure (stop = INT64_MIN → start = INT64_MIN)
  ensure (start ≠ INT64_MIN → minTimeT ≤ start ∧ minTimeT ≤ stop)
  ensure (start ≠ INT64_MIN → start ≤ maxTimeT ∧ stop ≤ maxTimeT)

variable (range : RangeCache)

def sanityCheck : Checked Unit := do
  assertRange range.startSeconds range.endSeconds
  assertRange range.oldStartSeconds range.oldEndSeconds

/-! ## A query -/

def extendEndChecked (seconds : ℤ) (f : ℤ → ℤ) : Checked (RangeCache × ℤ) := do
  let newEndSeconds := min (← addInt64 range.endSeconds rangeExpansionAmount) maxTimeT
  if seconds ≤ newEndSeconds then
    let endOffsetMilliseconds ← compute f newEndSeconds
    if endOffsetMilliseconds = range.offsetMilliseconds then
      return ({ range with endSeconds := newEndSeconds }, range.offsetMilliseconds)
    else
      let offset ← compute f seconds
      if offset = endOffsetMilliseconds then
        return ({ range with offsetMilliseconds := offset, startSeconds := seconds, endSeconds := newEndSeconds },
          offset)
      else return ({ range with offsetMilliseconds := offset, endSeconds := seconds }, offset)
  else
    let offset ← compute f seconds
    return ({ range with offsetMilliseconds := offset, startSeconds := seconds, endSeconds := seconds }, offset)

def extendStartChecked (seconds : ℤ) (f : ℤ → ℤ) : Checked (RangeCache × ℤ) := do
  let newStartSeconds := max (← subInt64 range.startSeconds rangeExpansionAmount) minTimeT
  if newStartSeconds ≤ seconds then
    let startOffsetMilliseconds ← compute f newStartSeconds
    if startOffsetMilliseconds = range.offsetMilliseconds then
      return ({ range with startSeconds := newStartSeconds }, range.offsetMilliseconds)
    else
      let offset ← compute f seconds
      if offset = startOffsetMilliseconds then
        return ({ range with offsetMilliseconds := offset, startSeconds := newStartSeconds, endSeconds := seconds },
          offset)
      else return ({ range with offsetMilliseconds := offset, startSeconds := seconds }, offset)
  else
    let offset ← compute f seconds
    return ({ range with offsetMilliseconds := offset, startSeconds := seconds, endSeconds := seconds }, offset)

/-- The body of `getOrComputeValue`, between the checks at its entry and at its exit. -/
def lookUp (seconds : ℤ) (f : ℤ → ℤ) : Checked (RangeCache × ℤ) :=
  if range.startSeconds ≤ seconds ∧ seconds ≤ range.endSeconds then return (range, range.offsetMilliseconds)
  else if range.oldStartSeconds ≤ seconds ∧ seconds ≤ range.oldEndSeconds then
    return (range, range.oldOffsetMilliseconds)
  else
    let range :=
      { range with
        oldOffsetMilliseconds := range.offsetMilliseconds
        oldStartSeconds := range.startSeconds
        oldEndSeconds := range.endSeconds }
    if range.startSeconds ≤ seconds then range.extendEndChecked seconds f else range.extendStartChecked seconds f

def getOrComputeValueChecked (seconds : ℤ) (f : ℤ → ℤ) : Checked (RangeCache × ℤ) := do
  range.sanityCheck
  ensure (seconds ≠ INT64_MIN)
  let result ← range.lookUp seconds f
  result.1.sanityCheck
  return result

/-- Queries one after the other, with their answers. -/
def answers (f : ℤ → ℤ) : RangeCache → List ℤ → Checked (List ℤ)
  | _, [] => return []
  | range, seconds :: rest => do
    let (range, offset) ← range.getOrComputeValueChecked seconds f
    return offset :: (← answers f range rest)

def answersFromReset (f : ℤ → ℤ) (queries : List ℤ) : Checked (List ℤ) := do
  reset.sanityCheck
  answers f reset queries

/-! ## Offsets that change rarely -/

/-- The offset at a time in range is another one than a second before. -/
def ChangePoint (f : ℤ → ℤ) (x : ℤ) : Prop := minTimeT < x ∧ x ≤ maxTimeT ∧ f x ≠ f (x - 1)

def ChangesApart (f : ℤ → ℤ) : Prop :=
  ∀ x y, ChangePoint f x → ChangePoint f y → x < y → rangeExpansionAmount ≤ y - x

/-- The closest time in range. -/
def clamp (x : ℤ) : ℤ := max minTimeT (min x maxTimeT)

/-- The zone whose offset out of range is the closest one in range. -/
def zone (f : ℤ → ℤ) : Zone := ⟨fun x => f (clamp x), 0⟩

lemma clamp_eq {x : ℤ} (hmin : minTimeT ≤ x) (hmax : x ≤ maxTimeT) : clamp x = x := by
  unfold clamp
  omega

lemma clamp_bounds (x : ℤ) : minTimeT ≤ clamp x ∧ clamp x ≤ maxTimeT := by
  unfold clamp minTimeT maxTimeT
  omega

lemma exists_changePoint {f : ℤ → ℤ} {u v : ℤ} (huv : u ≤ v) (hu : minTimeT ≤ u) (hv : v ≤ maxTimeT)
    (h : f v ≠ f u) : ∃ x, u < x ∧ x ≤ v ∧ ChangePoint f x := by
  induction v, huv using Int.le_induction with
  | base => exact absurd rfl h
  | succ v huv ih =>
    by_cases hlast : f (v + 1) = f v
    · obtain ⟨x, hux, hxv, hx⟩ := ih (by omega) (by rwa [← hlast])
      exact ⟨x, hux, by omega, hx⟩
    · exact ⟨v + 1, by omega, le_rfl, by omega, hv, by simpa using hlast⟩

/-- In thirty days there is one change at most. -/
lemma steady_zone {f : ℤ → ℤ} (hf : ChangesApart f) : (zone f).Steady := by
  intro a x b hax hxb hb
  by_contra! hne
  obtain ⟨hxa, hxb'⟩ := hne
  have hfirst : clamp a ≤ clamp x := by unfold clamp; omega
  have hsecond : clamp x ≤ clamp b := by unfold clamp; omega
  have hshort : clamp b ≤ clamp a + rangeExpansionAmount := by unfold clamp rangeExpansionAmount at *; omega
  obtain ⟨u, hau, hux, hu⟩ := exists_changePoint hfirst (clamp_bounds a).1 (clamp_bounds x).2 hxa
  obtain ⟨v, hxv, hvb, hv⟩ := exists_changePoint hsecond (clamp_bounds x).1 (clamp_bounds b).2 (Ne.symm hxb')
  have := hf u v hu hv (by omega)
  omega

/-! ## Sane ranges -/

/-- A range is the initial one, or it is a range of times. -/
def Sane (start stop : ℤ) : Prop :=
  start = INT64_MIN ∧ stop = INT64_MIN ∨ minTimeT ≤ start ∧ start ≤ stop ∧ stop ≤ maxTimeT

structure Safe (range : RangeCache) : Prop where
  current : Sane range.startSeconds range.endSeconds
  old : Sane range.oldStartSeconds range.oldEndSeconds

lemma safe_reset : reset.Safe := ⟨.inl ⟨rfl, rfl⟩, .inl ⟨rfl, rfl⟩⟩

lemma assertRange_eq {start stop : ℤ} (h : Sane start stop) : assertRange start stop = .ok () := by
  have hmin : INT64_MIN < minTimeT := by norm_num [INT64_MIN, minTimeT]
  obtain ⟨hstart, hstop⟩ | ⟨hstart, hle, hstop⟩ := h
  · simp [assertRange, ensure, hstart, hstop]
    rfl
  · have hne : start ≠ INT64_MIN := by omega
    have hne' : stop ≠ INT64_MIN := by omega
    have hboth : minTimeT ≤ stop ∧ start ≤ maxTimeT := by omega
    simp [assertRange, ensure, hne, hne', hstart, hle, hstop, hboth]
    rfl

lemma Safe.sanityCheck_eq {range : RangeCache} (h : range.Safe) : range.sanityCheck = .ok () := by
  rw [sanityCheck, assertRange_eq h.current, assertRange_eq h.old]
  rfl

lemma compute_eq {f : ℤ → ℤ} {x : ℤ} (hmin : minTimeT ≤ x) (hmax : x ≤ maxTimeT) :
    compute f x = .ok ((zone f).offset x) := by
  simp [compute, ensure, hmin, hmax, zone, clamp_eq hmin hmax]
  rfl

variable {f : ℤ → ℤ} {range : RangeCache} {seconds : ℤ}

/-! ## The checks of a query -/

/-- No check fails while the range is extended behind its end, and the range stays sane. -/
lemma extendEndChecked_eq (h : range.Safe) (hmin : minTimeT ≤ seconds) (hmax : seconds ≤ maxTimeT)
    (hend : range.endSeconds < seconds) :
    range.extendEndChecked seconds f = .ok (range.extendEnd seconds (zone f).offset) ∧
      (range.extendEnd seconds (zone f).offset).1.Safe := by
  have hadd : addInt64 range.endSeconds rangeExpansionAmount = .ok (range.endSeconds + rangeExpansionAmount) := by
    refine if_pos ?_
    obtain ⟨-, hstop⟩ | ⟨hstart, hle, hstop⟩ := h.current <;>
    norm_num [INT64_MIN, rangeExpansionAmount, minTimeT, maxTimeT] at * <;> omega
  have hself := compute_eq (f := f) hmin hmax
  unfold extendEndChecked extendEnd
  rw [hadd]
  dsimp only [bind, Except.bind]
  by_cases hnew : seconds ≤ min (range.endSeconds + rangeExpansionAmount) maxTimeT
  · have hstart : minTimeT ≤ range.startSeconds ∧ range.startSeconds ≤ range.endSeconds := by
      obtain ⟨-, hstop⟩ | ⟨hstart, hle, -⟩ := h.current
      · norm_num [INT64_MIN, rangeExpansionAmount, minTimeT, maxTimeT] at *
        omega
      · omega
    have hnewEnd := compute_eq (f := f) (x := min (range.endSeconds + rangeExpansionAmount) maxTimeT)
      (by omega) (by omega)
    have hbehind : range.startSeconds ≤ seconds := hstart.2.trans hend.le
    rw [if_pos hnew, if_pos hnew, hnewEnd]
    dsimp only
    split_ifs with hsame hother
    · exact ⟨rfl, .inr ⟨hstart.1, hbehind.trans hnew, min_le_right _ _⟩, h.old⟩
    · rw [hself]
      simp only [hother, if_true]
      exact ⟨rfl, .inr ⟨hmin, hnew, min_le_right _ _⟩, h.old⟩
    · rw [hself]
      simp only [hother, if_false]
      exact ⟨rfl, .inr ⟨hstart.1, hbehind, hmax⟩, h.old⟩
  · rw [if_neg hnew, if_neg hnew, hself]
    exact ⟨rfl, .inr ⟨hmin, le_rfl, hmax⟩, h.old⟩

/-- Likewise in front of its start. -/
lemma extendStartChecked_eq (h : range.Safe) (hmin : minTimeT ≤ seconds) (hmax : seconds ≤ maxTimeT)
    (hstart : seconds < range.startSeconds) :
    range.extendStartChecked seconds f = .ok (range.extendStart seconds (zone f).offset) ∧
      (range.extendStart seconds (zone f).offset).1.Safe := by
  obtain ⟨hfirst, hle, hlast⟩ : minTimeT ≤ range.startSeconds ∧ range.startSeconds ≤ range.endSeconds ∧
      range.endSeconds ≤ maxTimeT := by
    obtain ⟨hinitial, -⟩ | hbounds := h.current
    · norm_num [INT64_MIN, minTimeT] at *
      omega
    · exact hbounds
  have hsub : subInt64 range.startSeconds rangeExpansionAmount = .ok (range.startSeconds - rangeExpansionAmount) := by
    refine if_pos ?_
    norm_num [rangeExpansionAmount, minTimeT, maxTimeT] at *
    omega
  have hself := compute_eq (f := f) hmin hmax
  unfold extendStartChecked extendStart
  rw [hsub]
  dsimp only [bind, Except.bind]
  by_cases hnew : max (range.startSeconds - rangeExpansionAmount) minTimeT ≤ seconds
  · have hnewStart := compute_eq (f := f) (x := max (range.startSeconds - rangeExpansionAmount) minTimeT)
      (le_max_right _ _) (hnew.trans hmax)
    have hfront : seconds ≤ range.endSeconds := hstart.le.trans hle
    rw [if_pos hnew, if_pos hnew, hnewStart]
    dsimp only
    split_ifs with hsame hother
    · exact ⟨rfl, .inr ⟨le_max_right _ _, hnew.trans hfront, hlast⟩, h.old⟩
    · rw [hself]
      simp only [hother, if_true]
      exact ⟨rfl, .inr ⟨le_max_right _ _, hnew, hmax⟩, h.old⟩
    · rw [hself]
      simp only [hother, if_false]
      exact ⟨rfl, .inr ⟨hmin, hfront, hlast⟩, h.old⟩
  · rw [if_neg hnew, if_neg hnew, hself]
    exact ⟨rfl, .inr ⟨hmin, le_rfl, hmax⟩, h.old⟩

/-- A query in range passes all checks, and it does what the query without them does. -/
lemma getOrComputeValueChecked_eq (h : range.Safe) (hmin : minTimeT ≤ seconds) (hmax : seconds ≤ maxTimeT) :
    range.getOrComputeValueChecked seconds f = .ok (range.getOrComputeValue seconds (zone f).offset) ∧
      (range.getOrComputeValue seconds (zone f).offset).1.Safe := by
  have hne : seconds ≠ INT64_MIN := by
    norm_num [INT64_MIN, minTimeT] at *
    omega
  suffices hquery : ∃ result, range.lookUp seconds f = .ok result ∧
      result = range.getOrComputeValue seconds (zone f).offset ∧ result.1.Safe by
    obtain ⟨result, hresult, rfl, hsafe⟩ := hquery
    refine ⟨?_, hsafe⟩
    rw [getOrComputeValueChecked, h.sanityCheck_eq, ensure, if_pos hne, hresult]
    dsimp only [bind, Except.bind, pure, Except.pure]
    rw [hsafe.sanityCheck_eq]
  unfold lookUp getOrComputeValue
  split_ifs with hcurrent hold
  · exact ⟨_, rfl, rfl, h⟩
  · exact ⟨_, rfl, rfl, h⟩
  · dsimp only
    have hmoved : Safe
        { range with
          oldOffsetMilliseconds := range.offsetMilliseconds
          oldStartSeconds := range.startSeconds
          oldEndSeconds := range.endSeconds } := ⟨h.current, h.current⟩
    split_ifs with hstart
    · obtain ⟨heq, hsafe⟩ := extendEndChecked_eq (f := f) hmoved hmin hmax
        (not_le.1 fun hend => hcurrent ⟨hstart, hend⟩)
      simp [heq, hsafe]
    · obtain ⟨heq, hsafe⟩ := extendStartChecked_eq (f := f) hmoved hmin hmax (not_le.1 hstart)
      simp [heq, hsafe]

/-! ## Runs -/

lemma answers_right (hf : ChangesApart f) (queries : List ℤ)
    (hqueries : ∀ seconds ∈ queries, minTimeT ≤ seconds ∧ seconds ≤ maxTimeT) (hsafe : range.Safe)
    (hright : range.Right (zone f).offset) : answers f range queries = .ok (queries.map f) := by
  induction queries generalizing range with
  | nil => rfl
  | cons seconds rest ih =>
    obtain ⟨⟨hmin, hmax⟩, hrest⟩ := List.forall_mem_cons.1 hqueries
    obtain ⟨heq, hsafe'⟩ := getOrComputeValueChecked_eq (f := f) hsafe hmin hmax
    obtain ⟨hright', hoffset⟩ := getOrComputeValue_right (steady_zone hf) hright hmin hmax
    have hvalue : (zone f).offset seconds = f seconds := by simp [zone, clamp_eq hmin hmax]
    rw [answers, heq]
    dsimp only [bind, Except.bind]
    rw [ih hrest hsafe' hright', hoffset, hvalue]
    rfl

/-- After a reset every query returns the offset at its time; no assertion fails, and nothing overflows. -/
theorem answersFromReset_right (f : ℤ → ℤ) (hf : ChangesApart f) (queries : List ℤ)
    (hqueries : ∀ seconds ∈ queries, minTimeT ≤ seconds ∧ seconds ≤ maxTimeT) :
    answersFromReset f queries = .ok (queries.map f) := by
  rw [answersFromReset, safe_reset.sanityCheck_eq]
  exact answers_right hf queries hqueries safe_reset (right_reset _)

/-- The offset of a zone that changes once, asked around the change and far from it. -/
theorem answersFromReset_right_once :
    answersFromReset (fun x => if x < 1000 then 0 else 3600000) [0, 999, 1000, 5000000, -8640000000000, 1000] =
      .ok [0, 0, 3600000, 3600000, 0, 3600000] := by
  have hpoint : ∀ x, ChangePoint (fun x => if x < 1000 then 0 else 3600000) x → x = 1000 := by
    intro x hx
    have hne := hx.2.2
    dsimp only at hne
    split_ifs at hne <;> omega
  refine answersFromReset_right _ ?_ _ ?_
  · intro x y hx hy hxy
    have := hpoint x hx
    have := hpoint y hy
    omega
  · simp [minTimeT, maxTimeT]

end RangeCache

end SpiderMonkey
