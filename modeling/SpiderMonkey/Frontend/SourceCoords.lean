import Mathlib.Tactic

/-!
# Source coordinates

The starts of the lines of a source text, in order, before a sentinel.  The search for the line of an offset
starts from the result of the last search; what it finds does not depend on it (`SourceCoords.onLine`), and
it agrees with the test whether an offset is on a line (`SourceCoords.isOnThisLine_iff`).
-/

namespace SpiderMonkey.Frontend

def MAX_PTR : ℕ := 2 ^ 32 - 1

structure SourceCoords where
  lineStartOffsets : List ℕ
  initialLineNum : ℕ
  sorted : lineStartOffsets.Pairwise (· < ·)
  two_le : 2 ≤ lineStartOffsets.length
  sentinel : lineStartOffsets[lineStartOffsets.length - 1]? = some MAX_PTR

namespace SourceCoords

variable (coords : SourceCoords)

def start (index : ℕ) : ℕ := coords.lineStartOffsets.getD index 0

def lineNumberFromIndex (index : ℕ) : ℕ := (index + coords.initialLineNum) % 2 ^ 32

def indexFromLineNumber (lineNum : ℕ) : ℕ := (lineNum + 2 ^ 32 - coords.initialLineNum) % 2 ^ 32

/-- Whether the offset is on the line, if the line is known. -/
def isOnThisLine (offset lineNum : ℕ) : Option Bool :=
  let index := coords.indexFromLineNumber lineNum
  if coords.lineStartOffsets.length ≤ (index + 1) % 2 ^ 32 then none
  else
    coords.lineStartOffsets[index]?.bind fun start =>
      coords.lineStartOffsets[index + 1]?.map fun next => decide (start ≤ offset) && decide (offset < next)

/-- The binary search. -/
def search (offset iMin iMax : ℕ) : ℕ :=
  if iMin < iMax then
    let iMid := iMin + (iMax - iMin) / 2
    if coords.start (iMid + 1) ≤ offset then search offset (iMid + 1) iMax
    else search offset iMin iMid
  else iMin
termination_by iMax - iMin

def indexFromOffset (lastIndex offset : ℕ) : ℕ :=
  if coords.start lastIndex ≤ offset then
    if offset < coords.start (lastIndex + 1) then lastIndex
    else if offset < coords.start (lastIndex + 2) then lastIndex + 1
    else if offset < coords.start (lastIndex + 3) then lastIndex + 2
    else coords.search offset (lastIndex + 3) (coords.lineStartOffsets.length - 2)
  else coords.search offset 0 (coords.lineStartOffsets.length - 2)

/-- The offset is in the text. -/
def Has (offset : ℕ) : Prop := coords.start 0 ≤ offset ∧ offset < MAX_PTR

instance (offset : ℕ) : Decidable (coords.Has offset) := inferInstanceAs (Decidable (_ ∧ _))

structure OnLine (offset index : ℕ) : Prop where
  lt : index + 1 < coords.lineStartOffsets.length
  le : coords.start index ≤ offset
  lt_next : offset < coords.start (index + 1)

variable {coords} {offset index iMin iMax lastIndex lineNum : ℕ}

lemma start_eq (h : index < coords.lineStartOffsets.length) :
    coords.lineStartOffsets[index]? = some (coords.start index) := by
  simp [start, List.getElem?_eq_getElem h]

lemma start_lt {i j : ℕ} (hij : i < j) (hj : j < coords.lineStartOffsets.length) : coords.start i < coords.start j := by
  have hlt := List.pairwise_iff_getElem.1 coords.sorted i j (hij.trans hj) hj hij
  have hi := start_eq (hij.trans hj)
  have hj' := start_eq hj
  rw [List.getElem?_eq_getElem (hij.trans hj), Option.some.injEq] at hi
  rw [List.getElem?_eq_getElem hj, Option.some.injEq] at hj'
  rwa [hi, hj'] at hlt

lemma start_le {i j : ℕ} (hij : i ≤ j) (hj : j < coords.lineStartOffsets.length) : coords.start i ≤ coords.start j := by
  obtain rfl | hlt := hij.eq_or_lt
  · exact le_rfl
  · exact (start_lt hlt hj).le

lemma start_sentinel : coords.start (coords.lineStartOffsets.length - 1) = MAX_PTR := by
  have hlt : coords.lineStartOffsets.length - 1 < coords.lineStartOffsets.length := by
    have := coords.two_le
    omega
  exact Option.some.inj ((start_eq hlt).symm.trans coords.sentinel)

lemma OnLine.unique {index' : ℕ} (h : coords.OnLine offset index) (h' : coords.OnLine offset index') :
    index = index' := by
  have hle {i j : ℕ} (hi : coords.OnLine offset i) (hj : coords.OnLine offset j) : i ≤ j := by
    by_contra hlt
    have hle : coords.start (j + 1) ≤ coords.start i := start_le (not_le.1 hlt) (Nat.lt_of_succ_lt hi.lt)
    exact absurd hj.lt_next (not_lt.2 (hle.trans hi.le))
  exact le_antisymm (hle h h') (hle h' h)

lemma search_onLine (hle : iMin ≤ iMax) (hmax : iMax + 1 < coords.lineStartOffsets.length)
    (hstart : coords.start iMin ≤ offset) (hnext : offset < coords.start (iMax + 1)) :
    coords.OnLine offset (coords.search offset iMin iMax) := by
  fun_induction search coords offset iMin iMax with
  | case1 iMin iMax hlt iMid hmid ih => exact ih (by omega) hmax hmid hnext
  | case2 iMin iMax hlt iMid hmid ih => exact ih (by omega) (by omega) hstart (not_le.1 hmid)
  | case3 iMin iMax hlt =>
    obtain rfl := le_antisymm hle (not_lt.1 hlt)
    exact ⟨hmax, hstart, hnext⟩

/-- An offset that is in the text but not before a line's end is not on the last line. -/
lemma lt_of_start_le (hoffset : coords.Has offset) (hindex : index < coords.lineStartOffsets.length)
    (hle : coords.start index ≤ offset) : index + 1 < coords.lineStartOffsets.length := by
  by_contra hlast
  have heq : index = coords.lineStartOffsets.length - 1 := by omega
  rw [heq, start_sentinel] at hle
  exact absurd hoffset.2 (not_lt.2 hle)

theorem onLine (hoffset : coords.Has offset) (hlast : lastIndex + 1 < coords.lineStartOffsets.length) :
    coords.OnLine offset (coords.indexFromOffset lastIndex offset) := by
  have hend : offset < coords.start (coords.lineStartOffsets.length - 2 + 1) := by
    have heq : coords.lineStartOffsets.length - 2 + 1 = coords.lineStartOffsets.length - 1 := by omega
    rw [heq, start_sentinel]
    exact hoffset.2
  unfold indexFromOffset
  split_ifs with h₀ h₁ h₂ h₃
  · exact ⟨hlast, h₀, h₁⟩
  · exact ⟨lt_of_start_le hoffset hlast (not_lt.1 h₁), not_lt.1 h₁, h₂⟩
  · have hlt₁ := lt_of_start_le hoffset hlast (not_lt.1 h₁)
    exact ⟨lt_of_start_le hoffset hlt₁ (not_lt.1 h₂), not_lt.1 h₂, h₃⟩
  · have hlt₁ := lt_of_start_le hoffset hlast (not_lt.1 h₁)
    have hlt₂ := lt_of_start_le hoffset hlt₁ (not_lt.1 h₂)
    have hlt₃ := lt_of_start_le hoffset hlt₂ (not_lt.1 h₃)
    exact search_onLine (by omega) (by omega) (not_lt.1 h₃) hend
  · exact search_onLine (Nat.zero_le _) (by omega) hoffset.1 hend

lemma indexFromOffset_zero (hoffset : coords.Has offset) (hlast : lastIndex + 1 < coords.lineStartOffsets.length) :
    coords.indexFromOffset lastIndex offset = coords.indexFromOffset 0 offset :=
  (onLine hoffset hlast).unique (onLine hoffset (by have := coords.two_le; omega))

variable (coords) in
def lineAt (offset : ℕ) : ℕ := coords.lineNumberFromIndex (coords.indexFromOffset 0 offset)

lemma onLine_zero (hoffset : coords.Has offset) : coords.OnLine offset (coords.indexFromOffset 0 offset) :=
  onLine hoffset (by have := coords.two_le; omega)

/-- The numbers of the lines are small. -/
lemma lineAt_lt (hlines : coords.initialLineNum + coords.lineStartOffsets.length ≤ 2 ^ 31 + 1) (hoffset : coords.Has offset) :
    coords.lineAt offset < 2 ^ 31 := by
  have hline := (onLine_zero hoffset).lt
  rw [lineAt, lineNumberFromIndex, Nat.mod_eq_of_lt (by omega)]
  omega

/-- If the line is known, the test agrees with the search. -/
theorem isOnThisLine_iff (hlines : coords.initialLineNum + coords.lineStartOffsets.length ≤ 2 ^ 31 + 1)
    (hoffset : coords.Has offset) (hline : lineNum < 2 ^ 32) {onThisLine : Bool}
    (h : coords.isOnThisLine offset lineNum = some onThisLine) :
    lineNum < 2 ^ 31 ∧ (onThisLine = true ↔ coords.lineAt offset = lineNum) := by
  have hon := onLine_zero hoffset
  have hlt := hon.lt
  unfold isOnThisLine at h
  dsimp only at h
  split_ifs at h with hknown
  generalize hindex : coords.indexFromLineNumber lineNum = index at h hknown
  have hidx : index < coords.lineStartOffsets.length := by
    by_contra hge
    simp [List.getElem?_eq_none (not_lt.1 hge)] at h
  have hidx' : index + 1 < coords.lineStartOffsets.length := by
    rw [Nat.mod_eq_of_lt (by omega)] at hknown
    omega
  rw [start_eq hidx, start_eq hidx'] at h
  cases h
  have hnum : lineNum = index + coords.initialLineNum := by
    rw [indexFromLineNumber] at hindex
    omega
  refine ⟨by omega, ?_⟩
  rw [Bool.and_eq_true, decide_eq_true_eq, decide_eq_true_eq, lineAt, lineNumberFromIndex, Nat.mod_eq_of_lt (by omega)]
  constructor
  · rintro ⟨hle, hnext⟩
    have := hon.unique ⟨hidx', hle, hnext⟩
    omega
  · intro heq
    obtain rfl : coords.indexFromOffset 0 offset = index := by omega
    exact ⟨hon.le, hon.lt_next⟩

end SourceCoords

end SpiderMonkey.Frontend
