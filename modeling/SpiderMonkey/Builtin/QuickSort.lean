import SpiderMonkey.Builtin.MergeSortSound

/-!
# Quick sort

The pivot is the median of three elements, and two of them keep the scans of the partition within the range.  A scan
that gets out of it has no result here.
-/

namespace SpiderMonkey.Sorting

variable {α σ : Type*} (comparefn : Comparator α (Store α σ))

def swapArrayElements (s : Store α σ) (i j : ℕ) : Store α σ :=
  (s.set .given i (s.get .given j)).set .given j (s.get .given i)

def swapIfGreater (i j : ℕ) (s : Store α σ) : Option (Store α σ) :=
  match comparefn (s.get .given i) (s.get .given j) s with
  | none => none
  | some (order, s) => some (if 0 < order then swapArrayElements s i j else s)

/-- `do i++; while (comparefn(array[i], array[pivotIndex]) < 0);` -/
def scanUp (to_ pivotIndex i : ℕ) (s : Store α σ) : Option (ℕ × Store α σ) :=
  if i + 1 ≤ to_ then
    match comparefn (s.get .given (i + 1)) (s.get .given pivotIndex) s with
    | none => none
    | some (order, s) => if order < 0 then scanUp to_ pivotIndex (i + 1) s else some (i + 1, s)
  else none
termination_by to_ - i

/-- `do j--; while (comparefn(array[j], array[pivotIndex]) > 0);` -/
def scanDown (from_ pivotIndex : ℕ) : ℕ → Store α σ → Option (ℕ × Store α σ)
  | 0, _ => none
  | j + 1, s =>
    if from_ ≤ j then
      match comparefn (s.get .given j) (s.get .given pivotIndex) s with
      | none => none
      | some (order, s) => if 0 < order then scanDown from_ pivotIndex j s else some (j, s)
    else none

variable {comparefn} in
lemma scanDown_lt {from_ pivotIndex j j' : ℕ} {s s' : Store α σ}
    (h : scanDown comparefn from_ pivotIndex j s = some (j', s')) : j' < j := by
  induction j generalizing s with
  | zero => cases h
  | succ j ih =>
    rw [scanDown] at h
    split_ifs at h
    cases hcompare : comparefn (s.get .given j) (s.get .given pivotIndex) s with
    | none =>
      simp [hcompare] at h
    | some result =>
      rw [hcompare] at h
      dsimp only at h
      split_ifs at h
      · exact (ih h).trans (Nat.lt_succ_self j)
      · obtain ⟨rfl, -⟩ := Prod.mk.inj (Option.some.inj h)
        exact Nat.lt_succ_self j

def hoareLoop (from_ to_ pivotIndex i j : ℕ) (s : Store α σ) : Option (ℕ × Store α σ) :=
  match scanUp comparefn to_ pivotIndex i s with
  | none => none
  | some (i, s) =>
    match hscan : scanDown comparefn from_ pivotIndex j s with
    | none => none
    | some (j', s) =>
      if j' < i then some (j', s) else hoareLoop from_ to_ pivotIndex i j' (swapArrayElements s i j')
termination_by j
decreasing_by exact scanDown_lt hscan

def partition (from_ to_ : ℕ) (s : Store α σ) : Option (ℕ × Store α σ) := do
  let medianIndex := from_ + (to_ - from_) / 2
  let i := from_ + 1
  let s := swapArrayElements s medianIndex i
  let s ← swapIfGreater comparefn from_ to_ s
  let s ← swapIfGreater comparefn i to_ s
  let s ← swapIfGreater comparefn from_ i s
  let (j, s) ← hoareLoop comparefn from_ to_ i i to_ s
  some (j, swapArrayElements s i j)

/-- The starts and ends of the ranges that are left to be sorted are on the stack.  Each round of the loop uses one
unit of fuel. -/
def quickSortLoop : ℕ → List (ℕ × ℕ) → ℕ → ℕ → Store α σ → Option (Store α σ)
  | 0, _, _, _, _ => none
  | fuel + 1, stack, start, end_, s =>
    if end_ - start ≤ 23 then do
      let s ← insertionSort comparefn .given start end_ s
      match stack with
      | [] => some s
      | (start, end_) :: stack => quickSortLoop fuel stack start end_ s
    else do
      let (pivotIndex, s) ← partition comparefn start end_ s
      let leftLen := pivotIndex - 1 - start
      let rightLen := end_ - (pivotIndex + 1)
      if leftLen < rightLen then quickSortLoop fuel ((start, pivotIndex - 1) :: stack) (pivotIndex + 1) end_ s
      else quickSortLoop fuel ((pivotIndex + 1, end_) :: stack) start (pivotIndex - 1) s

def quickSort (fuel len : ℕ) (s : Store α σ) : Option (Store α σ) := quickSortLoop comparefn fuel [] 0 (len - 1) s

end SpiderMonkey.Sorting
