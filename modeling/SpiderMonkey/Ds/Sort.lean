import SpiderMonkey.Builtin.MergeSortSound

/-!
# Merge sort of an array with a scratch array

`js::MergeSort` in `ds/Sort.h`.  Each access is checked against the size of the two arrays.  No access fails, and
what is left of the sort is the sort of lists: it merges in the same way, and a swap for each step of an insertion
has the same effect as moving the others out of the way.
-/

namespace SpiderMonkey.ArraySort

open Sorting StableSort

universe u

variable {α σ : Type u}

/-- Whether the first element may come before the second one, or `none` if the comparator fails. -/
abbrev LessOrEqual (α σ : Type u) := α → α → σ → Option (Bool × σ)

inductive Stop
  | comparatorFailed
  | outOfBounds
  deriving DecidableEq

/-! ## The code

The arrays are `Buffer.given` and `Buffer.scratch`, and pointers are places in them. -/

section Code

variable (c : LessOrEqual α σ) (nelems : ℕ)

def read (b : Buffer) (i : ℕ) (s : Store α σ) : Except Stop α :=
  if i < nelems then .ok (s.get b i) else .error .outOfBounds

def write (b : Buffer) (i : ℕ) (value : α) (s : Store α σ) : Except Stop (Store α σ) :=
  if i < nelems then .ok (s.set b i value) else .error .outOfBounds

def compare (x y : α) (s : Store α σ) : Except Stop (Bool × Store α σ) :=
  match c x y s.world with
  | none => .error .comparatorFailed
  | some (lessOrEqual, world) => .ok (lessOrEqual, { s with world := world })

/-- Without elements, the loop would not find the end. -/
def copyNonEmptyArray (out : Buffer) (dst : ℕ) (list : Buffer) (src : ℕ) : ℕ → Store α σ → Except Stop (Store α σ)
  | 0, _ => .error .outOfBounds
  | count + 1, s => do
    let value ← read nelems list src s
    let s ← write nelems out dst value s
    if count = 0 then .ok s else copyNonEmptyArray out (dst + 1) list (src + 1) count s

/-- The loop over `*a` and `*b` ends with one of the runs; `dst`, `src` and the number of elements that are left are
returned. -/
def mergeLoop (out list : Buffer) (dst a run1 b run2 : ℕ) (s : Store α σ) : Except Stop (ℕ × ℕ × ℕ × Store α σ) := do
  let x ← read nelems list a s
  let y ← read nelems list b s
  let (lessOrEqual, s) ← compare c x y s
  if lessOrEqual then
    let s ← write nelems out dst x s
    if run1 - 1 = 0 then .ok (dst + 1, b, run2, s) else mergeLoop out list (dst + 1) (a + 1) (run1 - 1) b run2 s
  else
    let s ← write nelems out dst y s
    if run2 - 1 = 0 then .ok (dst + 1, a, run1, s) else mergeLoop out list (dst + 1) a run1 (b + 1) (run2 - 1) s
termination_by run1 + run2

def mergeArrayRuns (out : Buffer) (dst : ℕ) (list : Buffer) (src run1 run2 : ℕ) (s : Store α σ) :
    Except Stop (Store α σ) := do
  let x ← read nelems list (src + run1 - 1) s
  let y ← read nelems list (src + run1) s
  let (lessOrEqual, s) ← compare c x y s
  if lessOrEqual then copyNonEmptyArray nelems out dst list src (run1 + run2) s
  else
    let (dst, src, count, s) ← mergeLoop c nelems out list dst src run1 (src + run1) run2 s
    copyNonEmptyArray nelems out dst list src count s

/-- The element at `j` is swapped with those before it. -/
def insertLoop (list : Buffer) (lo : ℕ) : ℕ → Store α σ → Except Stop (Store α σ)
  | 0, _ => .error .outOfBounds
  | j + 1, s => do
    let x ← read nelems list j s
    let y ← read nelems list (j + 1) s
    let (lessOrEqual, s) ← compare c x y s
    if lessOrEqual then .ok s
    else
      let s ← write nelems list j y s
      let s ← write nelems list (j + 1) x s
      if j = lo then .ok s else insertLoop list lo j s

/-- The loop while `i != hi`; beyond `hi`, it would leave the array. -/
def chunkLoop (list : Buffer) (lo hi i : ℕ) (s : Store α σ) : Except Stop (Store α σ) :=
  if i = hi then .ok s
  else if i < hi then do
    let s ← insertLoop c nelems list lo i s
    chunkLoop list lo hi (i + 1) s
  else .error .outOfBounds
termination_by hi - i

def insertionSortChunks (list : Buffer) (lo : ℕ) (s : Store α σ) : Except Stop (Store α σ) :=
  if lo < nelems then do
    let hi := if nelems ≤ lo + 3 then nelems else lo + 3
    let s ← chunkLoop c nelems list lo hi (lo + 1) s
    insertionSortChunks list (lo + 3) s
  else .ok s
termination_by nelems - lo

def mergeRuns (vec1 vec2 : Buffer) (run : ℕ+) (lo : ℕ) (s : Store α σ) : Except Stop (Store α σ) :=
  if lo < nelems then
    let hi := lo + run
    if nelems ≤ hi then copyNonEmptyArray nelems vec2 lo vec1 lo (nelems - lo) s
    else do
      let run2 := if run ≤ nelems - hi then (run : ℕ) else nelems - hi
      let s ← mergeArrayRuns c nelems vec2 lo vec1 lo run run2 s
      mergeRuns vec1 vec2 run (lo + 2 * run) s
  else .ok s
termination_by nelems - lo
decreasing_by
  have hpos := run.pos
  omega

/-- `vec1` is returned, too. -/
def mergePasses (vec1 vec2 : Buffer) (run : ℕ+) (s : Store α σ) : Except Stop (Buffer × Store α σ) :=
  if run < nelems then do
    let s ← mergeRuns c nelems vec1 vec2 run 0 s
    mergePasses vec2 vec1 (2 * run) s
  else .ok (vec1, s)
termination_by nelems - run
decreasing_by
  have hpos := run.pos
  rw [PNat.mul_coe, PNat.val_ofNat]
  omega

def mergeSort (s : Store α σ) : Except Stop (Store α σ) :=
  if nelems ≤ 1 then .ok s
  else do
    let s ← insertionSortChunks c nelems .given 0 s
    -- Runs of three elements are sorted.
    let (vec1, s) ← mergePasses c nelems .given .scratch (Nat.succPNat 2) s
    if vec1 = .scratch then copyNonEmptyArray nelems .given 0 .scratch 0 nelems s else .ok s

end Code

/-! ## The sort of lists -/

/-- The comparator as one that returns a number. -/
def comparefn (c : LessOrEqual α σ) : Comparator α σ := fun x y w =>
  (c x y w).map fun (lessOrEqual, w) => (if lessOrEqual then 0 else 1, w)

/-- A step of the sort of lists that throws is one whose comparator fails. -/
def lift {β : Type*} : Option β → Except Stop β
  | none => .error .comparatorFailed
  | some s => .ok s

variable {c : LessOrEqual α σ} {nelems : ℕ} {list out : Buffer} {s : Store α σ}

@[simp] lemma ok_bind {β γ : Type u} (x : β) (f : β → Except Stop γ) : (Except.ok x >>= f) = f x := rfl

@[simp] lemma error_bind {β γ : Type u} (stop : Stop) (f : β → Except Stop γ) :
    (Except.error stop >>= f) = .error stop := rfl

lemma read_eq {i : ℕ} (h : i < nelems) : read nelems list i s = .ok (s.get list i) := if_pos h

lemma write_eq {i : ℕ} {value : α} (h : i < nelems) : write nelems list i value s = .ok (s.set list i value) := if_pos h

/-- Both sorts compare the same elements. -/
lemma compare_cases (c : LessOrEqual α σ) (x y : α) (s : Store α σ) :
    (compare c x y s = .error .comparatorFailed ∧ overWorld (comparefn c) x y s = none) ∨
    ∃ lessOrEqual world, compare c x y s = .ok (lessOrEqual, { s with world := world }) ∧
      overWorld (comparefn c) x y s = some (if lessOrEqual then 0 else 1, { s with world := world }) := by
  cases h : c x y s.world with
  | none => exact .inl (by simp [compare, overWorld, comparefn, h])
  | some result => exact .inr ⟨result.1, result.2, by simp [compare, overWorld, comparefn, h]⟩

lemma copyLoop_of_lt {last i k : ℕ} (h : last < i) : copyLoop list out last i k s = (s, k) := by
  rw [copyLoop, if_neg (by omega)]

lemma copyNonEmptyArray_eq {dst src count : ℕ} (hpos : 0 < count) (hdst : dst + count ≤ nelems)
    (hsrc : src + count ≤ nelems) :
    copyNonEmptyArray nelems out dst list src count s = .ok (copyLoop list out (src + count - 1) src dst s).1 := by
  induction count generalizing dst src s with
  | zero => omega
  | succ count ih =>
    rw [copyNonEmptyArray, read_eq (by omega), copyLoop, if_pos (by omega)]
    simp only [ok_bind, write_eq (show dst < nelems by omega)]
    by_cases h0 : count = 0
    · rw [if_pos h0, copyLoop_of_lt (by omega)]
    · rw [if_neg h0, ih (by omega) (by omega) (by omega), show src + 1 + count - 1 = src + (count + 1) - 1 by omega]

lemma mergeLoop_eq {dst a run1 b run2 : ℕ} (h1 : 0 < run1) (h2 : 0 < run2) (hdst : dst + run1 + run2 ≤ nelems)
    (ha : a + run1 ≤ nelems) (hb : b + run2 ≤ nelems) :
    (mergeLoop c nelems out list dst a run1 b run2 s >>= fun (dst, src, count, s) =>
      copyNonEmptyArray nelems out dst list src count s) =
        lift (Sorting.mergeLoop (overWorld (comparefn c)) list out (a + run1 - 1) (b + run2 - 1) a b dst s) := by
  induction hn : run1 + run2 using Nat.strong_induction_on generalizing dst a run1 b run2 s with
  | h n ih =>
    rw [mergeLoop, Sorting.mergeLoop, if_pos (by omega), read_eq (by omega), read_eq (by omega)]
    obtain ⟨hcompare, hcomparefn⟩ | ⟨lessOrEqual, world, hcompare, hcomparefn⟩ :=
      compare_cases c (s.get list a) (s.get list b) s
    · simp [hcompare, hcomparefn, lift]
    · simp only [ok_bind, hcompare, hcomparefn, write_eq (show dst < nelems by omega)]
      cases lessOrEqual with
      | true =>
        by_cases h0 : run1 - 1 = 0
        · -- The first run has ended, and the second one is copied.
          rw [Sorting.mergeLoop, copyLoop_of_lt (show a + run1 - 1 < a + 1 by omega)]
          simp [h0, lift, copyNonEmptyArray_eq h2 (show dst + 1 + run2 ≤ nelems by omega) hb,
            show ¬ a + 1 ≤ a + run1 - 1 by omega]
        · have hrest := ih _ (by omega) (s := Store.set { s with world := world } out dst (s.get list a))
            (show 0 < run1 - 1 by omega) h2 (show dst + 1 + (run1 - 1) + run2 ≤ nelems by omega)
            (show a + 1 + (run1 - 1) ≤ nelems by omega) hb rfl
          rw [show a + 1 + (run1 - 1) - 1 = a + run1 - 1 by omega] at hrest
          simpa [h0] using hrest
      | false =>
        by_cases h0 : run2 - 1 = 0
        · have hend (s : Store α σ) : Sorting.mergeLoop (overWorld (comparefn c)) list out (a + run1 - 1) (b + run2 - 1) a
              (b + 1) (dst + 1) s = some (copyLoop list out (a + run1 - 1) a (dst + 1) s).1 := by
            rw [Sorting.mergeLoop, if_neg (by omega)]
            simp [copyLoop_of_lt (show b + run2 - 1 < b + 1 by omega)]
          simp [h0, lift, copyNonEmptyArray_eq h1 (show dst + 1 + run1 ≤ nelems by omega) ha, hend]
        · have hrest := ih _ (by omega) (s := Store.set { s with world := world } out dst (s.get list b)) h1
            (show 0 < run2 - 1 by omega) (show dst + 1 + run1 + (run2 - 1) ≤ nelems by omega) ha
            (show b + 1 + (run2 - 1) ≤ nelems by omega) rfl
          rw [show b + 1 + (run2 - 1) - 1 = b + run2 - 1 by omega] at hrest
          simpa [h0] using hrest

lemma mergeArrayRuns_eq {lo run1 run2 : ℕ} (h1 : 0 < run1) (h2 : 0 < run2) (hhi : lo + run1 + run2 ≤ nelems) :
    mergeArrayRuns c nelems out lo list lo run1 run2 s =
      lift (merge (overWorld (comparefn c)) list out lo (lo + run1 - 1) (lo + run1 + run2 - 1) s) := by
  rw [mergeArrayRuns, merge, if_neg (by omega), read_eq (by omega), read_eq (by omega),
    show lo + run1 - 1 + 1 = lo + run1 by omega]
  obtain ⟨hcompare, hcomparefn⟩ | ⟨lessOrEqual, world, hcompare, hcomparefn⟩ :=
    compare_cases c (s.get list (lo + run1 - 1)) (s.get list (lo + run1)) s
  · simp [hcompare, hcomparefn, lift]
  · simp only [ok_bind, hcompare, hcomparefn]
    cases lessOrEqual with
    | true =>
      simp [lift, copyNonEmptyArray_eq (show 0 < run1 + run2 by omega) (show lo + (run1 + run2) ≤ nelems by omega)
        (show lo + (run1 + run2) ≤ nelems by omega), Nat.add_assoc]
    | false =>
      simpa using mergeLoop_eq (s := { s with world := world }) h1 h2 (show lo + run1 + run2 ≤ nelems by omega)
        (by omega) (show lo + run1 + run2 ≤ nelems by omega)

lemma mergeRuns_eq {vec1 vec2 : Buffer} {run : ℕ+} {lo : ℕ} : mergeRuns c nelems vec1 vec2 run lo s =
      lift (mergePass (overWorld (comparefn c)) merge vec1 vec2 nelems run lo s) := by
  have hpos := run.pos
  induction hn : nelems - lo using Nat.strong_induction_on generalizing lo s with
  | h n ih =>
    rw [mergeRuns, mergePass]
    by_cases hlo : lo < nelems
    · simp only [hlo, if_true]
      by_cases htail : nelems ≤ lo + run
      · -- The tail is only copied, and nothing is left.
        have hnext (s : Store α σ) : mergePass (overWorld (comparefn c)) merge vec1 vec2 nelems run (lo + 2 * run) s =
            some s := by rw [mergePass, if_neg (by omega)]
        rw [if_pos htail, merge, if_pos (show min (lo + 2 * (run : ℕ) - 1) (nelems - 1) ≤ lo + run - 1 by omega),
          copyNonEmptyArray_eq (by omega) (by omega) (by omega),
          show lo + (nelems - lo) - 1 = min (lo + 2 * run - 1) (nelems - 1) by omega]
        simp [lift, hnext]
      · rw [if_neg htail, mergeArrayRuns_eq hpos (by split_ifs <;> omega) (by split_ifs <;> omega),
          show lo + run + (if (run : ℕ) ≤ nelems - (lo + run) then (run : ℕ) else nelems - (lo + run)) - 1 =
            min (lo + 2 * run - 1) (nelems - 1) by split_ifs <;> omega]
        cases merge (overWorld (comparefn c)) vec1 vec2 lo (lo + run - 1) (min (lo + 2 * run - 1) (nelems - 1)) s with
        | none => rfl
        | some s₁ => exact ih _ (by omega) rfl
    · simp [hlo, lift]

lemma compare_set (x y : α) (i : ℕ) (value : α) : compare c x y (s.set list i value) =
      (compare c x y s >>= fun result => .ok (result.1, result.2.set list i value)) := by
  rw [compare, compare, show (s.set list i value).world = s.world from rfl]
  cases c x y s.world <;> rfl

lemma insertLoop_eq {lo j : ℕ} (hlo : lo < j) (hj : j < nelems) (item : α) :
    insertLoop c nelems list lo j (s.set list j item) =
      lift (Sorting.insertLoop (overWorld (comparefn c)) list lo item j s) := by
  induction j generalizing s with
  | zero => omega
  | succ j ih =>
    have hx : (s.set list (j + 1) item).get list j = s.get list j := s.set_get_of_ne _ fun _ => by omega
    rw [insertLoop, Sorting.insertLoop, if_neg (by omega), read_eq (by omega), read_eq hj, hx, Store.set_get_self]
    obtain ⟨hcompare, hcomparefn⟩ | ⟨lessOrEqual, world, hcompare, hcomparefn⟩ := compare_cases c (s.get list j) item s
    · simp [compare_set, hcompare, hcomparefn, lift]
    · simp only [ok_bind, compare_set, hcompare, hcomparefn, write_eq (show j < nelems by omega), write_eq hj]
      cases lessOrEqual with
      | true => simp [lift]
      | false =>
        have hswap (s : Store α σ) (x : α) : ((s.set list (j + 1) item).set list j item).set list (j + 1) x =
            (s.set list (j + 1) x).set list j item := by
          simp [Store.set, Function.update_comm (show j + 1 ≠ j by omega)]
        by_cases hend : j = lo
        · have hstop (s : Store α σ) : Sorting.insertLoop (overWorld (comparefn c)) list lo item lo s =
              some (s.set list lo item) := by
            cases lo <;> simp [Sorting.insertLoop]
          rw [hswap]
          simp [hend, hstop, lift]
        · rw [hswap]
          simpa [hend] using ih (by omega) (by omega)

lemma mergePasses_eq {vec1 vec2 : Buffer} {run : ℕ+} : mergePasses c nelems vec1 vec2 run s =
      lift (Sorting.mergePasses (overWorld (comparefn c)) merge vec1 vec2 nelems run s) := by
  have hpos := run.pos
  induction hn : nelems - run using Nat.strong_induction_on generalizing vec1 vec2 run s with
  | h n ih =>
    rw [mergePasses, Sorting.mergePasses, mergeRuns_eq]
    by_cases hrun : run < nelems
    · rw [if_pos hrun, if_pos hrun]
      cases mergePass (overWorld (comparefn c)) merge vec1 vec2 nelems run 0 s with
      | none => rfl
      | some s₁ => exact ih (nelems - (2 * run : ℕ+)) (by rw [PNat.mul_coe, PNat.val_ofNat]; omega) (2 * run).pos rfl
    · simp [hrun, lift]

lemma chunkLoop_eq {lo hi i : ℕ} (hlo : lo < i) (hle : i ≤ hi) (hhi : hi ≤ nelems) : chunkLoop c nelems list lo hi i s =
      lift (insertionSortLoop (overWorld (comparefn c)) list lo (hi - 1) i s) := by
  induction hn : hi - i generalizing i s with
  | zero =>
    rw [chunkLoop, if_pos (by omega), insertionSortLoop, if_neg (by omega)]
    rfl
  | succ n ih =>
    have hset : s.set list i (s.get list i) = s := by simp [Store.set, Store.get]
    have hinsert : insertLoop c nelems list lo i (s.set list i (s.get list i)) = _ :=
      insertLoop_eq hlo (show i < nelems by omega) (s.get list i)
    rw [hset] at hinsert
    rw [chunkLoop, if_neg (by omega), if_pos (by omega), insertionSortLoop, if_pos (by omega), hinsert]
    cases Sorting.insertLoop (overWorld (comparefn c)) list lo (s.get list i) i s with
    | none => rfl
    | some s₁ => exact ih (by omega) (by omega) (by omega)

/-! ## The sort -/

/-- The comparator is that of a total preorder. -/
def Agrees (c : LessOrEqual α σ) (le : α → α → Bool) : Prop :=
  IsTotalPreorder le ∧ ∀ x y w result, c x y w = some result → result.1 = le x y

lemma obeys_comparefn (c : LessOrEqual α σ) (le : α → α → Bool) : Obeys (overWorld (comparefn c)) le (Agrees c le) where
  keeps := (obeys_overWorld (comparefn c) le).keeps
  preorder h := h.1
  answers h := by
    refine (obeys_overWorld (comparefn c) le).answers ⟨h.1, fun x y w order w' hanswer => ?_⟩
    obtain ⟨result, hresult, heq⟩ := Option.map_eq_some_iff.1 hanswer
    cases heq
    rw [← h.2 x y w result hresult]
    cases result.1 <;> simp

lemma comparefn_ne_none (hreturns : ∀ x y w, c x y w ≠ none) (x y : α) (s : Store α σ) :
    overWorld (comparefn c) x y s ≠ none := by
  simp [overWorld, comparefn, hreturns]

lemma insertionSortChunks_spec (le : α → α → Bool) {lo : ℕ} (hdvd : 3 ∣ lo) :
    ∃ sorted, insertionSortChunks c nelems list lo s = lift sorted ∧
      ((∀ x y w, c x y w ≠ none) → sorted.isSome) ∧ ∀ s' ∈ sorted, Store.KeepsOutside list lo nelems s s' ∧
        ∀ start, 3 ∣ start → lo ≤ start → start < nelems → Rearranges le (Agrees c le)
          (slice (s.buffers list) start (min (start + 3) nelems)) (slice (s'.buffers list) start (min (start + 3) nelems)) := by
  induction hn : nelems - lo using Nat.strong_induction_on generalizing lo s with
  | h n ih =>
    rw [insertionSortChunks]
    by_cases hlo : lo < nelems
    · have hhi : (if nelems ≤ lo + 3 then nelems else lo + 3) = min (lo + 3) nelems := by split_ifs <;> omega
      rw [if_pos hlo, hhi]
      dsimp only
      rw [chunkLoop_eq (Nat.lt_succ_self lo) (by omega) (by omega), ← insertionSort]
      cases hsort : insertionSort (overWorld (comparefn c)) list lo (min (lo + 3) nelems - 1) s with
      | none =>
        refine ⟨none, rfl, fun hreturns => ?_, fun s' h => by cases h⟩
        obtain ⟨s₁, h⟩ := insertionSort_isSome (comparefn_ne_none hreturns) list lo (min (lo + 3) nelems - 1) s
        simp [h] at hsort
      | some s₁ =>
        obtain ⟨hchunk, hout⟩ := insertionSort_spec (obeys_comparefn c le) (show lo < min (lo + 3) nelems by omega) hsort
        obtain ⟨sorted, heq, hsome, hsorted⟩ :=
          ih (nelems - (lo + 3)) (by omega) (s := s₁) (Nat.dvd_add hdvd (dvd_refl 3)) rfl
        refine ⟨sorted, heq, hsome, fun s' h => ?_⟩
        obtain ⟨hout', hlater⟩ := hsorted s' h
        refine ⟨(hout.mono le_rfl (by omega)).trans (hout'.mono (by omega) le_rfl), fun start hdvd' hle hlt => ?_⟩
        by_cases hstart : start = lo
        · rw [hstart, hout'.slice_eq fun _ => .inl (by omega)]
          exact hchunk
        · have hwindow := hlater start hdvd' (by omega) hlt
          rwa [hout.slice_eq fun _ => .inr (by omega)] at hwindow
    · refine ⟨some s, by rw [if_neg hlo]; rfl, fun _ => rfl, fun s' h => ?_⟩
      cases h
      exact ⟨.refl _ _ _ _, fun start _ hle hlt => absurd hlt (by omega)⟩

lemma mergePasses_spec_three (le : α → α → Bool) {xs : ℕ → α}
    (hwindows : SortedWindows le (Agrees c le) xs (s.buffers .given) nelems 3) :
    ∃ merged, mergePasses c nelems .given .scratch 3 s = lift merged ∧
      ((∀ x y w, c x y w ≠ none) → merged.isSome) ∧ ∀ vec1 s', merged = some (vec1, s') →
        Rearranges le (Agrees c le) (slice xs 0 nelems) (slice (s'.buffers vec1) 0 nelems) ∧
          ∀ b j, nelems ≤ j → s'.get b j = s.get b j := by
  refine ⟨_, mergePasses_eq, fun hreturns => ?_, fun vec1 s' h => ?_⟩
  · obtain ⟨result, h⟩ := mergePasses_isSome (comparefn_ne_none hreturns) .given .scratch nelems 3 s
    simp [h]
  · exact Sorting.mergePasses_spec (obeys_comparefn c le) (by decide) hwindows h

/-- For every comparator, no access leaves the arrays, and unless the comparator fails, the sort succeeds and the array
is a permutation of what it has been; beyond `nelems` nothing is written.  With the comparator of a total preorder it is
stably sorted. -/
theorem mergeSort_permutes (c : LessOrEqual α σ) (nelems : ℕ) (s : Store α σ) (le : α → α → Bool) :
    mergeSort c nelems s ≠ .error .outOfBounds ∧ ((∀ x y w, c x y w ≠ none) → ∃ s', mergeSort c nelems s = .ok s') ∧
      ∀ s', mergeSort c nelems s = .ok s' →
        Rearranges le (Agrees c le) (slice (s.buffers .given) 0 nelems) (slice (s'.buffers .given) 0 nelems) ∧
          ∀ b i, nelems ≤ i → s'.get b i = s.get b i := by
  rw [mergeSort]
  by_cases hsmall : nelems ≤ 1
  · rw [if_pos hsmall]
    refine ⟨by simp, fun _ => ⟨s, rfl⟩, fun s' h => ?_⟩
    cases h
    refine ⟨.refl fun _ => ?_, fun _ _ _ => rfl⟩
    obtain rfl | rfl : nelems = 0 ∨ nelems = 1 := by omega
    · exact .nil
    · simp [slice]
  · rw [if_neg hsmall]
    obtain ⟨sorted, heq, hsome, hchunks⟩ : ∃ sorted, insertionSortChunks c nelems .given 0 s = lift sorted ∧ _ :=
      insertionSortChunks_spec le (dvd_zero 3)
    rw [heq]
    cases sorted with
    | none => exact ⟨by simp [lift], fun hreturns => absurd (hsome hreturns) (by simp), by simp [lift]⟩
    | some s₁ =>
      obtain ⟨hout, hwindows⟩ := hchunks s₁ rfl
      obtain ⟨merged, heq', hsome', hmerged⟩ := mergePasses_spec_three (c := c) (s := s₁) le (fun start hdvd hlt => hwindows start hdvd (Nat.zero_le _) hlt)
      rw [show lift (some s₁) = Except.ok s₁ from rfl, ok_bind, show Nat.succPNat 2 = 3 from rfl, heq']
      cases merged with
      | none => exact ⟨by simp [lift], fun hreturns => absurd (hsome' hreturns) (by simp), by simp [lift]⟩
      | some result =>
        obtain ⟨vec1, s₂⟩ := result
        obtain ⟨hsorted, hout'⟩ := hmerged vec1 s₂ rfl
        have hbeyond (b : Buffer) (i : ℕ) (hi : nelems ≤ i) : s₂.get b i = s.get b i :=
          (hout' b i hi).trans (hout b i fun _ => .inr hi)
        rw [show lift (some (vec1, s₂)) = Except.ok (vec1, s₂) from rfl, ok_bind]
        cases vec1 with
        | given =>
          refine ⟨by simp, fun _ => ⟨s₂, rfl⟩, fun s' h => ?_⟩
          cases h
          exact ⟨hsorted, hbeyond⟩
        | scratch =>
          obtain ⟨-, hcopied, hslice⟩ := copyLoop_spec (show Buffer.scratch ≠ .given by decide) (nelems - 1) 0 0 s₂
          rw [show 0 + (nelems - 1 + 1 - 0) = nelems by omega] at hcopied hslice
          dsimp only
          rw [if_pos rfl, copyNonEmptyArray_eq (by omega) (by omega) (by omega), Nat.zero_add]
          refine ⟨by simp, fun _ => ⟨_, rfl⟩, fun s' h => ?_⟩
          cases h
          rw [hslice, Nat.sub_add_cancel (by omega)]
          exact ⟨hsorted, fun b i hi => (hcopied b i fun _ => .inr hi).trans (hbeyond b i hi)⟩

/-- Seven numbers, compared by their tens, in two passes with a tail that is copied. -/
theorem mergeSort_permutes_tens : ∃ s', mergeSort (fun x y w => some (decide (x / 10 ≤ y / 10), w)) 7
      (⟨fun _ i => [31, 13, 25, 11, 38, 20, 12].getD i 0, ()⟩ : Store ℕ Unit) = .ok s' ∧
      Sorted (fun x y => decide (x / 10 ≤ y / 10)) (slice (s'.buffers .given) 0 7) := by
  obtain ⟨-, hreturns, hsorts⟩ := mergeSort_permutes (fun x y w => some (decide (x / 10 ≤ y / 10), w)) 7
    (⟨fun _ i => [31, 13, 25, 11, 38, 20, 12].getD i 0, ()⟩ : Store ℕ Unit) fun x y => decide (x / 10 ≤ y / 10)
  obtain ⟨s', h⟩ := hreturns (by simp)
  exact ⟨s', h, (hsorts s' h).1.sorted ⟨isTotalPreorder_byKey (· / 10), fun x y w result h => by cases h; rfl⟩⟩

end SpiderMonkey.ArraySort
