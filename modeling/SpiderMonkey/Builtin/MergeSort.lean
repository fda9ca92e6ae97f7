import Mathlib.Data.PNat.Basic
import SpiderMonkey.Lib.StableSort

/-!
# Merge sort

The sorts work on two buffers, which change places after each pass.  A comparator is called with two elements; it may
throw, and it may have any effect on what it can get at: on the array that is sorted, but not on the sort's own lists.
-/

namespace SpiderMonkey.Sorting

open Function

variable {α σ S : Type*}

/-- Only the sign of the number that a comparator returns matters. -/
abbrev Comparator (α S : Type*) := α → α → S → Option (ℤ × S)

inductive Buffer
  | given
  | scratch
  deriving DecidableEq

/-- What has not been written is undefined. -/
structure Store (α σ : Type*) where
  buffers : Buffer → ℕ → α
  world : σ

def Store.get (s : Store α σ) (list : Buffer) (i : ℕ) : α := s.buffers list i

def Store.set (s : Store α σ) (list : Buffer) (i : ℕ) (value : α) : Store α σ :=
  { s with buffers := update s.buffers list (update (s.buffers list) i value) }

/-! ## Insertion sort -/

section Lists

variable (comparefn : Comparator α (Store α σ))

/-- The inner loop for an item.  The argument is `j + 1`, where the item goes when the loop ends. -/
def insertLoop (list : Buffer) (from_ : ℕ) (item : α) : ℕ → Store α σ → Option (Store α σ)
  | 0, s => some (s.set list 0 item)
  | j + 1, s =>
    if j < from_ then some (s.set list (j + 1) item)
    else
      let swap := s.get list j
      match comparefn swap item s with
      | none => none
      | some (order, s) =>
        if order ≤ 0 then some (s.set list (j + 1) item)
        else insertLoop list from_ item j (s.set list (j + 1) swap)

def insertionSortLoop (list : Buffer) (from_ to_ i : ℕ) (s : Store α σ) : Option (Store α σ) :=
  if i ≤ to_ then do
    let s ← insertLoop comparefn list from_ (s.get list i) i s
    insertionSortLoop list from_ to_ (i + 1) s
  else some s
termination_by to_ + 1 - i

def insertionSort (list : Buffer) (from_ to_ : ℕ) (s : Store α σ) : Option (Store α σ) :=
  insertionSortLoop comparefn list from_ to_ (from_ + 1) s

/-! ## Merging -/

/-- A loop that copies the elements from `i` to `last` to the places from `k` on. -/
def copyLoop (list out : Buffer) (last i k : ℕ) (s : Store α σ) : Store α σ × ℕ :=
  if i ≤ last then copyLoop list out last (i + 1) (k + 1) (s.set out k (s.get list i)) else (s, k)
termination_by last + 1 - i

def mergeLoop (list out : Buffer) (mid end_ i j k : ℕ) (s : Store α σ) : Option (Store α σ) :=
  if i ≤ mid ∧ j ≤ end_ then
    let lvalue := s.get list i
    let rvalue := s.get list j
    match comparefn lvalue rvalue s with
    | none => none
    | some (order, s) =>
      if order ≤ 0 then mergeLoop list out mid end_ (i + 1) j (k + 1) (s.set out k lvalue)
      else mergeLoop list out mid end_ i (j + 1) (k + 1) (s.set out k rvalue)
  else
    let (s, k) := copyLoop list out mid i k s
    some (copyLoop list out end_ j k s).1
termination_by (mid + 1 - i) + (end_ + 1 - j)

def merge (list out : Buffer) (start mid end_ : ℕ) (s : Store α σ) : Option (Store α σ) :=
  if end_ ≤ mid then some (copyLoop list out end_ start start s).1
  else
    match comparefn (s.get list mid) (s.get list (mid + 1)) s with
    | none => none
    | some (order, s) =>
      if order ≤ 0 then some (copyLoop list out end_ start start s).1
      else mergeLoop comparefn list out mid end_ start (mid + 1) start s

/-- The same with assignments. -/
def mergeTypedArray (list out : Buffer) (start mid end_ : ℕ) (s : Store α σ) : Option (Store α σ) :=
  merge comparefn list out start mid end_ s

/-! ## Passes over a list -/

def initialRanges (list : Buffer) (len start : ℕ) (s : Store α σ) : Option (Store α σ) :=
  if start < len - 1 then do
    let end_ := min (start + 4 - 1) (len - 1)
    let s ← insertionSort comparefn list start end_ s
    initialRanges list len (start + 4) s
  else some s
termination_by len - start

/-- A function that merges two slices. -/
abbrev Merging (α σ : Type*) :=
  Comparator α (Store α σ) → Buffer → Buffer → ℕ → ℕ → ℕ → Store α σ → Option (Store α σ)

def mergePass (merging : Merging α σ) (lBuffer rBuffer : Buffer) (len : ℕ) (windowSize : ℕ+) (start : ℕ)
    (s : Store α σ) : Option (Store α σ) :=
  if start < len then do
    let mid := start + windowSize - 1
    let end_ := min (start + 2 * windowSize - 1) (len - 1)
    let s ← merging comparefn lBuffer rBuffer start mid end_ s
    mergePass merging lBuffer rBuffer len windowSize (start + 2 * windowSize) s
  else some s
termination_by len - start
decreasing_by
  have hpos := windowSize.pos
  omega

def mergePasses (merging : Merging α σ) (lBuffer rBuffer : Buffer) (len : ℕ) (windowSize : ℕ+) (s : Store α σ) :
    Option (Buffer × Store α σ) :=
  if windowSize < len then do
    let s ← mergePass comparefn merging lBuffer rBuffer len windowSize 0 s
    mergePasses merging rBuffer lBuffer len (2 * windowSize) s
  else some (lBuffer, s)
termination_by len - windowSize
decreasing_by
  have hpos := windowSize.pos
  rw [PNat.mul_coe, PNat.val_ofNat]
  omega

end Lists

/-! ## Array-like objects -/

/-- The elements of an object and those that it inherits. -/
structure ArrayLike (α : Type*) where
  own : ℕ → Option α
  inherited : ℕ → Option α

def ArrayLike.get (array : ArrayLike α) (i : ℕ) : Option α := (array.own i).or (array.inherited i)

def ArrayLike.set (array : ArrayLike α) (i : ℕ) (value : α) : ArrayLike α :=
  { array with own := update array.own i (some value) }

def ArrayLike.delete (array : ArrayLike α) (i : ℕ) : ArrayLike α :=
  { array with own := update array.own i none }

/-- The elements that are present, in their order. -/
def ArrayLike.present (array : ArrayLike α) (len : ℕ) : List α := (List.range len).filterMap array.get

def moveDense (dense : ℕ → α) (denseLen i : ℕ) (sparse : ArrayLike α) : ArrayLike α :=
  if i < denseLen then moveDense dense denseLen (i + 1) (sparse.set i (dense i)) else sparse
termination_by denseLen - i

def deleteRest (sparseLen j : ℕ) (sparse : ArrayLike α) : ArrayLike α :=
  if j < sparseLen then deleteRest sparseLen (j + 1) (sparse.delete j) else sparse
termination_by sparseLen - j

def moveHoles (sparse : ArrayLike α) (sparseLen : ℕ) (dense : ℕ → α) (denseLen : ℕ) : ArrayLike α :=
  deleteRest sparseLen denseLen (moveDense dense denseLen 0 sparse)

/-- The elements that are present are collected in a list. -/
def collectDense (array : ArrayLike α) (len i : ℕ) (denseList : ℕ → α) (denseLen : ℕ) : (ℕ → α) × ℕ :=
  if i < len then
    match array.get i with
    | some value => collectDense array len (i + 1) (update denseList denseLen value) (denseLen + 1)
    | none => collectDense array len (i + 1) denseList denseLen
  else (denseList, denseLen)
termination_by len - i

variable [Inhabited α]

/-- The comparator has no access to the lists of the sort. -/
def overWorld (comparefn : Comparator α σ) : Comparator α (Store α σ) := fun x y s =>
  (comparefn x y s.world).map fun (order, world) => (order, { s with world := world })

def mergeSort (comparefn : Comparator α (ArrayLike α × σ)) (len : ℕ) (world : ArrayLike α × σ) :
    Option (ArrayLike α × σ) :=
  let (denseList, denseLen) := collectDense world.1 len 0 (fun _ => default) 0
  if denseLen < 1 then some world
  else
    let s : Store α (ArrayLike α × σ) :=
      { buffers := update (fun _ _ => default) .given denseList, world := world }
    if denseLen < 24 then do
      let s ← insertionSort (overWorld comparefn) .given 0 (denseLen - 1) s
      some (moveHoles s.world.1 len (s.buffers .given) denseLen, s.world.2)
    else do
      let s ← initialRanges (overWorld comparefn) .given denseLen 0 s
      let (lBuffer, s) ← mergePasses (overWorld comparefn) merge .given .scratch denseLen 4 s
      some (moveHoles s.world.1 len (s.buffers lBuffer) denseLen, s.world.2)

/-! ## Typed arrays -/

/-- The comparator has access to the array, which is one of the two buffers. -/
def overTypedArray (comparefn : Comparator α ((ℕ → α) × σ)) : Comparator α (Store α σ) := fun x y s =>
  (comparefn x y (s.buffers .given, s.world)).map fun (order, array, world) =>
    (order, { buffers := update s.buffers .given array, world := world })

def copyBack (lBuffer : Buffer) (len i : ℕ) (s : Store α σ) : Store α σ :=
  if i < len then copyBack lBuffer len (i + 1) (s.set .given i (s.get lBuffer i)) else s
termination_by len - i

def mergeSortTypedArray (comparefn : Comparator α ((ℕ → α) × σ)) (len : ℕ) (world : (ℕ → α) × σ) :
    Option ((ℕ → α) × σ) :=
  let s : Store α σ := { buffers := update (fun _ _ => default) .given world.1, world := world.2 }
  if len < 8 then do
    let s ← insertionSort (overTypedArray comparefn) .given 0 (len - 1) s
    some (s.buffers .given, s.world)
  else do
    let s ← initialRanges (overTypedArray comparefn) .given len 0 s
    let (lBuffer, s) ← mergePasses (overTypedArray comparefn) mergeTypedArray .given .scratch len 4 s
    let s := if lBuffer ≠ .given then copyBack lBuffer len 0 s else s
    some (s.buffers .given, s.world)

end SpiderMonkey.Sorting
