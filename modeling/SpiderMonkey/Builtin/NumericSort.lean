import SpiderMonkey.Builtin.QuickSort

/-!
# Sorting numbers in typed arrays

Without a comparator of the caller, bytes are counted, other integers and single floats are sorted byte by byte, and
short arrays are left to quick sort.
-/

namespace SpiderMonkey.Sorting

variable {S : Type*} {w : ℕ}

/-! ## Elements -/

variable (signed : Bool)

/-- What is read from a typed array of integers. -/
def number (element : BitVec w) : ℤ := if signed = true then element.toInt else element.toNat

/-- What is written for a number. -/
def element (w : ℕ) (x : ℤ) : BitVec w := BitVec.ofInt w x

def toInt32 (x : ℤ) : BitVec 32 := BitVec.ofInt 32 x

def typedArrayCompareInt : Comparator (BitVec w) S := fun x y s =>
  let diff := number signed x - number signed y
  if diff ≠ 0 then some (diff, s) else some (0, s)

/-! ## Single floats -/

namespace Float32

def isNaN (b : BitVec 32) : Bool := decide (0x7F800000 < b.toNat % 2 ^ 31)

/-- The absolute value in units of the least positive one.  The infinities continue the exponents. -/
def magnitude (pattern : ℕ) : ℕ :=
  let mantissa := pattern % 2 ^ 23
  let exponent := pattern / 2 ^ 23
  if exponent = 0 then mantissa else (2 ^ 23 + mantissa) * 2 ^ (exponent - 1)

/-- The numeric value of what is not a NaN, in the same units. -/
def value (b : BitVec 32) : ℤ :=
  if b.msb = true then -(magnitude (b.toNat % 2 ^ 31) : ℤ) else magnitude (b.toNat % 2 ^ 31)

def lt (x y : BitVec 32) : Bool := !isNaN x && !isNaN y && decide (value x < value y)

def isZero (x : BitVec 32) : Bool := !isNaN x && decide (value x = 0)

/-- There is one NaN among the values. -/
def canonicalize (b : BitVec 32) : BitVec 32 := if isNaN b = true then 0x7FC00000 else b

end Float32

open Float32

/-- The inverse of a zero is positive or negative infinity. -/
def typedArrayCompare : Comparator (BitVec 32) S := fun x y s =>
  if lt x y = true then some (-1, s)
  else if lt y x = true then some (1, s)
  else if isZero x = true ∧ isZero y = true then
    some ((if x.msb = true then 0 else 1) - (if y.msb = true then 0 else 1), s)
  else if isNaN x = true then some (if isNaN y = true then 0 else 1, s)
  else some (if isNaN y = true then -1 else 0, s)

/-! ## Counting sort -/

/-- `for (var i = 0; i < n; i++)` -/
def forUpTo : ℕ → (ℕ → S → S) → S → S
  | 0, _, s => s
  | n + 1, body, s => body n (forUpTo n body s)

def countValues (min : ℤ) (array : ℕ → BitVec w) (len : ℕ) : ℕ → ℕ :=
  forUpTo len (fun i buffer =>
    let val := number signed (array i)
    Function.update buffer (val - min).toNat (buffer (val - min).toNat + 1)) fun _ => 0

/-- `do { j = buffer[++val]; } while (j === 0);` The buffer has 256 entries. -/
def skipEmpty (buffer : ℕ → ℕ) (val : ℕ) : Option ℕ :=
  if val < 256 then if buffer val = 0 then skipEmpty buffer (val + 1) else some val else none
termination_by 256 - val

lemma skipEmpty_bounds {buffer : ℕ → ℕ} {val val' : ℕ} (h : skipEmpty buffer val = some val') :
    val ≤ val' ∧ val' < 256 := by
  induction hn : 256 - val generalizing val with
  | zero =>
    rw [skipEmpty, if_neg (by omega)] at h
    cases h
  | succ n ih =>
    rw [skipEmpty, if_pos (by omega)] at h
    split_ifs at h
    · have hrest := ih h (by omega)
      omega
    · cases h
      omega

/-- The argument is the value after `val`. -/
def writeBack (min : ℤ) (buffer : ℕ → ℕ) (len i val : ℕ) (array : ℕ → BitVec w) : Option (ℕ → BitVec w) :=
  if i < len then
    match hskip : skipEmpty buffer val with
    | none => none
    | some val' =>
      let array := forUpTo (buffer val')
        (fun k array => Function.update array (i + k) (element w ((val' : ℤ) + min))) array
      writeBack min buffer len (i + buffer val') (val' + 1) array
  else some array
termination_by 256 - val
decreasing_by
  have hbounds := skipEmpty_bounds hskip
  omega

/-- Quick sort on the elements of a typed array. -/
def quickSortElements (comparefn : Comparator (BitVec w) (Store (BitVec w) Unit)) (fuel len : ℕ)
    (array : ℕ → BitVec w) : Option (ℕ → BitVec w) :=
  (quickSort comparefn fuel len { buffers := fun _ => array, world := () }).map fun s => s.buffers .given

def countingSort (fuel : ℕ) (array : ℕ → BitVec 8) (len : ℕ) (signed : Bool)
    (comparefn : Comparator (BitVec 8) (Store (BitVec 8) Unit)) : Option (ℕ → BitVec 8) :=
  if len < 128 then quickSortElements comparefn fuel len array
  else
    let min : ℤ := if signed = true then -128 else 0
    let buffer := countValues signed min array len
    writeBack min buffer len 0 0 array

/-! ## Radix sort -/

def byteAtCol (x : ℤ) (pos : ℕ) : ℕ := ((toInt32 x).sshiftRight (pos * 8) &&& 0xFF).toNat

/-- The list and the scratch lists of a pass. -/
structure Columns (w : ℕ) where
  array : ℕ → BitVec w
  aux : ℕ → ℤ
  counts : ℕ → ℕ

def frequencies (array : ℕ → BitVec w) (len col : ℕ) (counts : ℕ → ℕ) : ℕ → ℕ :=
  forUpTo len (fun i counts =>
    let b := byteAtCol (number signed (array i)) col
    Function.update counts (b + 1) (counts (b + 1) + 1)) counts

def indices (counts : ℕ → ℕ) : ℕ → ℕ :=
  forUpTo 256 (fun r counts => Function.update counts (r + 1) (counts (r + 1) + counts r)) counts

def distribute (array : ℕ → BitVec w) (len col : ℕ) (aux : ℕ → ℤ) (counts : ℕ → ℕ) : (ℕ → ℤ) × (ℕ → ℕ) :=
  forUpTo len (fun i (aux, counts) =>
    let val := number signed (array i)
    let b := byteAtCol val col
    (Function.update aux (counts b) val, Function.update counts b (counts b + 1))) (aux, counts)

def sortByColumn (len col : ℕ) (c : Columns w) : Columns w :=
  let counts := forUpTo 257 (fun r counts => Function.update counts r 0) c.counts
  let counts := indices (frequencies signed c.array len col counts)
  let (aux, counts) := distribute signed c.array len col c.aux counts
  { array := forUpTo len (fun i array => Function.update array i (element w (aux i))) c.array
    aux := aux
    counts := counts }

def signMask (nbytes : ℕ) : BitVec 32 := 1#32 <<< (nbytes * 8 - 1)

/-- `view[i] ^= signMask` -/
def flipSign (nbytes : ℕ) (signed : Bool) (x : BitVec w) : BitVec w :=
  element w (toInt32 (number signed x) ^^^ signMask nbytes).toInt

def sortColumns (nbytes : ℕ) (signed : Bool) (len : ℕ) (view : ℕ → BitVec w) : ℕ → BitVec w :=
  (forUpTo nbytes (fun col c => sortByColumn signed len col c)
    { array := view, aux := fun _ => 0, counts := fun _ => 0 }).array

/-- For integers, of which `signed` ones have their sign bit flipped. -/
def radixSort (fuel : ℕ) (array : ℕ → BitVec w) (len nbytes : ℕ) (signed : Bool)
    (comparefn : Comparator (BitVec w) (Store (BitVec w) Unit)) : Option (ℕ → BitVec w) :=
  if len < 512 then quickSortElements comparefn fuel len array
  else
    let view := if signed = true then
        forUpTo len (fun i view => Function.update view i (flipSign nbytes signed (view i))) array
      else array
    let view := sortColumns nbytes signed len view
    some (if signed = true then
        forUpTo len (fun i view => Function.update view i (flipSign nbytes signed (view i))) view
      else view)

/-- The sign bit of positive numbers is flipped, and all bits of negative ones, except negative NaNs. -/
def flipFloat (x : BitVec 32) : BitVec 32 :=
  if x &&& signMask 4 ≠ 0 then
    if x &&& 0x7F800000 ≠ 0x7F800000 ∨ x &&& 0x007FFFFF = 0 then x ^^^ 0xFFFFFFFF else x
  else x ^^^ signMask 4

def restoreFloat (x : BitVec 32) : BitVec 32 := if x &&& signMask 4 ≠ 0 then x ^^^ signMask 4 else x ^^^ 0xFFFFFFFF

/-- For single floats, by their bits as signed integers.  Quick sort reads and writes values, so it cannot tell NaNs
from one another. -/
def radixSortFloating (fuel : ℕ) (array : ℕ → BitVec 32) (len : ℕ)
    (comparefn : Comparator (BitVec 32) (Store (BitVec 32) Unit)) : Option (ℕ → BitVec 32) :=
  if len < 512 then
    (quickSortElements comparefn fuel len fun i => canonicalize (array i)).map fun values i =>
      if i < len then values i else array i
  else
    let view := forUpTo len (fun i view => Function.update view i (flipFloat (view i))) array
    let view := sortColumns 4 true len view
    some (forUpTo len (fun i view => Function.update view i (restoreFloat (view i))) view)

end SpiderMonkey.Sorting
