import SpiderMonkey.Lib.Radix
import Mathlib.Algebra.Order.Group.Unbundled.Int

/-!
# BigInt cells, their values and their allocation

A `BigInt` is a sign and a little-endian vector of machine digits, 32 or 64 bits wide
(`DigitWidth`).  This file fixes that data model (`vm/BigIntType.h`), the integer a BigInt
denotes (`toInt`), what it means for one to be well formed, and the part of the runtime the
arithmetic code depends on: `createUninitialized`, which may fail and hands out cells whose
digits hold whatever the memory held before, and `destructivelyTrimHighZeroDigits`.

## Memory

`Run W` is the code's view of its surroundings.  A `JSContext` says which allocations fail and
which stale digits each of them exposes; `Heap` counts the allocations made so far and records
whether a digit has been used before it was written.  A `Cell` is a BigInt under construction:
each of its slots knows whether it has been written.  `Cell.publish` is the point from which
the cell is used as a BigInt, so that every digit of it may be read.

`Ensures m T Q` is the specification the arithmetic is verified against: whatever the
allocations do, `m` either returns a value satisfying `Q` without any unset digit having been
used, or reports one of the two allocation failures, and the size limit is only ever reported
when `T` holds.
-/

namespace SpiderMonkey

open List

/-- The size of `BigInt::Digit`, which is `uintptr_t`. -/
inductive DigitWidth where
  | bits32
  | bits64
  deriving DecidableEq, Repr

def DigitWidth.bits : DigitWidth → ℕ
  | .bits32 => 32
  | .bits64 => 64

lemma DigitWidth.bits_pos (W : DigitWidth) : 0 < W.bits := by cases W <;> decide

lemma DigitWidth.one_lt_bits (W : DigitWidth) : 1 < W.bits := by cases W <;> decide

lemma DigitWidth.bits_eq (W : DigitWidth) : W.bits = 32 ∨ W.bits = 64 := by
  cases W with
  | bits32 => exact .inl rfl
  | bits64 => exact .inr rfl

abbrev Digit (W : DigitWidth) := BitVec W.bits

/-! ## Values -/

/-- A BigInt all of whose digits are present, least significant digit first. -/
structure BigInt (W : DigitWidth) where
  isNegative : Bool
  digits : List (Digit W)
  deriving DecidableEq, Repr

namespace BigInt

variable {W : DigitWidth}

def MaxBitLength : ℕ := 1024 * 1024

def MaxDigitLength (W : DigitWidth) : ℕ := MaxBitLength / W.bits

/-- `BigInt::InlineDigitsLength`: a cell has room for eight bytes of digits. -/
def InlineDigitsLength (W : DigitWidth) : ℕ := 64 / W.bits

lemma bits_mul_maxDigitLength (W : DigitWidth) : W.bits * MaxDigitLength W = MaxBitLength := by
  cases W <;> decide

def CeilDiv (numerator denominator : ℕ) : ℕ := 1 + (numerator - 1) / denominator

variable (x : BigInt W)

def digitLength : ℕ := x.digits.length

def digit (i : ℕ) : Digit W := x.digits.getD i 0#_

def isZero : Bool := x.digitLength == 0

def mag : ℕ := Radix.val x.digits

def toInt : ℤ := if x.isNegative then -(x.mag : ℤ) else x.mag

/-- What every BigInt that has left the arithmetic code satisfies: no high zero digit, no
negative zero, and no more digits than `createUninitialized` hands out. -/
structure WellFormed (x : BigInt W) : Prop where
  noHighZero : Radix.NoHighZero x.digits
  noNegativeZero : x.digits = [] → x.isNegative = false
  length_le : x.digitLength ≤ MaxDigitLength W

instance (x : BigInt W) : Decidable x.WellFormed :=
  decidable_of_iff (Radix.NoHighZero x.digits ∧ (x.digits = [] → x.isNegative = false) ∧
      x.digitLength ≤ MaxDigitLength W)
    ⟨fun ⟨h₁, h₂, h₃⟩ => ⟨h₁, h₂, h₃⟩, fun ⟨h₁, h₂, h₃⟩ => ⟨h₁, h₂, h₃⟩⟩

@[simp] lemma isZero_iff {x : BigInt W} : x.isZero = true ↔ x.digits = [] := by
  simp [isZero, digitLength, length_eq_zero_iff]

@[simp] lemma isZero_eq_false_iff {x : BigInt W} : x.isZero = false ↔ x.digits ≠ [] := by
  rw [← Bool.not_eq_true, isZero_iff]

@[simp] lemma natAbs_toInt : x.toInt.natAbs = x.mag := by
  unfold toInt; split <;> simp

lemma toInt_of_nonneg {x : BigInt W} (h : x.isNegative = false) : x.toInt = x.mag := by
  simp [toInt, h]

lemma toInt_of_negative {x : BigInt W} (h : x.isNegative = true) : x.toInt = -(x.mag : ℤ) := by
  simp [toInt, h]

lemma mag_lt : x.mag < (2 ^ W.bits) ^ x.digitLength := Radix.val_lt _

/-- A one-digit BigInt is its digit. -/
lemma mag_of_length_one {x : BigInt W} (h : x.digitLength = 1) : x.mag = (x.digit 0).toNat := by
  obtain ⟨d, hd⟩ := length_eq_one_iff.mp h
  simp [mag, digit, hd]

namespace WellFormed

variable {x y : BigInt W}

section

variable (hx : x.WellFormed)

include hx

lemma mag_pos (h : x.digits ≠ []) : 0 < x.mag := hx.noHighZero.val_pos h

lemma mag_eq_zero_iff : x.mag = 0 ↔ x.digits = [] := hx.noHighZero.val_eq_zero_iff

lemma mag_pos_of_negative (h : x.isNegative = true) : 0 < x.mag := by
  refine hx.mag_pos fun hnil => ?_
  simp [hx.noNegativeZero hnil] at h

/-- The magnitude of a well-formed BigInt has at most `MaxBitLength` bits. -/
lemma mag_lt_two_pow : x.mag < 2 ^ MaxBitLength := by
  calc x.mag < (2 ^ W.bits) ^ x.digitLength := x.mag_lt
    _ ≤ (2 ^ W.bits) ^ MaxDigitLength W := Nat.pow_le_pow_right (by positivity) hx.length_le
    _ = 2 ^ MaxBitLength := by rw [← pow_mul, bits_mul_maxDigitLength]

lemma toInt_neg_iff : x.toInt < 0 ↔ x.isNegative = true := by
  cases h : x.isNegative with
  | false => simp [toInt_of_nonneg h]
  | true => simp [toInt_of_negative h, hx.mag_pos_of_negative h]

lemma toInt_eq_zero_iff : x.toInt = 0 ↔ x.digits = [] := by
  simp [← hx.mag_eq_zero_iff, ← Int.natAbs_eq_zero]

/-- A well-formed BigInt is determined by the integer it denotes. -/
theorem toInt_injective (hy : y.WellFormed) (h : x.toInt = y.toInt) : x = y := by
  have hneg : x.isNegative = y.isNegative := by
    rw [Bool.eq_iff_iff, ← hx.toInt_neg_iff, ← hy.toInt_neg_iff, h]
  have hmag : x.mag = y.mag := by rw [← natAbs_toInt, h, natAbs_toInt]
  have hdigits : x.digits = y.digits := hx.noHighZero.val_inj W.bits_pos hy.noHighZero hmag
  cases x; cases y; simp_all

end

end WellFormed

end BigInt

/-! ## The memory a run of the code works in -/

/-- What the runtime decides for the code: which allocations fail, and which digits the memory
of each allocation happens to hold. -/
structure JSContext (W : DigitWidth) where
  allocFails : ℕ → Bool
  stale : ℕ → ℕ → Digit W

/-- A context in which every allocation succeeds and exposes the given stale digit. -/
def JSContext.infallible {W : DigitWidth} (stale : Digit W) : JSContext W where
  allocFails _ := false
  stale _ _ := stale

/-- The number of allocations made, and whether a digit has been used before it was written. -/
structure Heap where
  allocs : ℕ
  unsetRead : Bool
  deriving DecidableEq, Repr

def Heap.init : Heap := ⟨0, false⟩

inductive Failure where
  /-- An allocation failed. -/
  | outOfMemory
  /-- `JSMSG_BIGINT_TOO_LARGE`. -/
  | bigIntTooLarge
  /-- `JSMSG_BIGINT_NEGATIVE_EXPONENT`. -/
  | bigIntNegativeExponent
  /-- `JSMSG_BIGINT_DIVISION_BY_ZERO`. -/
  | bigIntDivisionByZero
  /-- A digit was written outside its cell, which the bounds check of `Span` turns into a
  crash, or a character in front of its buffer. -/
  | outOfBounds
  /-- A `MOZ_ASSERT` does not hold. -/
  | assertion
  deriving DecidableEq, Repr

/-- A run of BigInt code. -/
abbrev Run (W : DigitWidth) := ReaderT (JSContext W) (StateT Heap (Except Failure))

/-- A digit of a BigInt under construction: what the memory held before, or what has been
written. -/
inductive Slot (W : DigitWidth) where
  | unset (stale : Digit W)
  | set (d : Digit W)

namespace Slot

variable {W : DigitWidth}

def read : Slot W → Digit W
  | .unset d => d
  | .set d => d

def isUnset : Slot W → Bool
  | .unset _ => true
  | .set _ => false

end Slot

/-- A BigInt under construction. -/
structure Cell (W : DigitWidth) where
  isNegative : Bool
  slots : List (Slot W)

variable {W : DigitWidth} {α β : Type}

/-- One request to the allocator; the number of the allocation it made. -/
def allocate : Run W ℕ := fun cx heap =>
  if cx.allocFails heap.allocs then .error .outOfMemory
  else .ok (heap.allocs, { heap with allocs := heap.allocs + 1 })

def mozAssert (p : Prop) [Decidable p] : Run W Unit :=
  if p then return else throw .assertion

namespace Cell

/-- The calls `setDigit(start, ds[0]), setDigit(start + 1, ds[1]), …`. -/
def setDigits (c : Cell W) (start : ℕ) (ds : List (Digit W)) : Run W (Cell W) :=
  if start + ds.length ≤ c.slots.length then
    return { c with
      slots := c.slots.take start ++ ds.map .set ++ c.slots.drop (start + ds.length) }
  else
    throw .outOfBounds

/-- From here on the cell is used as a BigInt, so that all of its digits may be read. -/
def publish (c : Cell W) : Run W (BigInt W) := do
  modify fun heap => { heap with unsetRead := heap.unsetRead || c.slots.any Slot.isUnset }
  return ⟨c.isNegative, c.slots.map Slot.read⟩

end Cell

namespace BigInt

/-- The cell and, when the digits do not fit into it, memory of their own for them. -/
def allocateBigInt (digitLength : ℕ) : Run W ℕ := do
  let cell ← allocate
  if digitLength > InlineDigitsLength W then allocate else return cell

def createUninitialized (digitLength : ℕ) (isNegative : Bool) : Run W (Cell W) :=
  if digitLength > MaxDigitLength W then throw .bigIntTooLarge
  else do
    let memory ← allocateBigInt digitLength
    let cx ← read
    return { isNegative, slots := (List.range digitLength).map fun i => .unset (cx.stale memory i) }

def zero : Run W (BigInt W) := do (← createUninitialized 0 false).publish

def createFromDigit (d : Digit W) (isNegative : Bool) : Run W (BigInt W) := do
  let res ← createUninitialized 1 isNegative
  let res ← res.setDigits 0 [d]
  res.publish

def one : Run W (BigInt W) := createFromDigit 1#_ false

def negativeOne : Run W (BigInt W) := createFromDigit 1#_ true

/-- Digits that stay outside the cell are reallocated; digits that fit are moved into it. -/
def shrinkDigits (newLength : ℕ) : Run W Unit :=
  if newLength > InlineDigitsLength W then discard allocate else return

def destructivelyTrimHighZeroDigits (x : BigInt W) : Run W (BigInt W) :=
  if x.isZero then return x
  else
    -- The scan for `nonZeroIndex`: what is left is `digit(0) … digit(nonZeroIndex)`.
    let digits := Radix.trim x.digits
    if digits.length = 0 then zero
    else if digits.length = x.digitLength then return x
    else do
      shrinkDigits digits.length
      return ⟨x.isNegative, digits⟩

end BigInt

/-! ## Specifications of runs -/

/-- What a run that started in `heap` may come to: a value satisfying `Q` with no unset digit
used, an allocation failure, or the size limit, which is only reported when `T` holds. -/
def Outcome (cx : JSContext W) (heap : Heap) (T : Prop) (Q : α → Prop) : Except Failure (α × Heap) → Prop
  | .ok (a, heap') => Q a ∧ heap'.unsetRead = heap.unsetRead
  | .error .bigIntTooLarge => T
  | .error .outOfMemory => ∃ k, cx.allocFails k = true
  | .error _ => False

/-- Whatever the allocations do, `m` comes to an outcome that `T` and `Q` allow. -/
def Ensures (m : Run W α) (T : Prop) (Q : α → Prop) : Prop :=
  ∀ cx heap, Outcome cx heap T Q (m cx heap)

namespace Ensures

variable {m : Run W α} {f : α → Run W β} {T T' : Prop} {Q Q' : α → Prop} {R : β → Prop}

protected lemma pure {a : α} (h : Q a) : Ensures (W := W) (pure a) T Q := fun _ _ => ⟨h, rfl⟩

protected lemma bind (hm : Ensures m T Q) (hf : ∀ a, Q a → Ensures (f a) T R) : Ensures (m >>= f) T R := by
  intro cx heap
  have h := hm cx heap
  change Outcome cx heap T R (m cx heap >>= fun p => f p.1 cx p.2)
  cases hrun : m cx heap with
  | error e => rw [hrun] at h; cases e <;> exact h
  | ok p =>
    obtain ⟨a, heap'⟩ := p
    rw [hrun] at h
    obtain ⟨ha, hheap⟩ := h
    have h' := hf a ha cx heap'
    change Outcome cx heap T R (f a cx heap')
    cases hrun' : f a cx heap' with
    | error e => rw [hrun'] at h'; cases e <;> exact h'
    | ok q => rw [hrun'] at h'; exact ⟨h'.1, h'.2.trans hheap⟩

lemma mono (hm : Ensures m T Q) (hT : T → T') (hQ : ∀ a, Q a → Q' a) : Ensures m T' Q' := by
  intro cx heap
  have h := hm cx heap
  cases hrun : m cx heap with
  | error e =>
    rw [hrun] at h
    cases e with
    | bigIntTooLarge => exact hT h
    | _ => exact h
  | ok p => rw [hrun] at h; exact ⟨hQ _ h.1, h.2⟩

lemma imp (hm : Ensures m T Q) (hQ : ∀ a, Q a → Q' a) : Ensures m T Q' := hm.mono id hQ

protected lemma ite {c : Prop} [Decidable c] {m₁ m₂ : Run W α} (h₁ : c → Ensures m₁ T Q) (h₂ : ¬c → Ensures m₂ T Q) :
    Ensures (if c then m₁ else m₂) T Q := by
  split
  next h => exact h₁ h
  next h => exact h₂ h

lemma bind_ok {cx : JSContext W} {heap heap' : Heap} {a : α}
    (h : m cx heap = .ok (a, heap')) : (m >>= f) cx heap = f a cx heap' := by
  change (m cx heap >>= fun p => f p.1 cx p.2) = _
  rw [h]
  rfl

lemma exists_ok (hm : Ensures m False Q) (stale : Digit W) (heap : Heap) :
    ∃ a heap', m (.infallible stale) heap = .ok (a, heap') ∧ Q a ∧ heap'.unsetRead = heap.unsetRead := by
  have h := hm (.infallible stale) heap
  cases hrun : m (.infallible stale) heap with
  | ok p => rw [hrun] at h; exact ⟨p.1, p.2, rfl, h⟩
  | error e =>
    rw [hrun] at h
    cases e with
    | outOfMemory => obtain ⟨k, hk⟩ := h; simp [JSContext.infallible] at hk
    | _ => exact h.elim

lemma of_ok {cx : JSContext W} {heap heap' : Heap} {a : α} (hm : Ensures m T Q)
    (h : m cx heap = .ok (a, heap')) : Q a := by
  have := hm cx heap
  rw [h] at this
  exact this.1

lemma tooLarge (h : T) : Ensures (W := W) (throw .bigIntTooLarge) T Q := fun _ _ => h

lemma bind_read {g : JSContext W → Run W β} (hg : ∀ cx, Ensures (g cx) T R) :
    Ensures (read >>= g) T R := fun cx heap => hg cx cx heap

end Ensures

lemma ensures_allocate {T : Prop} : Ensures (W := W) allocate T fun _ => True := by
  intro cx heap
  unfold allocate
  split
  next h => exact ⟨_, h⟩
  next => exact ⟨trivial, rfl⟩

lemma ensures_mozAssert {T : Prop} {p : Prop} [Decidable p] (h : p) :
    Ensures (W := W) (mozAssert p) T fun _ => True := by
  unfold mozAssert
  rw [if_pos h]
  exact .pure trivial

namespace BigInt

variable {T : Prop} {n start : ℕ} {sign : Bool} {ds : List (Digit W)} {x : BigInt W}

lemma ensures_createUninitialized (hT : MaxDigitLength W < n → T) : Ensures (createUninitialized n sign) T
      fun c : Cell W => c.isNegative = sign ∧ c.slots.length = n ∧ n ≤ MaxDigitLength W := by
  refine .ite (fun h => .tooLarge (hT h)) fun h => ?_
  refine Ensures.bind (Q := fun _ => True) ?_ fun memory _ => ?_
  · refine ensures_allocate.bind fun cell _ => ?_
    exact .ite (fun _ => ensures_allocate) fun _ => .pure trivial
  · exact .bind_read fun cx => .pure ⟨rfl, by simp, Nat.le_of_not_lt h⟩

lemma createUninitialized_infallible (hn : n ≤ MaxDigitLength W) (sign : Bool) (stale : Digit W) (heap : Heap) :
    ∃ heap', createUninitialized n sign (.infallible stale) heap =
        .ok (⟨sign, List.replicate n (.unset stale)⟩, heap') ∧
      heap'.unsetRead = heap.unsetRead := by
  have hcell : (List.range n).map (fun _ => Slot.unset stale) = List.replicate n (.unset stale) := by
    simp
  have hallocate : ∀ heap : Heap, allocate (W := W) (.infallible stale) heap =
      .ok (heap.allocs, { heap with allocs := heap.allocs + 1 }) := fun _ => rfl
  obtain ⟨memory, heap', hrun, hheap⟩ : ∃ memory heap',
      allocateBigInt (W := W) n (.infallible stale) heap = .ok (memory, heap') ∧
      heap'.unsetRead = heap.unsetRead := by
    unfold allocateBigInt
    rw [Ensures.bind_ok (hallocate heap)]
    by_cases h : n > InlineDigitsLength W
    · simp [h, hallocate]
    · rw [if_neg h]; exact ⟨_, _, rfl, rfl⟩
  refine ⟨heap', ?_, hheap⟩
  unfold createUninitialized
  rw [if_neg (Nat.not_lt_of_le hn), Ensures.bind_ok hrun, ← hcell]
  rfl

lemma ensures_setDigits {c : Cell W} (h : start + ds.length ≤ c.slots.length) :
    Ensures (c.setDigits start ds) T fun c' => c' = { c with
      slots := c.slots.take start ++ ds.map .set ++ c.slots.drop (start + ds.length) } := by
  unfold Cell.setDigits
  rw [if_pos h]
  exact .pure rfl

lemma ensures_publish (ds : List (Digit W)) : Ensures (Cell.publish ⟨sign, ds.map .set⟩) T
    fun x : BigInt W => x = ⟨sign, ds⟩ := by
  intro cx heap
  have hunset : (ds.map Slot.set).any Slot.isUnset = false := by
    simp [any_eq_false, Slot.isUnset]
  have hread : (ds.map Slot.set).map Slot.read = ds := by
    rw [map_map]; exact map_id ds
  refine ⟨?_, ?_⟩
  · simp only [hread]
  · change (heap.unsetRead || (ds.map Slot.set).any Slot.isUnset) = heap.unsetRead
    simp [hunset]

lemma publish_unset (d : Digit W) (cx : JSContext W) (heap : Heap) :
    Cell.publish ⟨sign, ds.map Slot.set ++ [Slot.unset d]⟩ cx heap = .ok (⟨sign, ds ++ [d]⟩, ⟨heap.allocs, true⟩) := by
  have hread : (ds.map Slot.set ++ [Slot.unset d]).map Slot.read = ds ++ [d] := by
    simp [Function.comp_def, Slot.read]
  have hunset : (ds.map Slot.set ++ [Slot.unset d]).any Slot.isUnset = true := by
    simp [Slot.isUnset]
  unfold Cell.publish
  rw [hread]
  change Except.ok (_, (⟨heap.allocs, heap.unsetRead || _⟩ : Heap)) = _
  simp [hunset]

lemma setDigits_unset (hlen : ds.length = n) (d : Digit W) (cx : JSContext W) (heap : Heap) :
    Cell.setDigits ⟨sign, List.replicate (n + 1) (.unset d)⟩ 0 ds cx heap =
      .ok (⟨sign, ds.map Slot.set ++ [Slot.unset d]⟩, heap) := by
  unfold Cell.setDigits
  rw [if_pos (by simp [hlen])]
  simp only [take_zero, nil_append, Nat.zero_add, drop_replicate, hlen, Nat.add_sub_cancel_left]
  rfl

lemma ensures_setDigits_all {c : Cell W} (ds : List (Digit W)) (hlen : ds.length = c.slots.length) :
    Ensures (c.setDigits 0 ds) T fun c' => c' = ⟨c.isNegative, ds.map .set⟩ := by
  refine (ensures_setDigits (by omega)).imp fun c' hc' => ?_
  rw [hc', hlen]
  simp

/-- A cell is created, all of its digits are written, and it is used as a BigInt. -/
lemma ensures_fill (ds : List (Digit W)) (hlen : ds.length = n) (hT : MaxDigitLength W < n → T) :
    Ensures (createUninitialized n sign >>= fun c => c.setDigits 0 ds >>= Cell.publish) T
      fun x : BigInt W => x = ⟨sign, ds⟩ ∧ n ≤ MaxDigitLength W := by
  refine (ensures_createUninitialized hT).bind fun c hc => ?_
  refine (ensures_setDigits_all ds (by rw [hc.2.1, hlen])).bind fun c' hc' => ?_
  rw [hc', hc.1]
  exact (ensures_publish ds).imp fun x hx => ⟨hx, hc.2.2⟩

lemma wellFormed_zero : (⟨false, []⟩ : BigInt W).WellFormed := ⟨by simp, by simp, Nat.zero_le _⟩

lemma ensures_zero : Ensures (zero (W := W)) T fun x => x = ⟨false, []⟩ := by
  refine (ensures_createUninitialized fun h => absurd h (Nat.not_lt_zero _)).bind fun c hc => ?_
  obtain ⟨_, slots⟩ := c
  obtain ⟨rfl, hlen, -⟩ := hc
  obtain rfl : slots = [] := length_eq_zero_iff.mp hlen
  exact ensures_publish []

lemma one_le_maxDigitLength (W : DigitWidth) : 1 ≤ MaxDigitLength W := by cases W <;> decide

lemma ensures_createFromDigit (d : Digit W) : Ensures (createFromDigit d sign) T fun x => x = ⟨sign, [d]⟩ :=
  (ensures_fill [d] rfl fun h => absurd h (Nat.not_lt_of_le (one_le_maxDigitLength W))).imp
    fun _ hx => hx.1

lemma wellFormed_digit {d : Digit W} (hd : d ≠ 0#_) : (⟨sign, [d]⟩ : BigInt W).WellFormed :=
  ⟨by simpa [Radix.NoHighZero] using hd, by simp, one_le_maxDigitLength W⟩

@[simp] lemma toInt_zero : (⟨false, []⟩ : BigInt W).toInt = 0 := rfl

lemma toInt_mk (sign : Bool) (ds : List (Digit W)) :
    (⟨sign, ds⟩ : BigInt W).toInt = if sign then -(Radix.val ds : ℤ) else Radix.val ds := rfl

lemma ensures_shrinkDigits : Ensures (shrinkDigits (W := W) n) T fun _ => True :=
  .ite (fun _ => ensures_allocate.bind fun _ _ => .pure trivial) fun _ => .pure trivial

lemma ensures_trim (hlen : x.digitLength ≤ MaxDigitLength W) (hneg : x.digits = [] → x.isNegative = false) :
    Ensures (destructivelyTrimHighZeroDigits x) T
      fun r => r.WellFormed ∧ r.toInt = x.toInt := by
  have hval : (⟨x.isNegative, Radix.trim x.digits⟩ : BigInt W).toInt = x.toInt := by
    rw [toInt_mk, Radix.val_trim]; rfl
  refine .ite (fun h => .pure ⟨?_, rfl⟩) fun h => ?_
  · rw [isZero_iff] at h
    exact ⟨by rw [h]; simp, fun _ => hneg h, hlen⟩
  refine .ite (fun hnil => ensures_zero.imp ?_) fun hnil => ?_
  · rintro r rfl
    refine ⟨wellFormed_zero, ?_⟩
    rw [← hval, length_eq_zero_iff.mp hnil]
    simp [toInt_mk]
  have hwf : (⟨x.isNegative, Radix.trim x.digits⟩ : BigInt W).WellFormed :=
    ⟨Radix.noHighZero_trim _, fun h0 => absurd (length_eq_zero_iff.mpr h0) hnil, (Radix.length_trim_le _).trans hlen⟩
  refine .ite (fun hsame => .pure ⟨?_, rfl⟩) fun _ => ?_
  · have : Radix.trim x.digits = x.digits :=
      (List.rdropWhile_prefix _ x.digits).eq_of_length hsame
    rw [this] at hwf
    exact hwf
  · exact ensures_shrinkDigits.bind fun _ _ => .pure ⟨hwf, hval⟩

/-- A cell is created, all of its digits are written, and it is trimmed. -/
lemma ensures_fill_trim (ds : List (Digit W)) (hlen : ds.length = n) (hT : MaxDigitLength W < n → T)
    (hsign : ds = [] → sign = false) :
    Ensures (createUninitialized n sign >>= fun c => c.setDigits 0 ds >>= fun c => c.publish >>=
      destructivelyTrimHighZeroDigits) T
      fun r : BigInt W => r.WellFormed ∧ r.toInt = (⟨sign, ds⟩ : BigInt W).toInt := by
  refine (ensures_createUninitialized hT).bind fun c hc => ?_
  refine (ensures_setDigits_all ds (by rw [hc.2.1, hlen])).bind fun c' hc' => ?_
  rw [hc', hc.1]
  refine (ensures_publish ds).bind fun x hx => ?_
  subst hx
  exact ensures_trim (hlen ▸ hc.2.2 : ds.length ≤ _) hsign

/-! ## Copies and negation -/

def copy (x : BigInt W) : Run W (BigInt W) :=
  if x.isZero then zero
  else do
    let result ← createUninitialized x.digitLength x.isNegative
    let result ← result.setDigits 0 x.digits
    result.publish

def neg (x : BigInt W) : Run W (BigInt W) :=
  if x.isZero then return x
  else do
    let result ← copy x
    return { result with isNegative := !result.isNegative }

lemma WellFormed.toggle (hx : x.WellFormed) (h : x.digits ≠ []) (b : Bool) : (⟨b, x.digits⟩ : BigInt W).WellFormed :=
  ⟨hx.noHighZero, fun hnil => absurd hnil h, hx.length_le⟩

lemma ensures_copy (hx : x.WellFormed) : Ensures (copy x) T fun r => r = x := by
  refine .ite (fun h => ensures_zero.imp ?_) fun h => ?_
  · rintro r rfl
    rw [isZero_iff] at h
    have hsign := hx.noNegativeZero h
    cases x; simp_all
  · exact (ensures_fill x.digits rfl fun h => absurd hx.length_le (Nat.not_le_of_lt h)).imp
      fun r hr => hr.1

lemma ensures_neg (hx : x.WellFormed) : Ensures (BigInt.neg x) T fun r => r.WellFormed ∧ r.toInt = -x.toInt := by
  refine .ite (fun h => .pure ⟨hx, ?_⟩) fun h => (ensures_copy hx).bind ?_
  · rw [hx.toInt_eq_zero_iff.mpr (isZero_iff.mp h)]; rfl
  · intro r hr
    subst hr
    rw [isZero_iff] at h
    refine .pure ⟨hx.toggle h _, ?_⟩
    cases hs : r.isNegative <;> simp [toInt, hs, mag]

end BigInt

end SpiderMonkey
