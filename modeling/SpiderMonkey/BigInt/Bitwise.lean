import SpiderMonkey.BigInt.Increment
import Mathlib.Data.Int.Bitwise

/-!
# Bitwise operators

`bitAnd`, `bitOr`, `bitXor` and `bitNot` treat a BigInt as an infinite two's-complement bit
string.  A negative `x` has the bits of the complement of `|x| - 1`, so each operator takes its
negative operands to `|x| - 1`, combines magnitudes with one of `absoluteAnd`, `absoluteOr`,
`absoluteXor` and `absoluteAndNot`, and takes a negative result back.

The digit loop is one function, `bitwiseLoop`, with three policies for the digits of the longer
operand.  `testBit_bitwiseLoop` describes it bit by bit, for every policy at once; the four
absolute operators and the sign cases of the operators above them are instances.
-/

namespace SpiderMonkey

open Radix

/-! ## The digit loop -/

/-- `BigInt::BitwiseOpKind`: what happens to the digits one operand has and the other lacks. -/
inductive BitwiseOpKind where
  /-- They are dropped. -/
  | symmetricTrim
  /-- They are kept. -/
  | symmetricFill
  /-- Those of the first operand are kept. -/
  | asymmetricFill
  deriving DecidableEq

section Loop

variable {w : ℕ} {kind : BitwiseOpKind} {op : BitVec w → BitVec w → BitVec w}
  {f : Bool → Bool → Bool}

def bitwiseLoop (kind : BitwiseOpKind) (op : BitVec w → BitVec w → BitVec w) :
    List (BitVec w) → List (BitVec w) → List (BitVec w)
  | x :: xs, y :: ys => op x y :: bitwiseLoop kind op xs ys
  | xs, [] => if kind = .symmetricTrim then [] else xs
  | [], ys => if kind = .symmetricFill then ys else []

def BitwiseOpKind.resultLength (kind : BitwiseOpKind) (xLength yLength : ℕ) : ℕ :=
  match kind with
  | .symmetricTrim => min xLength yLength
  | .symmetricFill => max xLength yLength
  | .asymmetricFill => xLength

/-- Filling up with digits of the longer operand amounts to combining them with zero digits. -/
structure BitwiseOpKind.Fits (kind : BitwiseOpKind) (f : Bool → Bool → Bool) : Prop where
  left : ∀ b, f b false = if kind = .symmetricTrim then false else b
  right : ∀ b, f false b = if kind = .symmetricFill then b else false

lemma length_bitwiseLoop : ∀ xs ys : List (BitVec w),
    (bitwiseLoop kind op xs ys).length = kind.resultLength xs.length ys.length
  | x :: xs, y :: ys => by
    simp only [bitwiseLoop, List.length_cons, length_bitwiseLoop xs ys]
    cases kind <;> simp [BitwiseOpKind.resultLength]
  | [], [] => by cases kind <;> rfl
  | x :: xs, [] => by cases kind <;> simp [bitwiseLoop, BitwiseOpKind.resultLength]
  | [], y :: ys => by cases kind <;> simp [bitwiseLoop, BitwiseOpKind.resultLength]

lemma testBit_bitwiseLoop (hf : kind.Fits f) (hop : ∀ a b : BitVec w, ∀ j < w,
      (op a b).toNat.testBit j = f (a.toNat.testBit j) (b.toNat.testBit j)) :
    ∀ (xs ys : List (BitVec w)) (i : ℕ), (val (bitwiseLoop kind op xs ys)).testBit i =
      f ((val xs).testBit i) ((val ys).testBit i)
  | x :: xs, y :: ys, i => by
    have hsplit : ∀ (d : BitVec w) (n : ℕ), (d.toNat + 2 ^ w * n).testBit i =
        if i < w then d.toNat.testBit i else n.testBit (i - w) := fun d n => by
      rw [Nat.add_comm, Nat.testBit_two_pow_mul_add n d.isLt]
    simp only [bitwiseLoop, val_cons, hsplit, testBit_bitwiseLoop hf hop xs ys]
    split
    next h => exact hop x y i h
    next => rfl
  | [], [], i => by simp [bitwiseLoop, hf.left]
  | x :: xs, [], i => by
    simp only [bitwiseLoop, val_nil, Nat.zero_testBit, hf.left]
    split <;> simp
  | [], y :: ys, i => by
    simp only [bitwiseLoop, val_nil, Nat.zero_testBit, hf.right]
    split <;> simp

end Loop

namespace BigInt

open Int

variable {W : DigitWidth} {T : Prop} {x y : BigInt W}

/-! ## Magnitudes -/

def absoluteBitwiseOp (kind : BitwiseOpKind) (op : Digit W → Digit W → Digit W)
    (x y : BigInt W) : Run W (BigInt W) := do
  let resultLength := kind.resultLength x.digitLength y.digitLength
  let resultNegative := false
  let result ← createUninitialized resultLength resultNegative
  let result ← result.setDigits 0 (bitwiseLoop kind op x.digits y.digits)
  let result ← result.publish
  destructivelyTrimHighZeroDigits result

def absoluteAnd (x y : BigInt W) : Run W (BigInt W) :=
  absoluteBitwiseOp .symmetricTrim (· &&& ·) x y

def absoluteOr (x y : BigInt W) : Run W (BigInt W) :=
  absoluteBitwiseOp .symmetricFill (· ||| ·) x y

def absoluteAndNot (x y : BigInt W) : Run W (BigInt W) :=
  absoluteBitwiseOp .asymmetricFill (fun a b => a &&& ~~~b) x y

def absoluteXor (x y : BigInt W) : Run W (BigInt W) :=
  absoluteBitwiseOp .symmetricFill (· ^^^ ·) x y

/-- A nonnegative result with the given magnitude. -/
def IsMag (n : ℕ) (r : BigInt W) : Prop := r.WellFormed ∧ r.toInt = n

lemma IsMag.mag_eq {n : ℕ} {r : BigInt W} (h : IsMag n r) : r.mag = n := by
  simp [← natAbs_toInt, h.2]

lemma ensures_absoluteBitwiseOp {kind : BitwiseOpKind} {op : Digit W → Digit W → Digit W}
    {f : Bool → Bool → Bool} {n : ℕ} (hf : kind.Fits f)
    (hop : ∀ a b : Digit W, ∀ j < W.bits, (op a b).toNat.testBit j = f (a.toNat.testBit j) (b.toNat.testBit j))
    (hn : ∀ i, n.testBit i = f (x.mag.testBit i) (y.mag.testBit i))
    (hx : x.WellFormed) (hy : y.WellFormed) :
    Ensures (absoluteBitwiseOp kind op x y) T (IsMag n) := by
  have hlen : kind.resultLength x.digitLength y.digitLength ≤ MaxDigitLength W := by
    have hxl := hx.length_le
    have hyl := hy.length_le
    cases kind <;> simp only [BitwiseOpKind.resultLength] <;> omega
  refine (ensures_fill_trim _ (length_bitwiseLoop _ _)
    (fun h => absurd hlen (Nat.not_le_of_lt h)) fun _ => rfl).imp fun r hr => ⟨hr.1, ?_⟩
  rw [hr.2, toInt_mk, if_neg Bool.false_ne_true]
  congr 1
  exact Nat.eq_of_testBit_eq fun i => (testBit_bitwiseLoop hf hop _ _ i).trans (hn i).symm

lemma ensures_absoluteAnd (hx : x.WellFormed) (hy : y.WellFormed) :
    Ensures (absoluteAnd x y) T (IsMag (x.mag &&& y.mag)) :=
  ensures_absoluteBitwiseOp (f := (· && ·)) ⟨by simp, by simp⟩ (by simp) (by simp) hx hy

lemma ensures_absoluteOr (hx : x.WellFormed) (hy : y.WellFormed) :
    Ensures (absoluteOr x y) T (IsMag (x.mag ||| y.mag)) :=
  ensures_absoluteBitwiseOp (f := (· || ·)) ⟨by simp, by simp⟩ (by simp) (by simp) hx hy

lemma ensures_absoluteXor (hx : x.WellFormed) (hy : y.WellFormed) :
    Ensures (absoluteXor x y) T (IsMag (x.mag ^^^ y.mag)) :=
  ensures_absoluteBitwiseOp (f := (· ^^ ·)) ⟨by simp, by simp⟩ (by simp) (by simp) hx hy

lemma ensures_absoluteAndNot (hx : x.WellFormed) (hy : y.WellFormed) :
    Ensures (absoluteAndNot x y) T (IsMag (Nat.ldiff x.mag y.mag)) := by
  refine ensures_absoluteBitwiseOp (f := fun a b => a && !b) ⟨by simp, by simp⟩ ?_ ?_ hx hy
  · intro a b j hj
    simp only [BitVec.testBit_toNat, BitVec.getLsbD_and, BitVec.getLsbD_not, hj, decide_true, Bool.true_and]
  · intro i
    exact Nat.testBit_ldiff _ _ i

/-! ## The operators -/

def bitAnd (x y : BigInt W) : Run W (BigInt W) :=
  if x.isZero then return x
  else if y.isZero then return y
  else if !x.isNegative && !y.isNegative then absoluteAnd x y
  else if x.isNegative && y.isNegative then do
    -- (-x) & (-y) == ~(x-1) & ~(y-1) == ~((x-1) | (y-1)) == -(((x-1) | (y-1)) + 1)
    let x1 ← absoluteSubOne x false
    let y1 ← absoluteSubOne y false
    let result ← absoluteOr x1 y1
    absoluteAddOne result true
  else do
    let pos := if x.isNegative then y else x
    let neg := if x.isNegative then x else y
    -- x & (-y) == x & ~(y-1)
    let neg1 ← absoluteSubOne neg false
    absoluteAndNot pos neg1

def bitXor (x y : BigInt W) : Run W (BigInt W) :=
  if x.isZero then return y
  else if y.isZero then return x
  else if !x.isNegative && !y.isNegative then absoluteXor x y
  else if x.isNegative && y.isNegative then do
    -- (-x) ^ (-y) == ~(x-1) ^ ~(y-1) == (x-1) ^ (y-1)
    let x1 ← absoluteSubOne x false
    let y1 ← absoluteSubOne y false
    absoluteXor x1 y1
  else do
    let pos := if x.isNegative then y else x
    let neg := if x.isNegative then x else y
    -- x ^ (-y) == x ^ ~(y-1) == ~(x ^ (y-1)) == -((x ^ (y-1)) + 1)
    let result ← absoluteSubOne neg false
    let result ← absoluteXor result pos
    absoluteAddOne result true

def bitOr (x y : BigInt W) : Run W (BigInt W) :=
  if x.isZero then return y
  else if y.isZero then return x
  else
    let resultNegative := x.isNegative || y.isNegative
    if !resultNegative then absoluteOr x y
    else if x.isNegative && y.isNegative then do
      -- (-x) | (-y) == ~(x-1) | ~(y-1) == ~((x-1) & (y-1)) == -(((x-1) & (y-1)) + 1)
      let result ← absoluteSubOne x false
      let y1 ← absoluteSubOne y false
      let result ← absoluteAnd result y1
      absoluteAddOne result resultNegative
    else do
      let pos := if x.isNegative then y else x
      let neg := if x.isNegative then x else y
      -- x | (-y) == x | ~(y-1) == ~((y-1) &~ x) == -(((y-1) &~ x) + 1)
      let result ← absoluteSubOne neg false
      let result ← absoluteAndNot result pos
      absoluteAddOne result resultNegative

def bitNot (x : BigInt W) : Run W (BigInt W) :=
  if x.isNegative then absoluteSubOne x false
  else absoluteAddOne x true

/-! ## Two's complement -/

lemma toInt_negSucc (hx : x.WellFormed) (h : x.isNegative = true) : x.toInt = negSucc (x.mag - 1) := by
  have := hx.mag_pos_of_negative h
  rw [toInt_of_negative h, negSucc_eq]
  omega

/-- The predecessor of a negative operand's magnitude is the complement of its bits. -/
lemma ensures_subOne_negative (hx : x.WellFormed) (h : x.isNegative = true) :
    Ensures (absoluteSubOne x false) T (IsMag (x.mag - 1)) := by
  have := hx.mag_pos_of_negative h
  refine (ensures_absoluteSubOne hx.length_le this).imp fun r hr => ⟨hr.1, ?_⟩
  rw [hr.2, if_neg Bool.false_ne_true]
  omega

/-- The successor of a magnitude, negated, has the complement of its bits. -/
lemma ensures_addOne_negSucc {n : ℕ} (h : IsMag n x) (hT : 2 ^ MaxBitLength ≤ |negSucc n| → T) :
    Ensures (absoluteAddOne x true) T fun r => r.WellFormed ∧ r.toInt = negSucc n := by
  refine (ensures_absoluteAddOne h.1.length_le fun hle => hT ?_).imp fun r hr => ⟨hr.1, ?_⟩
  · rw [abs_eq_natAbs, natAbs_negSucc]
    rw [h.mag_eq] at hle
    exact_mod_cast hle
  · rw [hr.2, if_pos rfl, h.mag_eq, negSucc_eq]

theorem ensures_bitAnd (hx : x.WellFormed) (hy : y.WellFormed) :
    Ensures (bitAnd x y) (2 ^ MaxBitLength ≤ |land x.toInt y.toInt|) fun r =>
      r.WellFormed ∧ r.toInt = land x.toInt y.toInt := by
  have hzero : ∀ n : ℤ, land 0 n = 0 ∧ land n 0 = 0 := by
    rintro (n | n) <;> simp [land, Nat.ldiff]
  unfold bitAnd
  refine .ite (fun h => .pure ⟨hx, ?_⟩) fun _ => ?_
  · rw [hx.toInt_eq_zero_iff.mpr (isZero_iff.mp h), (hzero _).1]
  refine .ite (fun h => .pure ⟨hy, ?_⟩) fun _ => ?_
  · rw [hy.toInt_eq_zero_iff.mpr (isZero_iff.mp h), (hzero _).2]
  cases hxs : x.isNegative <;> cases hys : y.isNegative
  · rw [toInt_of_nonneg hxs, toInt_of_nonneg hys]
    exact ensures_absoluteAnd hx hy
  · rw [toInt_of_nonneg hxs, toInt_negSucc hy hys]
    refine (ensures_subOne_negative hy hys).bind fun neg1 h1 => ?_
    have := ensures_absoluteAndNot (T := 2 ^ MaxBitLength ≤ |land x.mag (negSucc (y.mag - 1))|) hx h1.1
    rwa [h1.mag_eq] at this
  · rw [toInt_negSucc hx hxs, toInt_of_nonneg hys]
    refine (ensures_subOne_negative hx hxs).bind fun neg1 h1 => ?_
    have := ensures_absoluteAndNot (T := 2 ^ MaxBitLength ≤ |land (negSucc (x.mag - 1)) y.mag|) hy h1.1
    rwa [h1.mag_eq] at this
  · rw [toInt_negSucc hx hxs, toInt_negSucc hy hys]
    refine (ensures_subOne_negative hx hxs).bind fun x1 hx1 => ?_
    refine (ensures_subOne_negative hy hys).bind fun y1 hy1 => ?_
    refine (ensures_absoluteOr hx1.1 hy1.1).bind fun result hr => ?_
    rw [hx1.mag_eq, hy1.mag_eq] at hr
    exact ensures_addOne_negSucc hr id

theorem ensures_bitXor (hx : x.WellFormed) (hy : y.WellFormed) :
    Ensures (bitXor x y) (2 ^ MaxBitLength ≤ |Int.xor x.toInt y.toInt|) fun r =>
      r.WellFormed ∧ r.toInt = Int.xor x.toInt y.toInt := by
  have hzero : ∀ n : ℤ, Int.xor 0 n = n ∧ Int.xor n 0 = n := by
    rintro (n | n) <;> simp [Int.xor]
  unfold bitXor
  refine .ite (fun h => .pure ⟨hy, ?_⟩) fun _ => ?_
  · rw [hx.toInt_eq_zero_iff.mpr (isZero_iff.mp h), (hzero _).1]
  refine .ite (fun h => .pure ⟨hx, ?_⟩) fun _ => ?_
  · rw [hy.toInt_eq_zero_iff.mpr (isZero_iff.mp h), (hzero _).2]
  cases hxs : x.isNegative <;> cases hys : y.isNegative
  · rw [toInt_of_nonneg hxs, toInt_of_nonneg hys]
    exact ensures_absoluteXor hx hy
  · rw [toInt_of_nonneg hxs, toInt_negSucc hy hys]
    refine (ensures_subOne_negative hy hys).bind fun neg1 h1 => ?_
    refine (ensures_absoluteXor h1.1 hx).bind fun result hr => ?_
    rw [h1.mag_eq, Nat.xor_comm] at hr
    exact ensures_addOne_negSucc hr id
  · rw [toInt_negSucc hx hxs, toInt_of_nonneg hys]
    refine (ensures_subOne_negative hx hxs).bind fun neg1 h1 => ?_
    refine (ensures_absoluteXor h1.1 hy).bind fun result hr => ?_
    rw [h1.mag_eq] at hr
    exact ensures_addOne_negSucc hr id
  · rw [toInt_negSucc hx hxs, toInt_negSucc hy hys]
    refine (ensures_subOne_negative hx hxs).bind fun x1 hx1 => ?_
    refine (ensures_subOne_negative hy hys).bind fun y1 hy1 => ?_
    have := ensures_absoluteXor (T := 2 ^ MaxBitLength ≤
      |Int.xor (Int.negSucc (x.mag - 1)) (Int.negSucc (y.mag - 1))|) hx1.1 hy1.1
    rwa [hx1.mag_eq, hy1.mag_eq] at this

theorem ensures_bitOr (hx : x.WellFormed) (hy : y.WellFormed) :
    Ensures (bitOr x y) (2 ^ MaxBitLength ≤ |lor x.toInt y.toInt|) fun r =>
      r.WellFormed ∧ r.toInt = lor x.toInt y.toInt := by
  have hzero : ∀ n : ℤ, lor 0 n = n ∧ lor n 0 = n := by
    rintro (n | n) <;> simp [lor, Nat.ldiff]
  unfold bitOr
  refine .ite (fun h => .pure ⟨hy, ?_⟩) fun _ => ?_
  · rw [hx.toInt_eq_zero_iff.mpr (isZero_iff.mp h), (hzero _).1]
  refine .ite (fun h => .pure ⟨hx, ?_⟩) fun _ => ?_
  · rw [hy.toInt_eq_zero_iff.mpr (isZero_iff.mp h), (hzero _).2]
  cases hxs : x.isNegative <;> cases hys : y.isNegative
  · rw [toInt_of_nonneg hxs, toInt_of_nonneg hys]
    exact ensures_absoluteOr hx hy
  · rw [toInt_of_nonneg hxs, toInt_negSucc hy hys]
    refine (ensures_subOne_negative hy hys).bind fun neg1 h1 => ?_
    refine (ensures_absoluteAndNot h1.1 hx).bind fun result hr => ?_
    rw [h1.mag_eq] at hr
    exact ensures_addOne_negSucc hr id
  · rw [toInt_negSucc hx hxs, toInt_of_nonneg hys]
    refine (ensures_subOne_negative hx hxs).bind fun neg1 h1 => ?_
    refine (ensures_absoluteAndNot h1.1 hy).bind fun result hr => ?_
    rw [h1.mag_eq] at hr
    exact ensures_addOne_negSucc hr id
  · rw [toInt_negSucc hx hxs, toInt_negSucc hy hys]
    refine (ensures_subOne_negative hx hxs).bind fun x1 hx1 => ?_
    refine (ensures_subOne_negative hy hys).bind fun y1 hy1 => ?_
    refine (ensures_absoluteAnd hx1.1 hy1.1).bind fun result hr => ?_
    rw [hx1.mag_eq, hy1.mag_eq] at hr
    exact ensures_addOne_negSucc hr id

theorem ensures_bitNot (hx : x.WellFormed) : Ensures (bitNot x) (2 ^ MaxBitLength ≤ |lnot x.toInt|) fun r =>
      r.WellFormed ∧ r.toInt = lnot x.toInt := by
  unfold bitNot
  refine .ite (fun h => ?_) fun h => ?_
  · rw [toInt_negSucc hx h]
    exact ensures_subOne_negative hx h
  · have h' : x.isNegative = false := by simpa using h
    rw [toInt_of_nonneg h']
    exact ensures_addOne_negSucc ⟨hx, toInt_of_nonneg h'⟩ id

/-- **The bitwise operators act bit by bit** on infinite two's-complement bit strings, and are
too large only when the integer with the resulting bit string is. -/
theorem bitwise_testBit (hx : x.WellFormed) (hy : y.WellFormed) :
    (Ensures (bitAnd x y) (2 ^ MaxBitLength ≤ |Int.land x.toInt y.toInt|) fun r =>
      r.WellFormed ∧ ∀ i, r.toInt.testBit i = (x.toInt.testBit i && y.toInt.testBit i)) ∧
    (Ensures (bitOr x y) (2 ^ MaxBitLength ≤ |Int.lor x.toInt y.toInt|) fun r =>
      r.WellFormed ∧ ∀ i, r.toInt.testBit i = (x.toInt.testBit i || y.toInt.testBit i)) ∧
    (Ensures (bitXor x y) (2 ^ MaxBitLength ≤ |Int.xor x.toInt y.toInt|) fun r =>
      r.WellFormed ∧ ∀ i, r.toInt.testBit i = (x.toInt.testBit i ^^ y.toInt.testBit i)) ∧
    (Ensures (bitNot x) (2 ^ MaxBitLength ≤ |Int.lnot x.toInt|) fun r =>
      r.WellFormed ∧ ∀ i, r.toInt.testBit i = !x.toInt.testBit i) := by
  refine ⟨(ensures_bitAnd hx hy).imp fun r hr => ⟨hr.1, fun i => ?_⟩,
    (ensures_bitOr hx hy).imp fun r hr => ⟨hr.1, fun i => ?_⟩,
    (ensures_bitXor hx hy).imp fun r hr => ⟨hr.1, fun i => ?_⟩,
    (ensures_bitNot hx).imp fun r hr => ⟨hr.1, fun i => ?_⟩⟩
  · simp [hr.2]
  · simp [hr.2]
  · simp [hr.2]
  · simp [hr.2]

/-- `-1`, whose predecessor has no digits, against two digits: the run returns, and what it
returns has the bits of the exclusive or. -/
theorem bitwise_testBit_negativeOne :
    ∃ r heap', bitXor (W := .bits32) ⟨true, [1#32]⟩ ⟨false, [0#32, 1#32]⟩ (.infallible 5#32)
        .init = .ok (r, heap') ∧ r = ⟨true, [1#32, 1#32]⟩ ∧
      ∀ i, r.toInt.testBit i = ((⟨true, [1#32]⟩ : BigInt .bits32).toInt.testBit i ^^
          (⟨false, [0#32, 1#32]⟩ : BigInt .bits32).toInt.testBit i) := by
  have hrun : bitXor (W := .bits32) ⟨true, [1#32]⟩ ⟨false, [0#32, 1#32]⟩ (.infallible 5#32)
      .init = .ok (⟨true, [1#32, 1#32]⟩, ⟨3, false⟩) := by decide
  have hspec := (bitwise_testBit (W := .bits32) (x := ⟨true, [1#32]⟩)
    (y := ⟨false, [0#32, 1#32]⟩) (by decide) (by decide)).2.2.1
  exact ⟨_, _, hrun, rfl, (hspec.of_ok hrun).2⟩

end BigInt

end SpiderMonkey
