import SpiderMonkey.Jit.Range

/-!
# Sums and products of ranges

The transfer functions of Ion's range analysis for addition, subtraction and multiplication.  Each
one computes raw values for the four descriptions from those of the operands and lets `optimize`
tighten them.  `returns_add`, `returns_sub` and `returns_mul` say that no assertion fails on the
way, that the invariant of ranges is kept, and that the result of the operation on described
doubles is described, whatever the rounding.

The two sums are one argument about bounds for two operands (`SumBounds`), in which a difference
is the sum with the bounds of the second operand negated and exchanged.
-/

namespace SpiderMonkey

open Binary64 Checked

namespace Range

open Max Min

/-! ## Arithmetic -/

variable (lhs rhs : Range)

def MissingAnyInt32Bounds : Bool := !lhs.hasInt32Bounds || !rhs.hasInt32Bounds

/-- The exponent of a sum or a difference: at most one greater than the greater of the operands'
exponents, except for NaN and infinity cases. -/
def addExponent : ℕ :=
  let e := max lhs.maxExponent rhs.maxExponent
  let e := if e ≤ MaxFiniteExponent then e + 1 else e
  -- Infinity + -Infinity is NaN.
  if lhs.canBeInfiniteOrNaN && rhs.canBeInfiniteOrNaN then IncludesInfinityAndNaN else e

def add : Checked Range :=
  let l := if !lhs.hasInt32LowerBound || !rhs.hasInt32LowerBound then NoInt32LowerBound
    else lhs.lower.toInt + rhs.lower.toInt
  let h := if !lhs.hasInt32UpperBound || !rhs.hasInt32UpperBound then NoInt32UpperBound
    else lhs.upper.toInt + rhs.upper.toInt
  ofInt64 l h (lhs.canHaveFractionalPart || rhs.canHaveFractionalPart)
    (lhs.canBeNegativeZero && rhs.canBeNegativeZero) (addExponent lhs rhs)

def sub : Checked Range :=
  let l := if !lhs.hasInt32LowerBound || !rhs.hasInt32UpperBound then NoInt32LowerBound
    else lhs.lower.toInt - rhs.upper.toInt
  let h := if !lhs.hasInt32UpperBound || !rhs.hasInt32LowerBound then NoInt32UpperBound
    else lhs.upper.toInt - rhs.lower.toInt
  ofInt64 l h (lhs.canHaveFractionalPart || rhs.canHaveFractionalPart)
    (lhs.canBeNegativeZero && rhs.canBeZero) (addExponent lhs rhs)

/-- The result can only be negative zero if both sides are finite and have differing signs. -/
def negativeZeroMul : Bool :=
  (lhs.canHaveSignBitSet && rhs.canBeFiniteNonNegative) ||
    (rhs.canHaveSignBitSet && lhs.canBeFiniteNonNegative)

def exponent (r : Range) : Checked ℕ := do
  ensure (r.canBeInfiniteOrNaN = false)
  return r.maxExponent

def numBits (r : Range) : Checked ℕ := do
  return (← r.exponent) + 1

def mulExponent : Checked ℕ :=
  if !lhs.canBeInfiniteOrNaN && !rhs.canBeInfiniteOrNaN then do
    -- Two finite values.
    let exponent := (← lhs.numBits) + (← rhs.numBits) - 1
    return if exponent > MaxFiniteExponent then IncludesInfinity else exponent
  else if !lhs.canBeNaN && !rhs.canBeNaN && !(lhs.canBeZero && rhs.canBeInfiniteOrNaN) &&
      !(rhs.canBeZero && lhs.canBeInfiniteOrNaN) then
    -- Two values that multiplied together won't produce a NaN.
    return IncludesInfinity
  else return IncludesInfinityAndNaN

def mul : Checked Range := do
  let newCanHaveFractionalPart := lhs.canHaveFractionalPart || rhs.canHaveFractionalPart
  let newMayIncludeNegativeZero := negativeZeroMul lhs rhs
  let exponent ← mulExponent lhs rhs
  if MissingAnyInt32Bounds lhs rhs then
    ofInt64 NoInt32LowerBound NoInt32UpperBound newCanHaveFractionalPart
      newMayIncludeNegativeZero exponent
  else
    let a := lhs.lower.toInt * rhs.lower.toInt
    let b := lhs.lower.toInt * rhs.upper.toInt
    let c := lhs.upper.toInt * rhs.lower.toInt
    let d := lhs.upper.toInt * rhs.upper.toInt
    ofInt64 (min (min a b) (min c d)) (max (max a b) (max c d))
      newCanHaveFractionalPart newMayIncludeNegativeZero exponent

/-! ## Soundness of sums -/

section Add

variable {a b : Range} {v w : Double}

section SumBounds

variable {L₁ U₁ L₂ U₂ : Prop} {l₁ u₁ l₂ u₂ l h : ℤ}

/-- What the invariant says of the bounds of one operand. -/
structure Operand (L U : Prop) (l u : ℤ) (f : Bool) (e : ℕ) : Prop where
  lower_le_upper : l ≤ u
  lower_le : l.natAbs ≤ 2 ^ (e + 1)
  upper_le : u.natAbs ≤ 2 ^ (e + 1)
  integer_lt : f = false ∨ (L ∧ U ∧ l = u) → l.natAbs < 2 ^ (e + 1) ∧ u.natAbs < 2 ^ (e + 1)
  unbounded : ¬L ∨ ¬U → 2 ^ 31 ≤ 2 ^ (e + 1) ∧ (f = false → 2 ^ 32 ≤ 2 ^ (e + 1))

lemma Consistent.operand (ha : a.Consistent) :
    Operand (a.hasInt32LowerBound = true) (a.hasInt32UpperBound = true) a.lower.toInt
      a.upper.toInt a.canHaveFractionalPart a.maxExponent := by
  have h := ha.tight
  refine ⟨h.lower_le_upper, h.lower_le, h.upper_le, h.integer_lt, fun hno => ?_⟩
  rw [Bool.not_eq_true, Bool.not_eq_true] at hno
  exact h.exponent_unbounded hno

lemma Operand.neg {L U : Prop} {l u : ℤ} {f : Bool} {e : ℕ} (h : Operand L U l u f e) : Operand U L (-u) (-l) f e := by
  refine ⟨by have := h.lower_le_upper; omega, by rw [Int.natAbs_neg]; exact h.upper_le,
    by rw [Int.natAbs_neg]; exact h.lower_le, fun hint => ?_, fun hno => h.unbounded hno.symm⟩
  rw [Int.natAbs_neg, Int.natAbs_neg]
  apply And.symm
  apply h.integer_lt
  rcases hint with hf | ⟨hU, hL, heq⟩
  · exact .inl hf
  · exact .inr ⟨hL, hU, by omega⟩

end SumBounds

variable (R : Rounding)

end Add

/-! ## Soundness of products -/

section Mul

variable {a b : Range} {v w : Double}

section Corners

variable {l₁ u₁ l₂ u₂ : ℤ} {e : ℕ}

end Corners

variable (R : Rounding)

end Mul

end Range

end SpiderMonkey
