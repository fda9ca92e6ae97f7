import SpiderMonkey.Jit.RangeLattice

/-!
# Ranges of absolute values, extrema and rounded values

The transfer functions of Ion's range analysis for the functions of one double that `Math` has, for
minimum and maximum, and for the conversion of NaN to zero.  Rounding to an integer drops the
fractional part and with it the looser bound between bounds and exponent, so `floor` and `ceil`
compute the exponent anew.
-/

namespace SpiderMonkey

open Binary64 Checked

namespace Range

open Int

/-! ## Ranges of doubles -/

variable (d : Double)

def ExponentImpliedByDouble : ℕ :=
  if IsNaN d then IncludesInfinityAndNaN
  else if IsInfinite d then IncludesInfinity
  -- The exponent component, clamped at zero.
  else exponentField d - MaxFiniteExponent

/-- The comparison `d >= k`, which NaN does not pass. -/
def geInt (k : ℤ) : Bool := decide (¬IsNaN d) && decide ((k : ℚ) ≤ toRat d)

/-- The comparison `d <= k`, which NaN does not pass. -/
def leInt (k : ℤ) : Bool := decide (¬IsNaN d) && decide (toRat d ≤ k)

/-- The comparison `d > k`, which NaN does not pass. -/
def gtInt (k : ℤ) : Bool := decide (¬IsNaN d) && decide ((k : ℚ) < toRat d)

/-- The comparison `d < k`, which NaN does not pass. -/
def ltInt (k : ℤ) : Bool := decide (¬IsNaN d) && decide (toRat d < k)

/-- The range of the doubles from `l` to `h`, NaN standing for no bound at all. -/
def setDouble (l h : Double) : Checked Range := do
  ensure (¬(¬IsNaN l ∧ ¬IsNaN h ∧ toRat l > toRat h))
  let (lower, hasInt32LowerBound) :=
    if geInt l INT32_MIN && leInt l INT32_MAX then (BitVec.ofInt 32 ⌊toRat l⌋, true)
    else if geInt l INT32_MAX then (BitVec.ofInt 32 INT32_MAX, true)
    else (BitVec.ofInt 32 INT32_MIN, false)
  let (upper, hasInt32UpperBound) :=
    if geInt h INT32_MIN && leInt h INT32_MAX then (BitVec.ofInt 32 ⌈toRat h⌉, true)
    else if leInt h INT32_MIN then (BitVec.ofInt 32 INT32_MIN, true)
    else (BitVec.ofInt 32 INT32_MAX, false)
  let lExp := ExponentImpliedByDouble l
  let hExp := ExponentImpliedByDouble h
  -- A range through the neighbourhood of zero has fractions, one beyond the precision of doubles
  -- has none.
  let includesNegative := decide (IsNaN l) || ltInt l 0
  let includesPositive := decide (IsNaN h) || gtInt h 0
  let crossesZero := includesNegative && includesPositive
  let canHaveFractionalPart := crossesZero || decide (Min.min lExp hExp < MaxTruncatableExponent)
  let canBeNegativeZero := !gtInt l 0 && !ltInt h 0
  Range.optimize
    { lower, upper, hasInt32LowerBound, hasInt32UpperBound, canHaveFractionalPart,
      canBeNegativeZero, maxExponent := Max.max lExp hExp }

/-- The opposite of an int32, where that of the least one is the greatest one. -/
def saturatingNeg (x : BitVec 32) : BitVec 32 :=
  if x = BitVec.ofInt 32 INT32_MIN then BitVec.ofInt 32 INT32_MAX else -x

variable (op : Range)

def absValues : Range where
  lower := int32Max (int32Max 0#32 op.lower) (saturatingNeg op.upper)
  upper := int32Max (int32Max 0#32 op.upper) (saturatingNeg op.lower)
  hasInt32LowerBound := true
  hasInt32UpperBound := op.hasInt32Bounds && op.lower != BitVec.ofInt 32 INT32_MIN
  canHaveFractionalPart := op.canHaveFractionalPart
  -- Abs never produces a negative zero.
  canBeNegativeZero := false
  maxExponent := op.maxExponent

def abs : Checked Range := (absValues op).optimize

variable (lhs rhs : Range)

def minValues : Range where
  lower := int32Min lhs.lower rhs.lower
  upper := int32Min lhs.upper rhs.upper
  hasInt32LowerBound := lhs.hasInt32LowerBound && rhs.hasInt32LowerBound
  hasInt32UpperBound := lhs.hasInt32UpperBound || rhs.hasInt32UpperBound
  canHaveFractionalPart := lhs.canHaveFractionalPart || rhs.canHaveFractionalPart
  canBeNegativeZero := lhs.canBeNegativeZero || rhs.canBeNegativeZero
  maxExponent := Max.max lhs.maxExponent rhs.maxExponent

def maxValues : Range where
  lower := int32Max lhs.lower rhs.lower
  upper := int32Max lhs.upper rhs.upper
  hasInt32LowerBound := lhs.hasInt32LowerBound || rhs.hasInt32LowerBound
  hasInt32UpperBound := lhs.hasInt32UpperBound && rhs.hasInt32UpperBound
  canHaveFractionalPart := lhs.canHaveFractionalPart || rhs.canHaveFractionalPart
  canBeNegativeZero := lhs.canBeNegativeZero || rhs.canBeNegativeZero
  maxExponent := Max.max lhs.maxExponent rhs.maxExponent

/-- The range of what `values` describes of two operands, none of which can be NaN: if either is,
so is the result. -/
def minOrMax (values : Range → Range → Range) (lhs rhs : Range) : Checked (Option Range) :=
  if lhs.canBeNaN || rhs.canBeNaN then return none
  else do return some (← (values lhs rhs).optimize)

def min : Checked (Option Range) := minOrMax minValues lhs rhs

def max : Checked (Option Range) := minOrMax maxValues lhs rhs

def sign : Checked (Option Range) :=
  if op.canBeNaN then return none
  else do
    let r ← ofInt64 (Max.max (Min.min op.lower.toInt 1) (-1))
      (Max.max (Min.min op.upper.toInt 1) (-1)) false op.canBeNegativeZero 0
    return some r

variable {a b r : Range} {v w : Double} {q : ℚ}

/-! ## Absolute values -/

lemma abs_floor_le (q : ℚ) (B : ℤ) (h : |q| ≤ B) : |⌊q⌋| ≤ B := by
  rw [abs_le] at h ⊢
  constructor
  · rw [le_floor]
    push_cast
    exact h.1
  · exact_mod_cast (floor_le q).trans h.2

lemma abs_ceil_le (q : ℚ) (B : ℤ) (h : |q| ≤ B) : |⌈q⌉| ≤ B := by
  rw [abs_le] at h ⊢
  constructor
  · have hle : ((-B : ℤ) : ℚ) ≤ ⌈q⌉ := by
      push_cast
      exact h.1.trans (le_ceil q)
    exact_mod_cast hle
  · exact ceil_le.mpr h.2

theorem returns_refineToExcludeNegativeZero (ha : a.Consistent) :
    Returns a.refineToExcludeNegativeZero fun r => r.Consistent ∧
      ∀ v, a.Describes v → ¬IsNegativeZero v → r.Describes v := by
  have hta := ha.tight
  have htight : Tight { a with canBeNegativeZero := false } :=
    ⟨hta.lower_le_upper, hta.lower_unbounded, hta.upper_unbounded, hta.maxExponent_cases,
      hta.exponent_unbounded, hta.lower_le, hta.upper_le, hta.integer_lt⟩
  unfold refineToExcludeNegativeZero
  apply (returns_assertInvariants hta).bind
  intro _ _
  apply (returns_optimize htight).imp
  rintro r ⟨hr, hdesc⟩
  refine ⟨hr, fun v hv hz => hdesc v (fun hn => ?_) fun hn => ⟨?_, fun hz' => absurd hz' hz⟩⟩
  · exact ha.not_bounded_of_isNaN hv hn
  · have hcov := ((describes_iff hn).mp hv).1
    exact ⟨hcov.lower, hcov.upper, hcov.integer, hcov.exponent⟩

end Range

end SpiderMonkey
