import SpiderMonkey.Lib.Checked
import SpiderMonkey.Lib.DoubleArith

/-!
# Ranges of Ion's range analysis

A `Range` describes the values of a definition in four ways at once: bounds on the int32 line, a
bound on the exponent, and flags for fractional parts and for negative zero.  `assertInvariants`
is what the code asserts of the four together, and `optimize` tightens them against each other.

`Range.γ` is the set of doubles that a range describes.  Apart from NaN and the sign of zero this
is a condition on the rational value alone (`Covers`), which a rounding preserves because all the
bounds it mentions are doubles (`Covers.round`).  `Consistent` is the invariant that ranges really
have: the assertions of the code leave a gap for fractional ranges, which it closes.
-/

namespace SpiderMonkey

open Binary64 Checked

def INT32_MIN : ℤ := -2 ^ 31

def INT32_MAX : ℤ := 2 ^ 31 - 1

structure Range where
  lower : BitVec 32
  upper : BitVec 32
  hasInt32LowerBound : Bool
  hasInt32UpperBound : Bool
  canHaveFractionalPart : Bool
  canBeNegativeZero : Bool
  maxExponent : ℕ
  deriving DecidableEq, Repr

namespace Range

def MaxInt32Exponent : ℕ := 31

def MaxUInt32Exponent : ℕ := 31

/-- `FloatingPoint<double>::kExponentShift`. -/
def MaxTruncatableExponent : ℕ := 52

/-- `FloatingPoint<double>::kExponentBias`. -/
def MaxFiniteExponent : ℕ := 1023

def IncludesInfinity : ℕ := MaxFiniteExponent + 1

/-- `UINT16_MAX`. -/
def IncludesInfinityAndNaN : ℕ := 2 ^ 16 - 1

def NoInt32UpperBound : ℤ := INT32_MAX + 1

def NoInt32LowerBound : ℤ := INT32_MIN - 1

/-! ## The int32 line -/

/-- `std::min` on int32. -/
def int32Min (x y : BitVec 32) : BitVec 32 := if y.toInt < x.toInt then y else x

/-- `std::max` on int32. -/
def int32Max (x y : BitVec 32) : BitVec 32 := if x.toInt < y.toInt then y else x

/-- `mozilla::FloorLog2(mozilla::Abs(x))`, where `FloorLog2(0)` is zero. -/
def floorLog2Abs (x : BitVec 32) : ℕ := x.toInt.natAbs.log2

section Int32

variable (x y : BitVec 32)

@[simp] lemma toInt_int32Min : (int32Min x y).toInt = Min.min x.toInt y.toInt := by
  unfold int32Min
  split <;> omega

@[simp] lemma toInt_int32Max : (int32Max x y).toInt = Max.max x.toInt y.toInt := by
  unfold int32Max
  split <;> omega

lemma INT32_MIN_le : INT32_MIN ≤ x.toInt := by
  have := BitVec.le_toInt x
  unfold INT32_MIN
  omega

lemma le_INT32_MAX : x.toInt ≤ INT32_MAX := by
  have := BitVec.toInt_lt (x := x)
  unfold INT32_MAX
  omega

lemma toInt_ofInt {z : ℤ} (hlow : INT32_MIN ≤ z) (hhigh : z ≤ INT32_MAX) : (BitVec.ofInt 32 z).toInt = z := by
  unfold INT32_MIN at hlow
  unfold INT32_MAX at hhigh
  rw [BitVec.toInt_ofInt, Int.bmod_def]
  omega

lemma floorLog2Abs_lt_iff {k : ℕ} : floorLog2Abs x ≤ k ↔ x.toInt.natAbs < 2 ^ (k + 1) := by
  unfold floorLog2Abs
  by_cases h : x.toInt.natAbs = 0
  · simp [h]
  · rw [← Nat.lt_succ_iff, Nat.log2_lt h]

end Int32

/-! ## The code of `Range` -/

variable (r : Range)

def hasInt32Bounds : Bool := r.hasInt32LowerBound && r.hasInt32UpperBound

/-- Whether the value is known to be representable as an int32. -/
def isInt32 : Bool := r.hasInt32Bounds && !r.canHaveFractionalPart && !r.canBeNegativeZero

def contains (x : ℤ) : Bool := decide (r.lower.toInt ≤ x) && decide (x ≤ r.upper.toInt)

def canBeZero : Bool := r.contains 0

def canBeNaN : Bool := r.maxExponent == IncludesInfinityAndNaN

def canBeInfiniteOrNaN : Bool := decide (IncludesInfinity ≤ r.maxExponent)

def isFiniteNegative : Bool := decide (r.upper.toInt < 0) && !r.canBeInfiniteOrNaN

def isFiniteNonNegative : Bool := decide (0 ≤ r.lower.toInt) && !r.canBeInfiniteOrNaN

def canBeFiniteNegative : Bool := decide (r.lower.toInt < 0)

def canBeFiniteNonNegative : Bool := decide (0 ≤ r.upper.toInt)

def canHaveSignBitSet : Bool :=
  !r.hasInt32LowerBound || r.canBeFiniteNegative || r.canBeNegativeZero

/-- The exponent that the assertions speak of, one more than the maximal one if a fractional
offset is to be accounted for. -/
def adjustedExponent : ℕ := r.maxExponent + if r.canHaveFractionalPart then 1 else 0

structure AssertInvariants : Prop where
  lower_le_upper : r.lower.toInt ≤ r.upper.toInt
  lower_unbounded : r.hasInt32LowerBound = false → r.lower.toInt = INT32_MIN
  upper_unbounded : r.hasInt32UpperBound = false → r.upper.toInt = INT32_MAX
  maxExponent_cases : r.maxExponent ≤ MaxFiniteExponent ∨ r.maxExponent = IncludesInfinity ∨
    r.maxExponent = IncludesInfinityAndNaN
  exponent_unbounded : r.hasInt32LowerBound = false ∨ r.hasInt32UpperBound = false →
    MaxInt32Exponent ≤ r.adjustedExponent
  exponent_upper : floorLog2Abs r.upper ≤ r.adjustedExponent
  exponent_lower : floorLog2Abs r.lower ≤ r.adjustedExponent

instance : Decidable r.AssertInvariants :=
  decidable_of_iff (r.lower.toInt ≤ r.upper.toInt ∧ (r.hasInt32LowerBound = false → r.lower.toInt = INT32_MIN) ∧
      (r.hasInt32UpperBound = false → r.upper.toInt = INT32_MAX) ∧
      (r.maxExponent ≤ MaxFiniteExponent ∨ r.maxExponent = IncludesInfinity ∨ r.maxExponent = IncludesInfinityAndNaN) ∧
      (r.hasInt32LowerBound = false ∨ r.hasInt32UpperBound = false → MaxInt32Exponent ≤ r.adjustedExponent) ∧
      floorLog2Abs r.upper ≤ r.adjustedExponent ∧ floorLog2Abs r.lower ≤ r.adjustedExponent)
    ⟨fun ⟨h₁, h₂, h₃, h₄, h₅, h₆, h₇⟩ => ⟨h₁, h₂, h₃, h₄, h₅, h₆, h₇⟩,
      fun ⟨h₁, h₂, h₃, h₄, h₅, h₆, h₇⟩ => ⟨h₁, h₂, h₃, h₄, h₅, h₆, h₇⟩⟩

def assertInvariants : Checked Unit := ensure r.AssertInvariants

/-- The bound `lower_` and the flag `hasInt32LowerBound_` for an int64 bound. -/
def lowerInit (x : ℤ) : BitVec 32 × Bool :=
  if x > INT32_MAX then (BitVec.ofInt 32 INT32_MAX, true)
  else if x < INT32_MIN then (BitVec.ofInt 32 INT32_MIN, false)
  else (BitVec.ofInt 32 x, true)

/-- The bound `upper_` and the flag `hasInt32UpperBound_` for an int64 bound. -/
def upperInit (x : ℤ) : BitVec 32 × Bool :=
  if x > INT32_MAX then (BitVec.ofInt 32 INT32_MAX, false)
  else if x < INT32_MIN then (BitVec.ofInt 32 INT32_MIN, true)
  else (BitVec.ofInt 32 x, true)

section Init

variable (x : ℤ)

lemma toInt_lowerInit : (lowerInit x).1.toInt = Max.max INT32_MIN (Min.min INT32_MAX x) := by
  have hle : INT32_MIN ≤ INT32_MAX := by decide
  unfold lowerInit
  split
  next h => rw [toInt_ofInt hle le_rfl]; omega
  next h =>
    split
    next h' => rw [toInt_ofInt le_rfl hle]; omega
    next h' => rw [toInt_ofInt (by omega) (by omega)]; omega

lemma toInt_upperInit : (upperInit x).1.toInt = Max.max INT32_MIN (Min.min INT32_MAX x) := by
  have hle : INT32_MIN ≤ INT32_MAX := by decide
  unfold upperInit
  split
  next h => rw [toInt_ofInt hle le_rfl]; omega
  next h =>
    split
    next h' => rw [toInt_ofInt le_rfl hle]; omega
    next h' => rw [toInt_ofInt (by omega) (by omega)]; omega

lemma lowerInit_snd : (lowerInit x).2 = true ↔ INT32_MIN ≤ x := by
  have hle : INT32_MIN ≤ INT32_MAX := by decide
  unfold lowerInit
  split_ifs <;> simp <;> omega

lemma upperInit_snd : (upperInit x).2 = true ↔ x ≤ INT32_MAX := by
  unfold upperInit
  split_ifs <;> simp <;> omega

end Init

def setUpperInit (x : ℤ) : Range :=
  { r with upper := (upperInit x).1, hasInt32UpperBound := (upperInit x).2 }

/-- The least exponent that is compatible with both bounds. -/
def exponentImpliedByInt32Bounds : ℕ :=
  (Max.max r.lower.toInt.natAbs r.upper.toInt.natAbs).log2

/-- An update of a field by a stronger value, where the condition for it holds. -/
def updateIf (c : Prop) [Decidable c] (r' : Range) : Checked Range :=
  if c then do
    r'.assertInvariants
    return r'
  else return r

/-- A better exponent than `max_exponent_`. -/
def optimizeExponent : Checked Range :=
  r.updateIf (r.hasInt32Bounds = true ∧ r.exponentImpliedByInt32Bounds < r.maxExponent)
    { r with maxExponent := r.exponentImpliedByInt32Bounds }

/-- A completely precise range holds an integer. -/
def optimizeFractionalPart : Checked Range :=
  r.updateIf (r.hasInt32Bounds = true ∧ r.canHaveFractionalPart = true ∧ r.lower = r.upper)
    { r with canHaveFractionalPart := false }

/-- A range without zero has no negative zero. -/
def optimizeNegativeZero : Checked Range :=
  r.updateIf (r.canBeNegativeZero = true ∧ r.canBeZero = false)
    { r with canBeNegativeZero := false }

def optimize : Checked Range := do
  r.assertInvariants
  let r ← r.optimizeExponent
  let r ← r.optimizeFractionalPart
  r.optimizeNegativeZero

/-- The fields that `set` initializes from int64 bounds. -/
def set (l h : ℤ) (canHaveFractionalPart canBeNegativeZero : Bool) (e : ℕ) : Range where
  lower := (lowerInit l).1
  upper := (upperInit h).1
  hasInt32LowerBound := (lowerInit l).2
  hasInt32UpperBound := (upperInit h).2
  canHaveFractionalPart := canHaveFractionalPart
  canBeNegativeZero := canBeNegativeZero
  maxExponent := e

def ofInt64 (l h : ℤ) (canHaveFractionalPart canBeNegativeZero : Bool) (e : ℕ) : Checked Range :=
  (set l h canHaveFractionalPart canBeNegativeZero e).optimize

def copy : Checked Range := do
  r.assertInvariants
  return r

def NewInt32Range (l h : BitVec 32) : Checked Range :=
  ofInt64 l.toInt h.toInt false false MaxInt32Exponent

def NewUInt32Range (l h : BitVec 32) : Checked Range :=
  ofInt64 l.toNat h.toNat false false MaxUInt32Exponent

/-- Clear the flag for negative zero. -/
def refineToExcludeNegativeZero : Checked Range := do
  r.assertInvariants
  Range.optimize { r with canBeNegativeZero := false }

/-! ## The invariant of ranges -/

/-- What ranges satisfy beyond the assertions.  A range with both int32 bounds has no NaN.  A
bound exceeds the values of the exponent only to account for a fractional offset, so by at most
one, and not at all if both bounds agree. -/
structure Consistent : Prop extends r.AssertInvariants where
  not_canBeNaN : r.hasInt32Bounds = true → r.canBeNaN = false
  lower_le_exponent : r.lower.toInt.natAbs ≤ 2 ^ (r.maxExponent + 1)
  upper_le_exponent : r.upper.toInt.natAbs ≤ 2 ^ (r.maxExponent + 1)
  precise : r.hasInt32Bounds = true → r.lower = r.upper → r.lower.toInt.natAbs < 2 ^ (r.maxExponent + 1)

/-- The invariant on raw values, in terms of the power `2 ^ (max_exponent_ + 1)`. -/
structure Tight : Prop where
  lower_le_upper : r.lower.toInt ≤ r.upper.toInt
  lower_unbounded : r.hasInt32LowerBound = false → r.lower.toInt = INT32_MIN
  upper_unbounded : r.hasInt32UpperBound = false → r.upper.toInt = INT32_MAX
  maxExponent_cases : r.maxExponent ≤ MaxFiniteExponent ∨ r.maxExponent = IncludesInfinity ∨
    r.maxExponent = IncludesInfinityAndNaN
  exponent_unbounded : r.hasInt32LowerBound = false ∨ r.hasInt32UpperBound = false → 2 ^ 31 ≤ 2 ^ (r.maxExponent + 1) ∧
      (r.canHaveFractionalPart = false → 2 ^ 32 ≤ 2 ^ (r.maxExponent + 1))
  lower_le : r.lower.toInt.natAbs ≤ 2 ^ (r.maxExponent + 1)
  upper_le : r.upper.toInt.natAbs ≤ 2 ^ (r.maxExponent + 1)
  integer_lt : r.canHaveFractionalPart = false ∨ (r.hasInt32LowerBound = true ∧ r.hasInt32UpperBound = true ∧
        r.lower.toInt = r.upper.toInt) →
    r.lower.toInt.natAbs < 2 ^ (r.maxExponent + 1) ∧ r.upper.toInt.natAbs < 2 ^ (r.maxExponent + 1)

variable {r}

lemma hasInt32Bounds_iff : r.hasInt32Bounds = true ↔ r.hasInt32LowerBound = true ∧ r.hasInt32UpperBound = true := by
  unfold hasInt32Bounds
  simp

lemma canBeNaN_iff : r.canBeNaN = true ↔ r.maxExponent = IncludesInfinityAndNaN := by
  unfold canBeNaN
  rw [beq_iff_eq]

lemma canBeZero_iff : r.canBeZero = true ↔ r.lower.toInt ≤ 0 ∧ 0 ≤ r.upper.toInt := by
  unfold canBeZero contains
  simp

lemma two_pow_le_iff {m n : ℕ} : 2 ^ m ≤ 2 ^ n ↔ m ≤ n := Nat.pow_le_pow_iff_right Nat.one_lt_two

lemma Tight.assertInvariants (h : r.Tight) : r.AssertInvariants := by
  have hpos := Nat.two_pow_pos (r.maxExponent + 1)
  obtain ⟨hle, hlow, hup, hcases, hexp, hlower, hupper, hint⟩ := h
  have hadj : r.canHaveFractionalPart = true → r.adjustedExponent = r.maxExponent + 1 := by
    intro hf
    rw [adjustedExponent, hf, if_pos rfl]
  have hadj' : r.canHaveFractionalPart = false → r.adjustedExponent = r.maxExponent := by
    intro hf
    simp [adjustedExponent, hf]
  rw [two_pow_le_iff, two_pow_le_iff] at hexp
  refine ⟨hle, hlow, hup, hcases, ?_, ?_, ?_⟩
  · intro hunbounded
    obtain ⟨h31, h32⟩ := hexp hunbounded
    unfold MaxInt32Exponent
    cases hf : r.canHaveFractionalPart with
    | true => rw [hadj hf]; omega
    | false => rw [hadj' hf]; have := h32 hf; omega
  · rw [floorLog2Abs_lt_iff]
    cases hf : r.canHaveFractionalPart with
    | true => rw [hadj hf, pow_succ _ (r.maxExponent + 1)]; omega
    | false => rw [hadj' hf]; exact (hint (.inl hf)).2
  · rw [floorLog2Abs_lt_iff]
    cases hf : r.canHaveFractionalPart with
    | true => rw [hadj hf, pow_succ _ (r.maxExponent + 1)]; omega
    | false => rw [hadj' hf]; exact (hint (.inl hf)).1

lemma Tight.consistent (h : r.Tight) (hnan : r.hasInt32Bounds = true → r.canBeNaN = false) : r.Consistent where
  toAssertInvariants := h.assertInvariants
  not_canBeNaN := hnan
  lower_le_exponent := h.lower_le
  upper_le_exponent := h.upper_le
  precise hbounds heq := by
    obtain ⟨hl, hu⟩ := hasInt32Bounds_iff.mp hbounds
    exact (h.integer_lt (.inr ⟨hl, hu, congrArg BitVec.toInt heq⟩)).1

lemma Consistent.tight (h : r.Consistent) : r.Tight := by
  have hupper := (floorLog2Abs_lt_iff _).mp h.exponent_upper
  have hlower := (floorLog2Abs_lt_iff _).mp h.exponent_lower
  have hexp := h.exponent_unbounded
  refine ⟨h.lower_le_upper, h.lower_unbounded, h.upper_unbounded, h.maxExponent_cases, ?_,
    h.lower_le_exponent, h.upper_le_exponent, ?_⟩
  · intro hunbounded
    have := hexp hunbounded
    rw [two_pow_le_iff, two_pow_le_iff]
    unfold MaxInt32Exponent adjustedExponent at this
    cases hf : r.canHaveFractionalPart with
    | true => simp only [hf, if_true] at this; simp; omega
    | false => simp [hf] at this; simp; omega
  · rintro (hf | ⟨hl, hu, heq⟩)
    · unfold adjustedExponent at hupper hlower
      rw [hf, if_neg Bool.false_ne_true, Nat.add_zero] at hupper hlower
      exact ⟨hlower, hupper⟩
    · have hlt := h.precise (hasInt32Bounds_iff.mpr ⟨hl, hu⟩) (BitVec.eq_of_toInt_eq heq)
      rw [← heq]
      exact ⟨hlt, hlt⟩

/-! ## What a range describes -/

variable (r)

/-- The value part of what a range describes: the bounds that are present, integers unless
fractional parts are allowed, and the exponent.  An exponent up to the maximal finite one excludes
the infinities, which read as `±2 ^ 1024`. -/
structure Covers (q : ℚ) : Prop where
  lower : r.hasInt32LowerBound = true → (r.lower.toInt : ℚ) ≤ q
  upper : r.hasInt32UpperBound = true → q ≤ r.upper.toInt
  integer : r.canHaveFractionalPart = false → ∃ k : ℤ, q = k
  exponent : r.maxExponent ≤ MaxFiniteExponent → |q| ≤ below r.maxExponent

structure Describes (d : Double) : Prop where
  nan : IsNaN d → r.maxExponent = IncludesInfinityAndNaN
  infinity : IsInfinite d → IncludesInfinity ≤ r.maxExponent
  negativeZero : IsNegativeZero d → r.canBeNegativeZero = true
  integer : IsFinite d → r.canHaveFractionalPart = false → ∃ k : ℤ, toRat d = k
  exponent : IsFinite d → |toRat d| < 2 ^ (r.maxExponent + 1)
  lower : ¬IsNaN d → r.hasInt32LowerBound = true → (r.lower.toInt : ℚ) ≤ toRat d
  upper : ¬IsNaN d → r.hasInt32UpperBound = true → toRat d ≤ r.upper.toInt

/-- The doubles that a range describes, as a set. -/
def γ : Set Double := {d | r.Describes d}

variable {r} {q : ℚ} {d : Double}

/-- Of a double that is not NaN a range describes the value and the sign of zero. -/
lemma describes_iff (hd : ¬IsNaN d) :
    r.Describes d ↔ r.Covers (toRat d) ∧ (IsNegativeZero d → r.canBeNegativeZero = true) := by
  have hpow : ∀ e, 1024 ≤ e → (2 : ℚ) ^ 1024 ≤ 2 ^ e := fun e he =>
    pow_le_pow_right₀ one_le_two he
  constructor
  · intro h
    refine ⟨⟨h.lower hd, h.upper hd, fun hf => ?_, fun he => ?_⟩, h.negativeZero⟩
    · by_cases hfin : IsFinite d
      · exact h.integer hfin hf
      · apply exists_int_of_le
        have habs : 2 ^ 1024 ≤ |toRat d| := not_lt.mp ((abs_toRat_lt_iff hd).not.mpr hfin)
        exact (pow_le_pow_right₀ one_le_two (by norm_num)).trans habs
    · apply abs_toRat_le_below
      apply h.exponent
      rcases isNaN_or_isInfinite_or_isFinite d with hnan | hinf | hfin
      · exact absurd hnan hd
      · have := h.infinity hinf
        unfold IncludesInfinity at this
        omega
      · exact hfin
  · rintro ⟨h, hzero⟩
    refine ⟨fun hnan => absurd hnan hd, fun hinf => ?_, hzero, fun _ => h.integer,
      fun hfin => ?_, fun _ => h.lower, fun _ => h.upper⟩
    · by_contra he
      have hle := h.exponent (by unfold IncludesInfinity at he; omega)
      rw [hinf.abs_toRat_eq] at hle
      have hlt := hle.trans_lt (below_lt _)
      have hexp := (pow_lt_pow_iff_right₀ one_lt_two).mp hlt
      unfold IncludesInfinity MaxFiniteExponent at he
      omega
    · by_cases he : r.maxExponent ≤ MaxFiniteExponent
      · exact (h.exponent he).trans_lt (below_lt _)
      · unfold MaxFiniteExponent at he
        exact hfin.abs_toRat_lt.trans_le (hpow _ (by omega))

/-- NaN is described by the exponent alone. -/
lemma describes_nan (hd : IsNaN d) (h : r.maxExponent = IncludesInfinityAndNaN) : r.Describes d := by
  refine ⟨fun _ => h, fun hinf => absurd hd hinf.not_isNaN, fun hzero => ?_,
    fun hfin => absurd hd hfin.not_isNaN, fun hfin => absurd hd hfin.not_isNaN,
    fun hn => absurd hd hn, fun hn => absurd hd hn⟩
  have hmag := toRat_eq_zero_iff.mp hzero.toRat_eq
  unfold scaled at hmag
  rw [hd.1, if_neg (by norm_num)] at hmag
  have hpos : 0 < (2 ^ 52 + significandField d) * 2 ^ (2047 - 1) := Nat.mul_pos (by omega) (Nat.two_pow_pos _)
  exact absurd hmag hpos.ne'

/-- Rounding keeps a value within a range: every bound is a double, and integers are rounded to
integers. -/
lemma Covers.round (h : r.Covers q) (R : Rounding) : r.Covers (toRat (R.round q)) := by
  have hrep : ∀ x : BitVec 32, Representable x.toInt := by
    intro x
    have hlow := INT32_MIN_le x
    have hhigh := le_INT32_MAX x
    unfold INT32_MIN at hlow
    unfold INT32_MAX at hhigh
    exact representable_intCast (abs_le.mpr ⟨by omega, by omega⟩)
  refine ⟨fun hl => R.le_round (hrep _) (h.lower hl), fun hu => R.round_le (hrep _) (h.upper hu),
    fun hf => ?_, fun he => R.abs_round_le (representable_below he) (h.exponent he)⟩
  obtain ⟨k, rfl⟩ := h.integer hf
  exact R.exists_int_round k

lemma canBeZero_of_covers (h : r.AssertInvariants) (hr : r.Covers 0) : r.canBeZero = true := by
  rw [canBeZero_iff]
  constructor
  · cases hl : r.hasInt32LowerBound with
    | true => exact_mod_cast hr.lower hl
    | false => rw [h.lower_unbounded hl]; decide
  · cases hu : r.hasInt32UpperBound with
    | true => exact_mod_cast hr.upper hu
    | false => rw [h.upper_unbounded hu]; decide

lemma abs_toInt_le (x : BitVec 32) : |x.toInt| ≤ 2 ^ 31 := by
  have hlow := INT32_MIN_le x
  have hhigh := le_INT32_MAX x
  unfold INT32_MIN at hlow
  unfold INT32_MAX at hhigh
  rw [abs_le]
  omega

section Optimize

lemma returns_assertInvariants (h : r.Tight) : Returns r.assertInvariants fun _ => True :=
  (Returns.ensure h.assertInvariants).imp fun _ _ => trivial

lemma returns_updateIf {c : Prop} [Decidable c] {r' : Range} (h : c → r'.Tight) :
    Returns (r.updateIf c r') fun out => out = if c then r' else r := by
  unfold updateIf
  refine .ite (fun hc => ?_) fun hc => ?_
  · apply (returns_assertInvariants (h hc)).bind
    intro _ _
    exact .pure (if_pos hc).symm
  · exact .pure (if_neg hc).symm

/-- What the int32 bounds imply for the exponent. -/
lemma natAbs_lt_exponentImplied (r : Range) : r.lower.toInt.natAbs < 2 ^ (r.exponentImpliedByInt32Bounds + 1) ∧
    r.upper.toInt.natAbs < 2 ^ (r.exponentImpliedByInt32Bounds + 1) := by
  have hlt := Nat.lt_log2_self (n := Max.max r.lower.toInt.natAbs r.upper.toInt.natAbs)
  unfold exponentImpliedByInt32Bounds
  generalize 2 ^ _ = P at *
  omega

lemma exponentImplied_le (r : Range) : r.exponentImpliedByInt32Bounds ≤ MaxInt32Exponent := by
  have hl := INT32_MIN_le r.lower
  have hl' := le_INT32_MAX r.lower
  have hu := INT32_MIN_le r.upper
  have hu' := le_INT32_MAX r.upper
  unfold INT32_MIN at hl hu
  unfold INT32_MAX at hl' hu'
  unfold exponentImpliedByInt32Bounds
  rw [Nat.log2_eq_log_two]
  calc Nat.log 2 (Max.max r.lower.toInt.natAbs r.upper.toInt.natAbs) ≤ Nat.log 2 (2 ^ 31) :=
        Nat.log_mono_right (by omega)
    _ = MaxInt32Exponent := Nat.log_pow Nat.one_lt_two _

/-- An integer of at most 53 bits is no larger than the largest double of its exponent. -/
lemma abs_intCast_le_below {k : ℤ} {e : ℕ} (he : e ≤ MaxTruncatableExponent)
    (h : k.natAbs < 2 ^ (e + 1)) : |(k : ℚ)| ≤ below e := by
  have hle : |(k : ℚ)| ≤ 2 ^ (e + 1) - 1 := by
    rw [← Int.cast_abs, Int.abs_eq_natAbs]
    have : (k.natAbs : ℤ) ≤ 2 ^ (e + 1) - 1 := by
      have : (k.natAbs : ℤ) < 2 ^ (e + 1) := by exact_mod_cast h
      omega
    exact_mod_cast this
  have hpow : (2 : ℚ) ^ (e + 1) ≤ 2 ^ 53 := pow_le_pow_right₀ one_le_two (by unfold MaxTruncatableExponent at he; omega)
  unfold below
  linarith

/-- A value between the bounds is below the power that they imply. -/
lemma abs_le_below_exponentImplied (hl : (r.lower.toInt : ℚ) ≤ q) (hu : q ≤ r.upper.toInt) :
    |q| ≤ below r.exponentImpliedByInt32Bounds := by
  obtain ⟨hlower, hupper⟩ := natAbs_lt_exponentImplied r
  have he : r.exponentImpliedByInt32Bounds ≤ MaxTruncatableExponent := (exponentImplied_le r).trans (by decide)
  have hlower' := (abs_le.mp (abs_intCast_le_below he hlower)).1
  have hupper' := (abs_le.mp (abs_intCast_le_below he hupper)).2
  exact abs_le.mpr ⟨hlower'.trans hl, hu.trans hupper'⟩

/-- What each step of `optimize` keeps: the invariant, the values, the exponent of a range that is
not bounded and the flag of a range with a zero. -/
structure Refines (r r' : Range) : Prop where
  tight : r'.Tight
  covers : ∀ q, r.Covers q → r'.Covers q
  bounds : r'.hasInt32Bounds = r.hasInt32Bounds
  exponent : r.hasInt32Bounds = false → r'.maxExponent = r.maxExponent
  negativeZero : r.canBeNegativeZero = true → r.Covers 0 → r'.canBeNegativeZero = true

lemma Refines.refl (h : r.Tight) : Refines r r := ⟨h, fun _ => id, rfl, fun _ => rfl, fun h _ => h⟩

lemma Refines.trans {r₁ r₂ r₃ : Range} (h : Refines r₁ r₂) (h' : Refines r₂ r₃) : Refines r₁ r₃ where
  tight := h'.tight
  covers q hq := h'.covers q (h.covers q hq)
  bounds := h'.bounds.trans h.bounds
  exponent hb := (h'.exponent (h.bounds.trans hb)).trans (h.exponent hb)
  negativeZero hz hc := h'.negativeZero (h.negativeZero hz hc) (h.covers 0 hc)

lemma refines_exponent (h : r.Tight) (hb : r.hasInt32Bounds = true) :
    Refines r { r with maxExponent := r.exponentImpliedByInt32Bounds } := by
  obtain ⟨hl, hu⟩ := hasInt32Bounds_iff.mp hb
  have hlt := natAbs_lt_exponentImplied r
  refine ⟨?_, fun q hq => ?_, rfl, fun hb' => ?_, fun hz _ => hz⟩
  · refine ⟨h.lower_le_upper, h.lower_unbounded, h.upper_unbounded, .inl ?_, ?_, hlt.1.le, hlt.2.le, fun _ => hlt⟩
    · exact (exponentImplied_le r).trans (by decide)
    · simp [hl, hu]
  · exact ⟨hq.lower, hq.upper, hq.integer, fun _ =>
      abs_le_below_exponentImplied (hq.lower hl) (hq.upper hu)⟩
  · exact absurd hb (by simp [hb'])

lemma refines_fractionalPart (h : r.Tight) (hb : r.hasInt32Bounds = true)
    (heq : r.lower = r.upper) : Refines r { r with canHaveFractionalPart := false } := by
  obtain ⟨hl, hu⟩ := hasInt32Bounds_iff.mp hb
  have hlt := h.integer_lt (.inr ⟨hl, hu, congrArg BitVec.toInt heq⟩)
  refine ⟨?_, fun q hq => ?_, rfl, fun _ => rfl, fun hz _ => hz⟩
  · exact ⟨h.lower_le_upper, h.lower_unbounded, h.upper_unbounded, h.maxExponent_cases,
      by simp [hl, hu], h.lower_le, h.upper_le, fun _ => hlt⟩
  · refine ⟨hq.lower, hq.upper, fun _ => ⟨r.lower.toInt, ?_⟩, hq.exponent⟩
    apply le_antisymm _ (hq.lower hl)
    rw [heq]
    exact hq.upper hu

lemma refines_negativeZero (h : r.Tight) (hz : r.canBeZero = false) :
    Refines r { r with canBeNegativeZero := false } := by
  refine ⟨?_, fun q hq => ⟨hq.lower, hq.upper, hq.integer, hq.exponent⟩, rfl, fun _ => rfl, fun _ hq => ?_⟩
  · exact ⟨h.lower_le_upper, h.lower_unbounded, h.upper_unbounded, h.maxExponent_cases,
      h.exponent_unbounded, h.lower_le, h.upper_le, h.integer_lt⟩
  · rw [canBeZero_of_covers h.assertInvariants hq] at hz
    cases hz

lemma returns_updateIf_refines {c : Prop} [Decidable c] {r' : Range} (h : r.Tight) (hr : c → Refines r r') :
    Returns (r.updateIf c r') fun out => Refines r out ∧ out = if c then r' else r := by
  apply (returns_updateIf fun hc => (hr hc).tight).imp
  rintro out rfl
  refine ⟨?_, rfl⟩
  split
  next hc => exact hr hc
  next hc => exact Refines.refl h

/-- `optimize` passes its assertions on raw values that satisfy the invariant, and all that they
describe the optimized range describes as well. -/
theorem returns_optimize (h : r.Tight) : Returns r.optimize fun r' => r'.Consistent ∧
    ∀ d, (IsNaN d → r.maxExponent = IncludesInfinityAndNaN ∧ r.hasInt32Bounds = false) →
      (¬IsNaN d → r.Covers (toRat d) ∧ (IsNegativeZero d → r.canBeNegativeZero = true)) →
      r'.Describes d := by
  unfold optimize
  apply (returns_assertInvariants h).bind
  intro _ _
  apply (returns_updateIf_refines h fun hc => refines_exponent h hc.1).bind
  rintro r₁ ⟨href₁, hr₁⟩
  -- From here on a bounded range has an exponent of int32.
  have hexp : r₁.hasInt32Bounds = true → r₁.maxExponent ≤ MaxInt32Exponent := by
    intro hb
    rw [href₁.bounds] at hb
    rw [hr₁]
    have hle := exponentImplied_le r
    split
    next hc => exact hle
    next hc =>
      have : ¬r.exponentImpliedByInt32Bounds < r.maxExponent := fun hlt => hc ⟨hb, hlt⟩
      omega
  apply (returns_updateIf_refines href₁.tight fun hc =>
    refines_fractionalPart href₁.tight hc.1 hc.2.2).bind
  rintro r₂ ⟨href₂, hr₂⟩
  apply (returns_updateIf_refines href₂.tight fun hc => refines_negativeZero href₂.tight hc.2).imp
  rintro r₃ ⟨href₃, hr₃⟩
  have hexp₂ : r₂.maxExponent = r₁.maxExponent := by
    rw [hr₂]
    split <;> rfl
  have hexp₃ : r₃.maxExponent = r₁.maxExponent := by
    rw [← hexp₂, hr₃]
    split <;> rfl
  have href := (href₁.trans href₂).trans href₃
  refine ⟨href.tight.consistent fun hb => ?_, fun d hnan hd => ?_⟩
  · rw [(href₂.trans href₃).bounds] at hb
    have hle := hexp hb
    rw [← Bool.not_eq_true, canBeNaN_iff, hexp₃]
    unfold MaxInt32Exponent at hle
    unfold IncludesInfinityAndNaN
    omega
  · by_cases hn : IsNaN d
    · obtain ⟨he, hb⟩ := hnan hn
      exact describes_nan hn ((href.exponent hb).trans he)
    · obtain ⟨hcov, hzero⟩ := hd hn
      rw [describes_iff hn]
      refine ⟨href.covers _ hcov, fun hz => href.negativeZero (hzero hz) ?_⟩
      rwa [hz.toRat_eq] at hcov

end Optimize

/-! ## Ranges from int64 bounds -/

section Set

variable {l h : ℤ} {f z : Bool} {e : ℕ}

/-- A bound that does not fit into an int32 needs a large exponent only. -/
lemma tight_set (hle : l ≤ h ∨ l < INT32_MIN ∨ INT32_MAX < h)
    (hcases : e ≤ MaxFiniteExponent ∨ e = IncludesInfinity ∨ e = IncludesInfinityAndNaN)
    (hunbounded : l < INT32_MIN ∨ INT32_MAX < h → 2 ^ 31 ≤ 2 ^ (e + 1) ∧ (f = false → 2 ^ 32 ≤ 2 ^ (e + 1)))
    (hl : l.natAbs ≤ 2 ^ (e + 1) ∨ 2 ^ 31 ≤ 2 ^ (e + 1))
    (hh : h.natAbs ≤ 2 ^ (e + 1) ∨ 2 ^ 31 ≤ 2 ^ (e + 1))
    (hint : f = false ∨ l = h → INT32_MIN ≤ l → h ≤ INT32_MAX →
      l.natAbs < 2 ^ (e + 1) ∧ h.natAbs < 2 ^ (e + 1)) : (set l h f z e).Tight := by
  have hmin : INT32_MIN = -2 ^ 31 := rfl
  have hmax : INT32_MAX = 2 ^ 31 - 1 := rfl
  have hlow := lowerInit_snd l
  have hup := upperInit_snd h
  constructor
  all_goals
    simp only [set, toInt_lowerInit, toInt_upperInit]
    generalize 2 ^ (e + 1) = P at *
  · clear hcases hunbounded hl hh hint hlow hup
    omega
  · rw [← Bool.not_eq_true, hlow]
    clear hcases hunbounded hl hh hint hlow hup hle
    omega
  · rw [← Bool.not_eq_true, hup]
    clear hcases hunbounded hl hh hint hlow hup hle
    omega
  · exact hcases
  · rw [← Bool.not_eq_true, ← Bool.not_eq_true, hlow, hup]
    intro hor
    exact hunbounded (hor.imp not_le.1 not_le.1)
  · clear hcases hunbounded hh hint hlow hup hle
    omega
  · clear hcases hunbounded hl hint hlow hup hle
    omega
  · rw [hlow, hup]
    intro hor
    by_cases hin : INT32_MIN ≤ l ∧ h ≤ INT32_MAX
    · have := hint (hor.imp id fun hbounds => ?_) hin.1 hin.2
      · clear hcases hunbounded hl hh hint hlow hup hor
        omega
      · clear hcases hunbounded hl hh hint hlow hup
        omega
    · rcases hor with hf | ⟨hl', hh', -⟩
      · have := (hunbounded (by omega)).2 hf
        clear hcases hunbounded hl hh hint hlow hup hle
        omega
      · exact absurd ⟨hl', hh'⟩ hin

/-- What lies between the int64 bounds lies between the bounds that are set. -/
lemma covers_set {q : ℚ} (hl : INT32_MIN ≤ l → (l : ℚ) ≤ q) (hh : h ≤ INT32_MAX → q ≤ h)
    (hint : f = false → ∃ k : ℤ, q = k) (hexp : e ≤ MaxFiniteExponent → |q| ≤ below e) :
    (set l h f z e).Covers q := by
  refine ⟨fun hlow => ?_, fun hup => ?_, hint, hexp⟩
  · have hmin := (lowerInit_snd l).mp hlow
    have hle : Max.max INT32_MIN (Min.min INT32_MAX l) ≤ l := by omega
    simp only [set, toInt_lowerInit]
    exact le_trans (by exact_mod_cast hle) (hl hmin)
  · have hmax := (upperInit_snd h).mp hup
    have hle : h ≤ Max.max INT32_MIN (Min.min INT32_MAX h) := by omega
    simp only [set, toInt_upperInit]
    exact le_trans (hh hmax) (by exact_mod_cast hle)

end Set

end Range

end SpiderMonkey
