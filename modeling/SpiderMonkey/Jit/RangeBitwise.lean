import SpiderMonkey.Jit.Range

/-!
# Bitwise operations on ranges

The transfer functions for the bitwise operators and the shifts, on ranges of int32 values.  The
bounds come from leading zeros: numbers with at least `n` of them are those below `2 ^ (32 - n)`, so
the mask that has ones from there on bounds whatever `|` or `^` can make of them.  Negative numbers
are treated as the complements of their complements.

`CountLeadingZeroes32` is undefined for 0, and so is a shift by the width or more.  Both are checked
here (`Fault.undefinedBehavior`), so that the specifications say that neither occurs.
-/

namespace SpiderMonkey

open Binary64 Checked

namespace Range

open BitVec Nat

/-! ## Checked machine operations -/

/-- `mozilla::CountLeadingZeroes32`, which has no result for 0. -/
def CountLeadingZeroes32 (x : BitVec 32) : Checked ℕ :=
  if x = 0#32 then throw .undefinedBehavior else return 31 - x.toNat.log2

/-- The operator `>>` on uint32. -/
def shiftRightUInt32 (x : BitVec 32) (n : ℕ) : Checked (BitVec 32) :=
  if n < 32 then return x >>> n else throw .undefinedBehavior

/-- The operator `<<` on uint32. -/
def shiftLeftUInt32 (x : BitVec 32) (n : ℕ) : Checked (BitVec 32) :=
  if n < 32 then return x <<< n else throw .undefinedBehavior

/-- The operator `>>` on int32. -/
def shiftRightInt32 (x : BitVec 32) (n : ℕ) : Checked (BitVec 32) :=
  if n < 32 then return x.sshiftRight n else throw .undefinedBehavior

def UINT32_MAX : BitVec 32 := allOnes 32

def int32MinValue : BitVec 32 := BitVec.ofInt 32 INT32_MIN

def int32MaxValue : BitVec 32 := BitVec.ofInt 32 INT32_MAX

/-! ## The transfer functions -/

variable (lhs rhs : Range)

def and_ : Checked Range := do
  ensure (lhs.isInt32 = true)
  ensure (rhs.isInt32 = true)
  if lhs.lower.toInt < 0 ∧ rhs.lower.toInt < 0 then
    -- If both numbers can be negative, the result can be negative in the whole range.
    NewInt32Range int32MinValue (int32Max lhs.upper rhs.upper)
  else
    let upper := int32Min lhs.upper rhs.upper
    -- A negative value can return the whole of the other number.
    let upper := if lhs.lower.toInt < 0 then rhs.upper else upper
    let upper := if rhs.lower.toInt < 0 then lhs.upper else upper
    NewInt32Range 0#32 upper

/-- The lower bound of a disjunction with a negative operand, which has all of its leading
ones. -/
def orLower (lower : BitVec 32) (operandLower : BitVec 32) : Checked (BitVec 32) := do
  let leadingOnes ← CountLeadingZeroes32 (~~~operandLower)
  let mask ← shiftRightUInt32 UINT32_MAX leadingOnes
  return int32Max lower (~~~mask)

/-- The bounds of a disjunction with an operand that can be negative. -/
def orNegative : Checked Range :=
  if lhs.upper.toInt < 0 then do
    let lower ← orLower int32MinValue lhs.lower
    if rhs.upper.toInt < 0 then do
      let lower ← orLower lower rhs.lower
      NewInt32Range lower (-1#32)
    else NewInt32Range lower (-1#32)
  else if rhs.upper.toInt < 0 then do
    let lower ← orLower int32MinValue rhs.lower
    NewInt32Range lower (-1#32)
  else NewInt32Range int32MinValue int32MaxValue

/-- A disjunction of operands none of which is always 0 or always -1. -/
def orGeneral : Checked Range := do
  -- The code relies on the special cases to protect `CountLeadingZeroes32`.
  ensure (0 ≤ lhs.lower.toInt → lhs.upper ≠ 0#32)
  ensure (0 ≤ rhs.lower.toInt → rhs.upper ≠ 0#32)
  ensure (lhs.upper.toInt < 0 → lhs.lower ≠ -1#32)
  ensure (rhs.upper.toInt < 0 → rhs.lower ≠ -1#32)
  if 0 ≤ lhs.lower.toInt ∧ 0 ≤ rhs.lower.toInt then do
    -- The result will have leading zeros where both operands have leading zeros.
    let lhsLeadingZeros ← CountLeadingZeroes32 lhs.upper
    let rhsLeadingZeros ← CountLeadingZeroes32 rhs.upper
    let upper ← shiftRightUInt32 UINT32_MAX (Min.min lhsLeadingZeros rhsLeadingZeros)
    NewInt32Range (int32Max lhs.lower rhs.lower) upper
  else orNegative lhs rhs

def or_ : Checked Range := do
  ensure (lhs.isInt32 = true)
  ensure (rhs.isInt32 = true)
  if lhs.lower = lhs.upper ∧ lhs.lower = 0#32 then rhs.copy
  else if lhs.lower = lhs.upper ∧ lhs.lower = -1#32 then lhs.copy
  else if rhs.lower = rhs.upper ∧ rhs.lower = 0#32 then lhs.copy
  else if rhs.lower = rhs.upper ∧ rhs.lower = -1#32 then rhs.copy
  else orGeneral lhs rhs

/-- The bounds of an operand of `xor_`, negated if it is negative. -/
def xorOperand (op : Range) : BitVec 32 × BitVec 32 × Bool :=
  if op.upper.toInt < 0 then (~~~op.upper, ~~~op.lower, true) else (op.lower, op.upper, false)

/-- The bounds of an exclusive disjunction of operands that are not always negative. -/
def xorBounds (lhsLower lhsUpper rhsLower rhsUpper : BitVec 32) : Checked (BitVec 32 × BitVec 32) :=
  if lhsLower = 0#32 ∧ lhsUpper = 0#32 then return (rhsLower, rhsUpper)
  else if rhsLower = 0#32 ∧ rhsUpper = 0#32 then return (lhsLower, lhsUpper)
  else if 0 ≤ lhsLower.toInt ∧ 0 ≤ rhsLower.toInt then do
    -- Each operand's upper value, with all bits set that are not leading zeros of the other.
    let lhsLeadingZeros ← CountLeadingZeroes32 lhsUpper
    let rhsLeadingZeros ← CountLeadingZeroes32 rhsUpper
    let lhsMask ← shiftRightUInt32 UINT32_MAX lhsLeadingZeros
    let rhsMask ← shiftRightUInt32 UINT32_MAX rhsLeadingZeros
    return (0#32, int32Min (rhsUpper ||| lhsMask) (lhsUpper ||| rhsMask))
  else return (int32MinValue, int32MaxValue)

def xor_ : Checked Range := do
  ensure (lhs.isInt32 = true)
  ensure (rhs.isInt32 = true)
  let (lhsLower, lhsUpper, lhsInverted) := xorOperand lhs
  let (rhsLower, rhsUpper, rhsInverted) := xorOperand rhs
  let (lower, upper) ← xorBounds lhsLower lhsUpper rhsLower rhsUpper
  -- Negating one of the operands, but not both, negates the result.
  if lhsInverted != rhsInverted then NewInt32Range (~~~upper) (~~~lower)
  else NewInt32Range lower upper

def not_ (op : Range) : Checked Range := do
  ensure (op.isInt32 = true)
  NewInt32Range (~~~op.upper) (~~~op.lower)

/-- The shift count that the language takes of an int32. -/
def shiftCount (c : BitVec 32) : ℕ := (c &&& 0x1f#32).toNat

/-- The number with its leading bits, the sign bit among them, lost in the shift. -/
def shiftRoundTrip (x : BitVec 32) (shift : ℕ) : Checked (BitVec 32) := do
  let x ← shiftLeftUInt32 x shift
  let x ← shiftLeftUInt32 x 1
  let x ← shiftRightUInt32 x shift
  shiftRightUInt32 x 1

def lshConstant (lhs : Range) (c : BitVec 32) : Checked Range := do
  ensure (lhs.isInt32 = true)
  let shift := shiftCount c
  let lower ← shiftRoundTrip lhs.lower shift
  let upper ← shiftRoundTrip lhs.upper shift
  if lower = lhs.lower ∧ upper = lhs.upper then do
    -- The shift doesn't lose bits or shift bits into the sign bit.
    let l ← shiftLeftUInt32 lhs.lower shift
    let h ← shiftLeftUInt32 lhs.upper shift
    NewInt32Range l h
  else NewInt32Range int32MinValue int32MaxValue

def rshConstant (lhs : Range) (c : BitVec 32) : Checked Range := do
  ensure (lhs.isInt32 = true)
  let shift := shiftCount c
  let l ← shiftRightInt32 lhs.lower shift
  let h ← shiftRightInt32 lhs.upper shift
  NewInt32Range l h

def urshConstant (lhs : Range) (c : BitVec 32) : Checked Range := do
  ensure (lhs.isInt32 = true)
  let shift := shiftCount c
  if lhs.isFiniteNonNegative || lhs.isFiniteNegative then do
    let l ← shiftRightUInt32 lhs.lower shift
    let h ← shiftRightUInt32 lhs.upper shift
    NewUInt32Range l h
  else do
    let h ← shiftRightUInt32 UINT32_MAX shift
    NewUInt32Range 0#32 h

def lsh : Checked Range := do
  ensure (lhs.isInt32 = true)
  ensure (rhs.isInt32 = true)
  NewInt32Range int32MinValue int32MaxValue

/-- The shift counts of a range, canonicalized to 0 to 31. -/
def shiftBounds (rhs : Range) : ℕ × ℕ :=
  if rhs.upper.toInt - rhs.lower.toInt ≥ 31 then (0, 31)
  else if shiftCount rhs.lower > shiftCount rhs.upper then (0, 31)
  else (shiftCount rhs.lower, shiftCount rhs.upper)

def rsh : Checked Range := do
  ensure (lhs.isInt32 = true)
  ensure (rhs.isInt32 = true)
  let (shiftLower, shiftUpper) := shiftBounds rhs
  ensure (shiftUpper ≤ 31)
  let min ← shiftRightInt32 lhs.lower (if lhs.lower.toInt < 0 then shiftLower else shiftUpper)
  let max ← shiftRightInt32 lhs.upper (if 0 ≤ lhs.upper.toInt then shiftLower else shiftUpper)
  NewInt32Range min max

def ursh : Checked Range := do
  ensure (lhs.isInt32 = true)
  ensure (rhs.isInt32 = true)
  NewUInt32Range 0#32 (if lhs.isFiniteNonNegative then lhs.upper else UINT32_MAX)

/-! ## Signed and unsigned readings -/

section Words

variable {x y : BitVec 32}

lemma toInt_cases (x : BitVec 32) :
    x.toNat < 2 ^ 31 ∧ x.toInt = x.toNat ∨ 2 ^ 31 ≤ x.toNat ∧ x.toInt = x.toNat - 2 ^ 32 := by
  have := x.isLt
  rw [toInt_eq_toNat_cond]
  split <;> omega

lemma toInt_not (x : BitVec 32) : (~~~x).toInt = -x.toInt - 1 := by
  have hx := x.isLt
  have h := toInt_cases x
  have h' := toInt_cases (~~~x)
  rw [toNat_not] at h'
  omega

lemma toInt_neg_one : (-1#32 : BitVec 32).toInt = -1 := by decide

lemma toInt_int32MinValue : int32MinValue.toInt = INT32_MIN := toInt_ofInt le_rfl (by decide)

lemma toInt_int32MaxValue : int32MaxValue.toInt = INT32_MAX := toInt_ofInt (by decide) le_rfl

/-- With a non-negative operand a conjunction lies between zero and that operand. -/
lemma toInt_and_of_nonneg (hx : 0 ≤ x.toInt) : 0 ≤ (x &&& y).toInt ∧ (x &&& y).toInt ≤ x.toInt := by
  have hle : (x &&& y).toNat ≤ x.toNat := by
    rw [toNat_and]
    exact and_le_left
  have h := toInt_cases x
  have h' := toInt_cases (x &&& y)
  omega

lemma msb_iff (x : BitVec 32) : x.msb = true ↔ x.toInt < 0 := by
  rw [msb_eq_decide, decide_eq_true_eq]
  have h := toInt_cases x
  norm_num at h ⊢
  omega

/-- A conjunction of negative numbers does not exceed them. -/
lemma toInt_and_of_neg (hx : x.toInt < 0) (hy : y.toInt < 0) : (x &&& y).toInt ≤ x.toInt := by
  have hle : (x &&& y).toNat ≤ x.toNat := by
    rw [toNat_and]
    exact and_le_left
  have hneg : (x &&& y).toInt < 0 := by
    rw [← msb_iff, msb_and, (msb_iff x).mpr hx, (msb_iff y).mpr hy]
    rfl
  have h := toInt_cases x
  have h' := toInt_cases (x &&& y)
  omega

/-- With a negative operand a disjunction lies between that operand and -1. -/
lemma toInt_or_of_neg (hx : x.toInt < 0) : x.toInt ≤ (x ||| y).toInt ∧ (x ||| y).toInt ≤ -1 := by
  have hnot : ~~~(x ||| y) = ~~~x &&& ~~~y := not_or
  have hand := toInt_and_of_nonneg (x := ~~~x) (y := ~~~y) (by rw [toInt_not]; omega)
  rw [← hnot, toInt_not, toInt_not] at hand
  omega

/-- A disjunction of non-negative numbers is no less than they are and has no more bits. -/
lemma toInt_or_of_nonneg (hx : 0 ≤ x.toInt) (hy : 0 ≤ y.toInt) : x.toInt ≤ (x ||| y).toInt ∧ y.toInt ≤ (x ||| y).toInt ∧
    (x ||| y).toInt = (x.toNat ||| y.toNat : ℕ) := by
  have hl := left_le_or (n := x.toNat) (m := y.toNat)
  have hr := right_le_or (n := x.toNat) (m := y.toNat)
  have h := toInt_cases x
  have h' := toInt_cases y
  have hlt := or_lt_two_pow (x := x.toNat) (y := y.toNat) (n := 31) (by omega) (by omega)
  have h'' := toInt_cases (x ||| y)
  rw [toNat_or] at h''
  omega

end Words

/-! ## Masks of leading zeros -/

/-- The greatest number with as many bits. -/
def bitMask (n : ℕ) : ℕ := 2 ^ (n.log2 + 1) - 1

lemma le_bitMask (n : ℕ) : n ≤ bitMask n := by
  have := lt_log2_self (n := n)
  unfold bitMask
  omega

lemma bitMask_lt {n k : ℕ} (hk : 0 < k) (h : n < 2 ^ k) : bitMask n < 2 ^ k := by
  have hlog : n.log2 < k := by
    by_cases h0 : n = 0
    · rw [h0]
      exact hk
    · exact (Nat.log2_lt h0).mpr h
  have hle := Nat.pow_le_pow_right Nat.two_pos (Nat.succ_le_of_lt hlog)
  have hpos := Nat.two_pow_pos (n.log2 + 1)
  unfold bitMask
  omega

/-- A mask of ones fills the low bits up. -/
lemma or_bitMask (y n : ℕ) : y ||| bitMask n = 2 ^ (n.log2 + 1) * (y / 2 ^ (n.log2 + 1)) + bitMask n := by
  have hpos := Nat.two_pow_pos (n.log2 + 1)
  have hlt : bitMask n < 2 ^ (n.log2 + 1) := by
    unfold bitMask
    omega
  have hdiv : (y ||| bitMask n) / 2 ^ (n.log2 + 1) = y / 2 ^ (n.log2 + 1) := by
    rw [Nat.or_div_two_pow, Nat.div_eq_of_lt hlt, Nat.or_zero]
  have hmod : (y ||| bitMask n) % 2 ^ (n.log2 + 1) = bitMask n := by
    have hle : bitMask n ≤ (y ||| bitMask n) % 2 ^ (n.log2 + 1) := by
      rw [Nat.or_mod_two_pow, Nat.mod_eq_of_lt hlt]
      exact Nat.right_le_or
    unfold bitMask at hle ⊢
    omega
  rw [← Nat.div_add_mod (y ||| bitMask n) (2 ^ (n.log2 + 1)), hdiv, hmod]

lemma or_bitMask_mono {y u n : ℕ} (h : y ≤ u) : y ||| bitMask n ≤ u ||| bitMask n := by
  rw [or_bitMask, or_bitMask]
  exact Nat.add_le_add_right (Nat.mul_le_mul_left _ (Nat.div_le_div_right h)) _

/-- An exclusive disjunction changes low bits only. -/
lemma xor_le_or_bitMask {x y n : ℕ} (h : x ≤ n) : x ^^^ y ≤ y ||| bitMask n := by
  have hpos := Nat.two_pow_pos (n.log2 + 1)
  have hlt : x < 2 ^ (n.log2 + 1) := h.trans_lt Nat.lt_log2_self
  have hdiv : (x ^^^ y) / 2 ^ (n.log2 + 1) = y / 2 ^ (n.log2 + 1) := by
    simp [Nat.xor_div_two_pow, Nat.div_eq_of_lt hlt]
  have hmod := Nat.mod_lt (x ^^^ y) hpos
  rw [or_bitMask, ← Nat.div_add_mod (x ^^^ y) (2 ^ (n.log2 + 1)), hdiv]
  unfold bitMask
  omega

/-- The mask of as many leading zeros as a number has. -/
lemma returns_leadingMask {x : BitVec 32} (hx : x ≠ 0#32) :
    Returns (CountLeadingZeroes32 x) fun n => n = 31 - x.toNat.log2 ∧ x.toNat.log2 ≤ 31 := by
  have hne : x.toNat ≠ 0 := fun h => hx (eq_of_toNat_eq h)
  have hlog := (log2_lt hne).mpr x.isLt
  unfold CountLeadingZeroes32
  rw [if_neg hx]
  exact .pure ⟨rfl, by omega⟩

lemma returns_shiftRightUInt32 {x : BitVec 32} {n : ℕ} (hn : n < 32) :
    Returns (shiftRightUInt32 x n) fun r => r = x >>> n := by
  unfold shiftRightUInt32
  rw [if_pos hn]
  exact .pure rfl

lemma returns_shiftLeftUInt32 {x : BitVec 32} {n : ℕ} (hn : n < 32) :
    Returns (shiftLeftUInt32 x n) fun r => r = x <<< n := by
  unfold shiftLeftUInt32
  rw [if_pos hn]
  exact .pure rfl

lemma returns_shiftRightInt32 {x : BitVec 32} {n : ℕ} (hn : n < 32) :
    Returns (shiftRightInt32 x n) fun r => r = x.sshiftRight n := by
  unfold shiftRightInt32
  rw [if_pos hn]
  exact .pure rfl

lemma toNat_UINT32_MAX_shiftRight {n : ℕ} (hn : n < 32) : (UINT32_MAX >>> n).toNat = 2 ^ (32 - n) - 1 := by
  revert hn n
  decide

/-- The mask for a number: ones from its leading bit on. -/
lemma toNat_mask {k : ℕ} (hk : k ≤ 31) : (UINT32_MAX >>> (31 - k)).toNat = 2 ^ (k + 1) - 1 := by
  rw [toNat_UINT32_MAX_shiftRight (by omega)]
  congr 2
  omega

/-! ## Integers in ranges -/

/-- An integer of at most 53 bits is described as a double if it is covered. -/
lemma describes_ofInt {r : Range} {k : ℤ} (hk : k.natAbs < 2 ^ 53) (h : r.Covers k) : r.Describes (ofInt k) := by
  obtain ⟨hfin, hval⟩ := toRat_ofInt hk
  refine (describes_iff hfin.not_isNaN).mpr ⟨by rwa [hval], fun hz => ?_⟩
  have hneg := hz.1
  rw [isNegative_ofInt, decide_eq_true_eq] at hneg
  have hzero := hz.toRat_eq
  rw [hval] at hzero
  have : k = 0 := by exact_mod_cast hzero
  omega

/-- The specification of the constructors: all integers between the bounds are described. -/
lemma returns_ofInt64 {l h : ℤ} (hle : l ≤ h) (hl : -2 ^ 31 ≤ l) (hh : h < 2 ^ 32) :
    Returns (ofInt64 l h false false MaxInt32Exponent) fun r => r.Consistent ∧
      ∀ k : ℤ, l ≤ k → k ≤ h → r.Describes (ofInt k) := by
  have hpow : 2 ^ (MaxInt32Exponent + 1) = 2 ^ 32 := rfl
  have htight : (set l h false false MaxInt32Exponent).Tight := by
    refine tight_set (.inl hle) (.inl (by decide)) (fun _ => ?_) ?_ ?_ fun _ hlow hup => ?_
    all_goals rw [hpow]
    · exact ⟨by norm_num, fun _ => le_rfl⟩
    · omega
    · omega
    · omega
  apply (returns_optimize htight).imp
  rintro r ⟨hr, hdesc⟩
  refine ⟨hr, fun k hlk hkh => ?_⟩
  obtain ⟨hfin, hval⟩ := toRat_ofInt (k := k) (by omega)
  refine hdesc _ (fun hn => absurd hn hfin.not_isNaN) fun _ => ⟨?_, fun hz => ?_⟩
  · rw [hval]
    exact covers_set (fun _ => by exact_mod_cast hlk) (fun _ => by exact_mod_cast hkh)
      (fun _ => ⟨k, rfl⟩) fun _ => abs_intCast_le_below (by decide) (by rw [hpow]; omega)
  · have hneg := hz.1
    rw [isNegative_ofInt, decide_eq_true_eq] at hneg
    have hzero := hz.toRat_eq
    rw [hval] at hzero
    have : k = 0 := by exact_mod_cast hzero
    omega

lemma returns_NewInt32Range {l h : BitVec 32} (hle : l.toInt ≤ h.toInt) :
    Returns (NewInt32Range l h) fun r => r.Consistent ∧ ∀ k : ℤ, l.toInt ≤ k → k ≤ h.toInt → r.Describes (ofInt k) := by
  have hl := toInt_cases l
  have hh := toInt_cases h
  have := h.isLt
  exact returns_ofInt64 hle (by omega) (by omega)

lemma returns_NewUInt32Range {l h : BitVec 32} (hle : l.toNat ≤ h.toNat) :
    Returns (NewUInt32Range l h) fun r => r.Consistent ∧
      ∀ k : ℕ, l.toNat ≤ k → k ≤ h.toNat → r.Describes (ofInt k) := by
  apply (returns_ofInt64 (l := l.toNat) (h := h.toNat) (by omega) (by omega) (by omega)).imp
  rintro r ⟨hr, hdesc⟩
  exact ⟨hr, fun k hlk hkh => hdesc k (by omega) (by omega)⟩

lemma returns_anyInt32 : Returns (NewInt32Range int32MinValue int32MaxValue) fun r =>
    ∀ x : BitVec 32, r.Describes (ofInt x.toInt) := by
  apply (returns_NewInt32Range (by decide)).imp
  rintro r ⟨-, hdesc⟩
  intro x
  apply hdesc
  · rw [toInt_int32MinValue]
    exact INT32_MIN_le _
  · rw [toInt_int32MaxValue]
    exact le_INT32_MAX _

/-- The int32 values of a range. -/
def HasInt32 (a : Range) (x : BitVec 32) : Prop :=
  a.lower.toInt ≤ x.toInt ∧ x.toInt ≤ a.upper.toInt

section Specifications

variable {a b : Range}

lemma describes_of_hasInt32 (ha : a.AssertInvariants) (hi : a.isInt32 = true) {x : BitVec 32}
    (hx : a.HasInt32 x) : a.Describes (ofInt x.toInt) := by
  unfold isInt32 at hi
  rw [Bool.and_eq_true, Bool.and_eq_true, Bool.not_eq_true', Bool.not_eq_true'] at hi
  have hlow := (floorLog2Abs_lt_iff _).mp ha.exponent_lower
  have hup := (floorLog2Abs_lt_iff _).mp ha.exponent_upper
  unfold adjustedExponent at hlow hup
  rw [hi.1.2, if_neg Bool.false_ne_true, add_zero] at hlow hup
  obtain ⟨hl, hu⟩ := hx
  have hcases := toInt_cases x
  refine describes_ofInt (by omega) ⟨fun _ => by exact_mod_cast hl, fun _ => by exact_mod_cast hu,
    fun _ => ⟨_, rfl⟩, fun _ => ?_⟩
  by_cases he : a.maxExponent ≤ MaxTruncatableExponent
  · apply abs_intCast_le_below he
    omega
  · apply le_trans (abs_intCast_le_below le_rfl _) (below_mono (not_le.mp he).le)
    unfold MaxTruncatableExponent
    omega

lemma returns_copy_int32 (ha : a.AssertInvariants) : Returns a.copy fun r => r = a := by
  unfold copy assertInvariants
  apply (Returns.ensure ha).bind
  intro _ _
  exact .pure rfl

theorem returns_and_ (ha : a.AssertInvariants) (hb : b.AssertInvariants) (hia : a.isInt32 = true)
    (hib : b.isInt32 = true) : Returns (and_ a b) fun r =>
      ∀ x y, a.HasInt32 x → b.HasInt32 y → r.Describes (ofInt (x &&& y).toInt) := by
  have hlea := ha.lower_le_upper
  have hleb := hb.lower_le_upper
  unfold and_
  apply (Returns.ensure hia).bind
  intro _ _
  apply (Returns.ensure hib).bind
  intro _ _
  refine .ite (fun hneg => ?_) fun hneg => ?_
  · have hle : int32MinValue.toInt ≤ (int32Max a.upper b.upper).toInt := by
      rw [toInt_int32MinValue]
      exact INT32_MIN_le _
    apply (returns_NewInt32Range hle).imp
    rintro r ⟨-, hdesc⟩
    rintro x y ⟨-, hx⟩ ⟨-, hy⟩
    apply hdesc
    · rw [toInt_int32MinValue]
      exact INT32_MIN_le _
    · -- The result does not exceed one of the operands.
      rw [toInt_int32Max]
      have hand : (x &&& y).toInt ≤ x.toInt ∨ (x &&& y).toInt ≤ y.toInt := by
        by_cases hx0 : 0 ≤ x.toInt
        · exact .inl (toInt_and_of_nonneg hx0).2
        by_cases hy0 : 0 ≤ y.toInt
        · rw [BitVec.and_comm]
          exact .inr (toInt_and_of_nonneg hy0).2
        · exact .inl (toInt_and_of_neg (not_le.mp hx0) (not_le.mp hy0))
      omega
  · have hzero : (0#32).toInt = 0 := rfl
    have hcases : 0 ≤ a.lower.toInt ∨ 0 ≤ b.lower.toInt := by omega
    set upper := if b.lower.toInt < 0 then a.upper
      else if a.lower.toInt < 0 then b.upper else int32Min a.upper b.upper with hupper
    have hvalue : upper.toInt = if b.lower.toInt < 0 then a.upper.toInt
        else if a.lower.toInt < 0 then b.upper.toInt
        else Min.min a.upper.toInt b.upper.toInt := by
      rw [hupper]
      split
      · rfl
      · split
        · rfl
        · exact toInt_int32Min _ _
    have hle : (0#32).toInt ≤ upper.toInt := by
      rw [hvalue, hzero]
      split_ifs <;> omega
    apply (returns_NewInt32Range hle).imp
    rintro r ⟨-, hdesc⟩
    intro x y ⟨hx, hx'⟩ ⟨hy, hy'⟩
    have hleft : 0 ≤ x.toInt → 0 ≤ (x &&& y).toInt ∧ (x &&& y).toInt ≤ x.toInt := toInt_and_of_nonneg
    have hright : 0 ≤ y.toInt → 0 ≤ (x &&& y).toInt ∧ (x &&& y).toInt ≤ y.toInt := by
      intro h
      rw [BitVec.and_comm]
      exact toInt_and_of_nonneg h
    apply hdesc
    · rw [hzero]
      rcases hcases with h | h
      · exact (hleft (by omega)).1
      · exact (hright (by omega)).1
    · rw [hvalue]
      split
      next h => have := hleft (by omega); omega
      next h =>
        split
        next h' => have := hright (by omega); omega
        next h' =>
          have := hleft (by omega)
          have := hright (by omega)
          omega

theorem returns_not_ (ha : a.AssertInvariants) (hia : a.isInt32 = true) : Returns (not_ a) fun r =>
    ∀ x, a.HasInt32 x → r.Describes (ofInt (~~~x).toInt) := by
  have hle := ha.lower_le_upper
  unfold not_
  apply (Returns.ensure hia).bind
  intro _ _
  apply (returns_NewInt32Range (by rw [toInt_not, toInt_not]; omega)).imp
  rintro r ⟨-, hdesc⟩
  intro x ⟨hx, hx'⟩
  apply hdesc
  · rw [toInt_not, toInt_not]
    omega
  · rw [toInt_not, toInt_not]
    omega

/-! ### Disjunction -/

/-- The bound for a negative operand is a bound of that operand. -/
lemma returns_orLower {l x : BitVec 32} (hneg : x.toInt < 0) (hne : x ≠ -1#32) :
    Returns (orLower l x) fun r => r.toInt ≤ Max.max l.toInt x.toInt ∧ l.toInt ≤ r.toInt := by
  have hne' : ~~~x ≠ 0#32 := by
    intro h
    apply hne
    rw [← not_not (b := x), h]
    decide
  unfold orLower
  apply (returns_leadingMask hne').bind
  rintro _ ⟨rfl, hlog⟩
  apply (returns_shiftRightUInt32 (by omega)).bind
  rintro _ rfl
  refine .pure ?_
  have hmask := toNat_mask hlog
  have hle := le_bitMask (~~~x).toNat
  have hlt := bitMask_lt (n := (~~~x).toNat) (k := 31) (by norm_num) (by
    have h := toInt_cases (~~~x)
    rw [toInt_not] at h
    omega)
  unfold bitMask at hle hlt
  rw [← hmask] at hle hlt
  have h := toInt_cases (~~~x)
  have h' := toInt_cases (UINT32_MAX >>> (31 - (~~~x).toNat.log2))
  rw [toInt_not] at h
  rw [toInt_int32Max, toInt_not]
  omega

lemma returns_orNegative (ha : a.AssertInvariants) (hb : b.AssertInvariants)
    (hneg : a.upper.toInt < 0 → a.lower ≠ -1#32) (hneg' : b.upper.toInt < 0 → b.lower ≠ -1#32) :
    Returns (orNegative a b) fun r =>
      ∀ x y, a.HasInt32 x → b.HasInt32 y → r.Describes (ofInt (x ||| y).toInt) := by
  have hlea := ha.lower_le_upper
  have hleb := hb.lower_le_upper
  have hmin := toInt_int32MinValue
  -- A lower bound that neither operand goes below suffices if one of them is negative.
  have hfinal : ∀ l : BitVec 32, (l.toInt ≤ Max.max INT32_MIN a.lower.toInt ∧ a.upper.toInt < 0 ∨
        l.toInt ≤ Max.max INT32_MIN b.lower.toInt ∧ b.upper.toInt < 0 ∨
        l.toInt ≤ Max.max a.lower.toInt b.lower.toInt ∧ a.upper.toInt < 0 ∧ b.upper.toInt < 0) →
      Returns (NewInt32Range l (-1#32)) fun r =>
        ∀ x y, a.HasInt32 x → b.HasInt32 y → r.Describes (ofInt (x ||| y).toInt) := by
    intro l hl
    have hmina := INT32_MIN_le a.lower
    have hminb := INT32_MIN_le b.lower
    have hle : l.toInt ≤ (-1#32).toInt := by
      rw [toInt_neg_one]
      omega
    apply (returns_NewInt32Range hle).imp
    rintro r ⟨-, hdesc⟩
    intro x y ⟨hx, hx'⟩ ⟨hy, hy'⟩
    have hleft : x.toInt < 0 → x.toInt ≤ (x ||| y).toInt ∧ (x ||| y).toInt ≤ -1 := toInt_or_of_neg
    have hright : y.toInt < 0 → y.toInt ≤ (x ||| y).toInt ∧ (x ||| y).toInt ≤ -1 := by
      intro h
      rw [BitVec.or_comm]
      exact toInt_or_of_neg h
    rcases hl with ⟨hl, hau⟩ | ⟨hl, hbu⟩ | ⟨hl, hau, hbu⟩
    · have := hleft (by omega)
      exact hdesc _ (by omega) (by rw [toInt_neg_one]; omega)
    · have := hright (by omega)
      exact hdesc _ (by omega) (by rw [toInt_neg_one]; omega)
    · have := hleft (by omega)
      have := hright (by omega)
      exact hdesc _ (by omega) (by rw [toInt_neg_one]; omega)
  unfold orNegative
  refine .ite (fun hau => ?_) fun hau => .ite (fun hbu => ?_) fun hbu => ?_
  · apply (returns_orLower (by omega) (hneg hau)).bind
    rintro l ⟨hl, -⟩
    rw [hmin] at hl
    refine .ite (fun hbu => ?_) fun _ => hfinal l (.inl ⟨hl, hau⟩)
    apply (returns_orLower (by omega) (hneg' hbu)).bind
    rintro l' ⟨hl', -⟩
    have hmina := INT32_MIN_le a.lower
    exact hfinal l' (.inr (.inr ⟨by omega, hau, hbu⟩))
  · apply (returns_orLower (by omega) (hneg' hbu)).bind
    rintro l ⟨hl, -⟩
    rw [hmin] at hl
    exact hfinal l (.inr (.inl ⟨hl, hbu⟩))
  · exact returns_anyInt32.imp fun r hdesc x y _ _ => hdesc (x ||| y)

lemma returns_orGeneral (ha : a.AssertInvariants) (hb : b.AssertInvariants)
    (hza : ¬(a.lower = a.upper ∧ a.lower = 0#32)) (hoa : ¬(a.lower = a.upper ∧ a.lower = -1#32))
    (hzb : ¬(b.lower = b.upper ∧ b.lower = 0#32)) (hob : ¬(b.lower = b.upper ∧ b.lower = -1#32)) :
    Returns (orGeneral a b) fun r =>
      ∀ x y, a.HasInt32 x → b.HasInt32 y → r.Describes (ofInt (x ||| y).toInt) := by
  -- Ranges that are not always 0 or always -1 protect the leading zeros.
  have hpos : ∀ {r : Range}, r.AssertInvariants → ¬(r.lower = r.upper ∧ r.lower = 0#32) →
      0 ≤ r.lower.toInt → r.upper ≠ 0#32 := by
    intro r hr hz hl hu
    have hle := hr.lower_le_upper
    have hzero : r.upper.toInt = 0 := by rw [hu]; rfl
    have heq : r.lower = r.upper := BitVec.eq_of_toInt_eq (by omega)
    exact hz ⟨heq, heq.trans hu⟩
  have hneg : ∀ {r : Range}, r.AssertInvariants → ¬(r.lower = r.upper ∧ r.lower = -1#32) →
      r.upper.toInt < 0 → r.lower ≠ -1#32 := by
    intro r hr ho hu hl
    have hle := hr.lower_le_upper
    have hone : r.lower.toInt = -1 := by rw [hl]; exact toInt_neg_one
    have heq : r.lower = r.upper := BitVec.eq_of_toInt_eq (by omega)
    exact ho ⟨heq, hl⟩
  have hlea := ha.lower_le_upper
  have hleb := hb.lower_le_upper
  unfold orGeneral
  apply (Returns.ensure (hpos ha hza)).bind
  intro _ _
  apply (Returns.ensure (hpos hb hzb)).bind
  intro _ _
  apply (Returns.ensure (hneg ha hoa)).bind
  intro _ _
  apply (Returns.ensure (hneg hb hob)).bind
  intro _ _
  refine .ite (fun hnonneg => ?_) fun _ => returns_orNegative ha hb (hneg ha hoa) (hneg hb hob)
  apply (returns_leadingMask (hpos ha hza hnonneg.1)).bind
  rintro _ ⟨rfl, hloga⟩
  apply (returns_leadingMask (hpos hb hzb hnonneg.2)).bind
  rintro _ ⟨rfl, hlogb⟩
  apply (returns_shiftRightUInt32 (by omega)).bind
  rintro _ rfl
  have hca := toInt_cases a.upper
  have hcb := toInt_cases b.upper
  -- The mask is that of the longer one of the two upper bounds.
  obtain ⟨k, hk, hk31, hka, hkb⟩ : ∃ k, Min.min (31 - a.upper.toNat.log2) (31 - b.upper.toNat.log2) =
      31 - k ∧ k ≤ 30 ∧ a.upper.toNat < 2 ^ (k + 1) ∧ b.upper.toNat < 2 ^ (k + 1) := by
    have hna : a.upper.toNat ≠ 0 := fun h =>
      hpos ha hza hnonneg.1 (BitVec.eq_of_toNat_eq h)
    have hnb : b.upper.toNat ≠ 0 := fun h =>
      hpos hb hzb hnonneg.2 (BitVec.eq_of_toNat_eq h)
    have hla := (Nat.log2_lt hna).mpr (show a.upper.toNat < 2 ^ 31 by omega)
    have hlb := (Nat.log2_lt hnb).mpr (show b.upper.toNat < 2 ^ 31 by omega)
    refine ⟨Max.max a.upper.toNat.log2 b.upper.toNat.log2, by omega, by omega, ?_, ?_⟩
    · exact Nat.lt_log2_self.trans_le (Nat.pow_le_pow_right Nat.two_pos (by omega))
    · exact Nat.lt_log2_self.trans_le (Nat.pow_le_pow_right Nat.two_pos (by omega))
  rw [hk]
  have hmask := toNat_mask (k := k) (by omega)
  have hpow : 2 ^ (k + 1) ≤ 2 ^ 31 := Nat.pow_le_pow_right Nat.two_pos (by omega)
  have hcm := toInt_cases (UINT32_MAX >>> (31 - k))
  apply (returns_NewInt32Range (by rw [toInt_int32Max]; omega)).imp
  rintro r ⟨-, hdesc⟩
  intro x y ⟨hx, hx'⟩ ⟨hy, hy'⟩
  obtain ⟨hlx, hly, hval⟩ := toInt_or_of_nonneg (x := x) (y := y) (by omega) (by omega)
  have hcx := toInt_cases x
  have hcy := toInt_cases y
  have hlt := Nat.or_lt_two_pow (x := x.toNat) (y := y.toNat) (n := k + 1) (by omega) (by omega)
  apply hdesc
  · rw [toInt_int32Max]
    omega
  · rw [hval]
    omega

theorem returns_or_ (ha : a.AssertInvariants) (hb : b.AssertInvariants) (hia : a.isInt32 = true)
    (hib : b.isInt32 = true) : Returns (or_ a b) fun r =>
      ∀ x y, a.HasInt32 x → b.HasInt32 y → r.Describes (ofInt (x ||| y).toInt) := by
  -- An operand that is always the same value.
  have hsingle : ∀ {r : Range} {x c : BitVec 32}, r.HasInt32 x → r.lower = r.upper ∧ r.lower = c → x = c := by
    rintro r x c ⟨hl, hu⟩ ⟨heq, rfl⟩
    rw [← heq] at hu
    exact BitVec.eq_of_toInt_eq (le_antisymm hu hl)
  have hones : ∀ x : BitVec 32, -1#32 ||| x = -1#32 := by
    intro x
    rw [show (-1#32 : BitVec 32) = BitVec.allOnes 32 by decide, BitVec.allOnes_or]
  unfold or_
  apply (Returns.ensure hia).bind
  intro _ _
  apply (Returns.ensure hib).bind
  intro _ _
  refine .ite (fun hza => ?_) fun hza => .ite (fun hoa => ?_) fun hoa =>
    .ite (fun hzb => ?_) fun hzb => .ite (fun hob => ?_) fun hob =>
      returns_orGeneral ha hb hza hoa hzb hob
  · apply (returns_copy_int32 hb).imp
    rintro _ rfl x y hx hy
    rw [hsingle hx hza, BitVec.zero_or]
    exact describes_of_hasInt32 hb hib hy
  · apply (returns_copy_int32 ha).imp
    rintro _ rfl x y hx hy
    have hxo := hsingle hx hoa
    rw [hxo, hones, ← hxo]
    exact describes_of_hasInt32 ha hia hx
  · apply (returns_copy_int32 ha).imp
    rintro _ rfl x y hx hy
    rw [hsingle hy hzb, BitVec.or_zero]
    exact describes_of_hasInt32 ha hia hx
  · apply (returns_copy_int32 hb).imp
    rintro _ rfl x y hx hy
    have hyo := hsingle hy hob
    rw [hyo, BitVec.or_comm, hones, ← hyo]
    exact describes_of_hasInt32 hb hib hy

/-! ### Exclusive disjunction -/

/-- The operand or its complement. -/
def invertIf (inverted : Bool) (x : BitVec 32) : BitVec 32 := if inverted then ~~~x else x

/-- The bounds are those of the operand or of its complement. -/
lemma xorOperand_spec (ha : a.AssertInvariants) : (xorOperand a).1.toInt ≤ (xorOperand a).2.1.toInt ∧
    ∀ x, a.HasInt32 x → (xorOperand a).1.toInt ≤ (invertIf (xorOperand a).2.2 x).toInt ∧
      (invertIf (xorOperand a).2.2 x).toInt ≤ (xorOperand a).2.1.toInt := by
  have hle := ha.lower_le_upper
  unfold xorOperand
  split
  next h =>
    simp only [toInt_not, invertIf, if_true]
    refine ⟨by omega, ?_⟩
    rintro x ⟨hl, hu⟩
    omega
  next h =>
    simpa using ⟨hle, fun x hx => hx⟩

lemma toInt_xor_of_nonneg {x y : BitVec 32} (hx : 0 ≤ x.toInt) (hy : 0 ≤ y.toInt) :
    (x ^^^ y).toInt = (x.toNat ^^^ y.toNat : ℕ) := by
  have h := toInt_cases x
  have h' := toInt_cases y
  have hlt := xor_lt_two_pow (x := x.toNat) (y := y.toNat) (n := 31) (by omega) (by omega)
  have h'' := toInt_cases (x ^^^ y)
  rw [toNat_xor] at h''
  omega

/-- The bits of one operand with the bits of the other filled up bound the result. -/
lemma toInt_xor_le {x y m u : BitVec 32} (hx : 0 ≤ x.toInt) (hy : 0 ≤ y.toInt)
    (hm : x.toInt ≤ m.toInt) (hu : y.toInt ≤ u.toInt) (hlog : m.toNat.log2 ≤ 31) :
    (x ^^^ y).toInt ≤ (u ||| UINT32_MAX >>> (31 - m.toNat.log2)).toInt := by
  have hcx := toInt_cases x
  have hcy := toInt_cases y
  have hcm := toInt_cases m
  have hcu := toInt_cases u
  have hmask := toNat_mask hlog
  have hlt := bitMask_lt (n := m.toNat) (k := 31) (by norm_num) (by omega)
  have hle : x.toNat ^^^ y.toNat ≤ u.toNat ||| bitMask m.toNat :=
    (xor_le_or_bitMask (y := y.toNat) (show x.toNat ≤ m.toNat by omega)).trans
      (or_bitMask_mono (by omega))
  have hmask' : (UINT32_MAX >>> (31 - m.toNat.log2)).toNat = bitMask m.toNat := hmask
  have hcm' := toInt_cases (UINT32_MAX >>> (31 - m.toNat.log2))
  obtain ⟨-, -, hor⟩ := toInt_or_of_nonneg (x := u)
    (y := UINT32_MAX >>> (31 - m.toNat.log2)) (by omega) (by omega)
  rw [hor, hmask', toInt_xor_of_nonneg hx hy]
  exact_mod_cast hle

lemma returns_xorBounds {l₁ u₁ l₂ u₂ : BitVec 32} (hle₁ : l₁.toInt ≤ u₁.toInt) (hle₂ : l₂.toInt ≤ u₂.toInt) :
    Returns (xorBounds l₁ u₁ l₂ u₂) fun r => r.1.toInt ≤ r.2.toInt ∧
      ∀ x y : BitVec 32, l₁.toInt ≤ x.toInt → x.toInt ≤ u₁.toInt → l₂.toInt ≤ y.toInt →
        y.toInt ≤ u₂.toInt → r.1.toInt ≤ (x ^^^ y).toInt ∧ (x ^^^ y).toInt ≤ r.2.toInt := by
  have hzero : (0#32).toInt = 0 := rfl
  have hne : ∀ {l u : BitVec 32}, l.toInt ≤ u.toInt → ¬(l = 0#32 ∧ u = 0#32) → 0 ≤ l.toInt → u ≠ 0#32 := by
    rintro l u hle hz hl rfl
    rw [hzero] at hle
    exact hz ⟨BitVec.eq_of_toInt_eq (by rw [hzero]; omega), rfl⟩
  unfold xorBounds
  refine .ite (fun hz₁ => ?_) fun hz₁ => .ite (fun hz₂ => ?_) fun hz₂ =>
    .ite (fun hpos => ?_) fun hpos => ?_
  · refine .pure ⟨hle₂, fun x y hlx hux hly huy => ?_⟩
    rw [hz₁.1, hzero] at hlx
    rw [hz₁.2, hzero] at hux
    obtain rfl : x = 0#32 := BitVec.eq_of_toInt_eq (by rw [hzero]; omega)
    rw [BitVec.zero_xor]
    exact ⟨hly, huy⟩
  · refine .pure ⟨hle₁, fun x y hlx hux hly huy => ?_⟩
    rw [hz₂.1, hzero] at hly
    rw [hz₂.2, hzero] at huy
    obtain rfl : y = 0#32 := BitVec.eq_of_toInt_eq (by rw [hzero]; omega)
    rw [BitVec.xor_zero]
    exact ⟨hlx, hux⟩
  · apply (returns_leadingMask (hne hle₁ hz₁ hpos.1)).bind
    rintro _ ⟨rfl, hlog₁⟩
    apply (returns_leadingMask (hne hle₂ hz₂ hpos.2)).bind
    rintro _ ⟨rfl, hlog₂⟩
    apply (returns_shiftRightUInt32 (by omega)).bind
    rintro _ rfl
    apply (returns_shiftRightUInt32 (by omega)).bind
    rintro _ rfl
    have hbound : ∀ x y : BitVec 32, l₁.toInt ≤ x.toInt → x.toInt ≤ u₁.toInt →
        l₂.toInt ≤ y.toInt → y.toInt ≤ u₂.toInt → 0 ≤ (x ^^^ y).toInt ∧
        (x ^^^ y).toInt ≤ (u₂ ||| UINT32_MAX >>> (31 - u₁.toNat.log2)).toInt ∧
        (x ^^^ y).toInt ≤ (u₁ ||| UINT32_MAX >>> (31 - u₂.toNat.log2)).toInt := by
      intro x y hlx hux hly huy
      refine ⟨?_, toInt_xor_le (by omega) (by omega) hux huy hlog₁, ?_⟩
      · rw [toInt_xor_of_nonneg (by omega) (by omega)]
        exact Int.natCast_nonneg _
      · rw [BitVec.xor_comm]
        exact toInt_xor_le (by omega) (by omega) huy hux hlog₂
    refine .pure ⟨?_, fun x y hlx hux hly huy => ?_⟩
    · have := hbound l₁ l₂ le_rfl hle₁ le_rfl hle₂
      simp only [toInt_int32Min, hzero]
      omega
    · have := hbound x y hlx hux hly huy
      simp only [toInt_int32Min, hzero]
      omega
  · refine .pure ⟨?_, fun x y _ _ _ _ => ?_⟩
    · simp only [toInt_int32MinValue]
      exact INT32_MIN_le _
    · simp only [toInt_int32MinValue, toInt_int32MaxValue]
      exact ⟨INT32_MIN_le _, le_INT32_MAX _⟩

/-- Complementing an operand complements the result. -/
lemma xor_eq_invertIf (p q : Bool) (x y : BitVec 32) : x ^^^ y = invertIf (p != q) (invertIf p x ^^^ invertIf q y) := by
  have hleft : ∀ u v : BitVec 32, ~~~u ^^^ v = ~~~(u ^^^ v) := fun u v => not_xor_left.symm
  have hright : ∀ u v : BitVec 32, u ^^^ ~~~v = ~~~(u ^^^ v) := fun u v => not_xor_right.symm
  unfold invertIf
  cases p <;> cases q <;> simp [hleft, hright]

theorem returns_xor_ (ha : a.AssertInvariants) (hb : b.AssertInvariants) (hia : a.isInt32 = true)
    (hib : b.isInt32 = true) : Returns (xor_ a b) fun r =>
      ∀ x y, a.HasInt32 x → b.HasInt32 y → r.Describes (ofInt (x ^^^ y).toInt) := by
  unfold xor_
  apply (Returns.ensure hia).bind
  intro _ _
  apply (Returns.ensure hib).bind
  intro _ _
  obtain ⟨hle₁, hx₁⟩ := xorOperand_spec ha
  obtain ⟨hle₂, hx₂⟩ := xorOperand_spec hb
  generalize xorOperand a = p at hle₁ hx₁
  generalize xorOperand b = q at hle₂ hx₂
  obtain ⟨l₁, u₁, p⟩ := p
  obtain ⟨l₂, u₂, q⟩ := q
  apply (returns_xorBounds hle₁ hle₂).bind
  rintro ⟨lower, upper⟩ ⟨hle, hxor⟩
  change lower.toInt ≤ upper.toInt at hle
  have hvalue : ∀ x y, a.HasInt32 x → b.HasInt32 y → lower.toInt ≤ (invertIf p x ^^^ invertIf q y).toInt ∧
      (invertIf p x ^^^ invertIf q y).toInt ≤ upper.toInt := by
    intro x y hx hy
    exact hxor _ _ (hx₁ x hx).1 (hx₁ x hx).2 (hx₂ y hy).1 (hx₂ y hy).2
  refine .ite (fun hinv => ?_) fun hinv => ?_
  · apply (returns_NewInt32Range (by rw [toInt_not, toInt_not]; omega)).imp
    rintro r ⟨-, hdesc⟩
    intro x y hx hy
    have := hvalue x y hx hy
    rw [xor_eq_invertIf p q x y, hinv, invertIf, if_pos rfl]
    exact hdesc _ (by rw [toInt_not, toInt_not]; omega) (by rw [toInt_not, toInt_not]; omega)
  · apply (returns_NewInt32Range hle).imp
    rintro r ⟨-, hdesc⟩
    intro x y hx hy
    have := hvalue x y hx hy
    rw [Bool.not_eq_true] at hinv
    rw [xor_eq_invertIf p q x y, hinv, invertIf, if_neg Bool.false_ne_true]
    exact hdesc _ this.1 this.2

/-! ### Shifts -/

lemma shiftCount_lt (c : BitVec 32) : shiftCount c < 32 := by
  unfold shiftCount
  rw [toNat_and]
  exact and_lt_two_pow (n := 5) _ (by decide)

lemma shiftCount_eq (c : BitVec 32) : shiftCount c = c.toNat % 32 := by
  unfold shiftCount
  rw [toNat_and]
  exact and_two_pow_sub_one_eq_mod _ 5

/-- A number that survives the round trip is doubled by each step of the shift. -/
lemma returns_shiftRoundTrip (x : BitVec 32) {n : ℕ} (hn : n < 32) :
    Returns (shiftRoundTrip x n) fun r => r = x → (x.toNat * 2 ^ n) < 2 ^ 31 := by
  unfold shiftRoundTrip
  apply (returns_shiftLeftUInt32 hn).bind
  rintro _ rfl
  apply (returns_shiftLeftUInt32 (by norm_num)).bind
  rintro _ rfl
  apply (returns_shiftRightUInt32 hn).bind
  rintro _ rfl
  apply (returns_shiftRightUInt32 (by norm_num)).imp
  rintro _ rfl heq
  have hnat := congrArg BitVec.toNat heq
  rw [BitVec.toNat_ushiftRight, BitVec.toNat_ushiftRight, BitVec.toNat_shiftLeft,
    BitVec.toNat_shiftLeft, Nat.shiftRight_eq_div_pow, Nat.shiftRight_eq_div_pow,
    Nat.shiftLeft_eq, Nat.shiftLeft_eq, Nat.div_div_eq_div_mul, Nat.mod_mul_mod] at hnat
  have hlt := Nat.mod_lt (x.toNat * 2 ^ n * 2 ^ 1) (Nat.two_pow_pos 32)
  have hle := Nat.div_mul_le_self (x.toNat * 2 ^ n * 2 ^ 1 % 2 ^ 32) (2 ^ n * 2 ^ 1)
  rw [hnat, ← Nat.mul_assoc] at hle
  omega

lemma toInt_shiftLeft {x : BitVec 32} {n : ℕ} (h : x.toNat * 2 ^ n < 2 ^ 31) :
    (x <<< n).toInt = (x.toNat * 2 ^ n : ℕ) := by
  have hcases := toInt_cases (x <<< n)
  rw [BitVec.toNat_shiftLeft, Nat.shiftLeft_eq] at hcases
  omega

theorem returns_lshConstant (ha : a.AssertInvariants) (hia : a.isInt32 = true) (c : BitVec 32) :
    Returns (lshConstant a c) fun r =>
      ∀ x, a.HasInt32 x → r.Describes (ofInt (x <<< shiftCount c).toInt) := by
  have hle := ha.lower_le_upper
  have hlt := shiftCount_lt c
  unfold lshConstant
  apply (Returns.ensure hia).bind
  intro _ _
  apply (returns_shiftRoundTrip a.lower hlt).bind
  intro l hl
  apply (returns_shiftRoundTrip a.upper hlt).bind
  intro u hu
  refine .ite (fun heq => ?_) fun _ => ?_
  · apply (returns_shiftLeftUInt32 hlt).bind
    rintro _ rfl
    apply (returns_shiftLeftUInt32 hlt).bind
    rintro _ rfl
    generalize shiftCount c = n at hl hu hlt ⊢
    have hpos := Nat.two_pow_pos n
    have hmono : ∀ {y z : ℕ}, y ≤ z → y * 2 ^ n ≤ z * 2 ^ n := fun h => Nat.mul_le_mul_right _ h
    have hl := hl heq.1
    have hu := hu heq.2
    -- Neither bound is negative, and the shift multiplies everything between them.
    have hsmall : ∀ {y : BitVec 32}, y.toNat * 2 ^ n < 2 ^ 31 → y.toInt = y.toNat := by
      intro y hy
      have hle := Nat.le_mul_of_pos_right y.toNat hpos
      have := toInt_cases y
      omega
    have hlv := hsmall hl
    have huv := hsmall hu
    apply (returns_NewInt32Range (by
      rw [toInt_shiftLeft hl, toInt_shiftLeft hu]
      exact_mod_cast hmono (by omega))).imp
    rintro r ⟨-, hdesc⟩
    intro x ⟨hx, hx'⟩
    have hxc := toInt_cases x
    have hxu : x.toNat * 2 ^ n < 2 ^ 31 := (hmono (show x.toNat ≤ a.upper.toNat by omega)).trans_lt hu
    apply hdesc
    · rw [toInt_shiftLeft hl, toInt_shiftLeft hxu]
      exact_mod_cast hmono (by omega)
    · rw [toInt_shiftLeft hu, toInt_shiftLeft hxu]
      exact_mod_cast hmono (by omega)
  · exact returns_anyInt32.imp fun r hdesc x _ => hdesc _

/-- An arithmetic shift divides and rounds down. -/
lemma toInt_shiftRight (x : BitVec 32) (n : ℕ) : (x.sshiftRight n).toInt = x.toInt / (2 ^ n : ℕ) := by
  simp [Int.shiftRight_eq_div_pow]

theorem returns_rshConstant (ha : a.AssertInvariants) (hia : a.isInt32 = true) (c : BitVec 32) :
    Returns (rshConstant a c) fun r =>
      ∀ x, a.HasInt32 x → r.Describes (ofInt (x.sshiftRight (shiftCount c)).toInt) := by
  have hmono : ∀ {x y : BitVec 32}, x.toInt ≤ y.toInt →
      (x.sshiftRight (shiftCount c)).toInt ≤ (y.sshiftRight (shiftCount c)).toInt := by
    intro x y h
    rw [toInt_shiftRight, toInt_shiftRight]
    exact Int.ediv_le_ediv (by exact_mod_cast Nat.two_pow_pos _) h
  unfold rshConstant
  apply (Returns.ensure hia).bind
  intro _ _
  apply (returns_shiftRightInt32 (shiftCount_lt c)).bind
  rintro _ rfl
  apply (returns_shiftRightInt32 (shiftCount_lt c)).bind
  rintro _ rfl
  apply (returns_NewInt32Range (hmono ha.lower_le_upper)).imp
  rintro r ⟨-, hdesc⟩
  intro x ⟨hx, hx'⟩
  exact hdesc _ (hmono hx) (hmono hx')

/-- A longer shift takes a number closer to zero, or to -1 if it is negative. -/
lemma toInt_shiftRight_anti (x : BitVec 32) {m n : ℕ} (h : m ≤ n) : (0 ≤ x.toInt → 0 ≤ (x.sshiftRight n).toInt ∧
      (x.sshiftRight n).toInt ≤ (x.sshiftRight m).toInt) ∧
    (x.toInt < 0 → (x.sshiftRight n).toInt < 0 ∧ (x.sshiftRight m).toInt ≤ (x.sshiftRight n).toInt) := by
  obtain ⟨k, rfl⟩ := Nat.exists_eq_add_of_le h
  have hm : (0 : ℤ) < (2 ^ m : ℕ) := by exact_mod_cast Nat.two_pow_pos m
  have hk : (0 : ℤ) < (2 ^ k : ℕ) := by exact_mod_cast Nat.two_pow_pos k
  have hsplit : x.toInt / (2 ^ (m + k) : ℕ) = x.toInt / (2 ^ m : ℕ) / (2 ^ k : ℕ) := by
    rw [pow_add, Nat.cast_mul, Int.ediv_ediv_of_nonneg hm.le]
  rw [toInt_shiftRight, toInt_shiftRight, hsplit]
  constructor
  · intro hx
    have hz := Int.ediv_nonneg hx hm.le
    exact ⟨Int.ediv_nonneg hz hk.le, Int.ediv_le_self _ hz⟩
  · intro hx
    have hz := Int.ediv_neg_of_neg_of_pos hx hm
    refine ⟨Int.ediv_neg_of_neg_of_pos hz hk, ?_⟩
    apply Int.le_ediv_of_mul_le hk
    nlinarith

/-- The canonical bounds hold the shift count of every number between the bounds. -/
lemma shiftBounds_spec (b : Range) : (shiftBounds b).2 ≤ 31 ∧ ∀ y, b.HasInt32 y →
    (shiftBounds b).1 ≤ shiftCount y ∧ shiftCount y ≤ (shiftBounds b).2 := by
  have hlt := shiftCount_lt
  have hall : ∀ y : BitVec 32, (0, 31).1 ≤ shiftCount y ∧ shiftCount y ≤ (0, 31).2 := by
    intro y
    exact ⟨zero_le _, le_of_lt_succ (hlt y)⟩
  unfold shiftBounds
  split
  · exact ⟨le_rfl, fun y _ => hall y⟩
  split
  · exact ⟨le_rfl, fun y _ => hall y⟩
  next hdist hle =>
    refine ⟨le_of_lt_succ (hlt _), ?_⟩
    rintro y ⟨hl, hu⟩
    simp only [shiftCount_eq] at hle ⊢
    have hcl := toInt_cases b.lower
    have hcu := toInt_cases b.upper
    have hcy := toInt_cases y
    omega

theorem returns_rsh (ha : a.AssertInvariants) (hb : b.AssertInvariants) (hia : a.isInt32 = true)
    (hib : b.isInt32 = true) : Returns (rsh a b) fun r => ∀ x y, a.HasInt32 x → b.HasInt32 y →
      r.Describes (ofInt (x.sshiftRight (shiftCount y)).toInt) := by
  have hle := ha.lower_le_upper
  obtain ⟨h31, hcount⟩ := shiftBounds_spec b
  have hbounds := hcount b.lower ⟨le_rfl, hb.lower_le_upper⟩
  unfold rsh
  apply (Returns.ensure hia).bind
  intro _ _
  apply (Returns.ensure hib).bind
  intro _ _
  generalize shiftBounds b = s at h31 hcount hbounds ⊢
  obtain ⟨m, n⟩ := s
  apply (Returns.ensure h31).bind
  intro _ _
  change n ≤ 31 at h31
  apply (returns_shiftRightInt32 (by split <;> omega)).bind
  rintro _ rfl
  apply (returns_shiftRightInt32 (by split <;> omega)).bind
  rintro _ rfl
  have hvalue : ∀ (x : BitVec 32) (k : ℕ), a.HasInt32 x → m ≤ k → k ≤ n →
      (a.lower.sshiftRight (if a.lower.toInt < 0 then m else n)).toInt ≤ (x.sshiftRight k).toInt ∧
      (x.sshiftRight k).toInt ≤ (a.upper.sshiftRight (if 0 ≤ a.upper.toInt then m else n)).toInt := by
    rintro x k ⟨hx, hx'⟩ hmk hkn
    have hmono : ∀ {x y : BitVec 32} (k : ℕ), x.toInt ≤ y.toInt →
        (x.sshiftRight k).toInt ≤ (y.sshiftRight k).toInt := by
      intro x y k h
      rw [toInt_shiftRight, toInt_shiftRight]
      exact Int.ediv_le_ediv (by exact_mod_cast Nat.two_pow_pos _) h
    have hlow := hmono k hx
    have hup := hmono k hx'
    have hm := toInt_shiftRight_anti a.lower hmk
    have hn := toInt_shiftRight_anti a.lower hkn
    have hm' := toInt_shiftRight_anti a.upper hmk
    have hn' := toInt_shiftRight_anti a.upper hkn
    constructor
    · split
      next h => have := hm.2 h; omega
      next h => have := hn.1 (not_lt.mp h); omega
    · split
      next h => have := hm'.1 h; omega
      next h => have := hn'.2 (not_le.mp h); omega
  apply (returns_NewInt32Range (by
    have := hvalue a.lower m ⟨le_rfl, hle⟩ le_rfl (by omega)
    omega)).imp
  rintro r ⟨-, hdesc⟩
  intro x y hx hy
  have := hvalue x (shiftCount y) hx (hcount y hy).1 (hcount y hy).2
  exact hdesc _ this.1 this.2

theorem returns_lsh (hia : a.isInt32 = true) (hib : b.isInt32 = true) :
    Returns (lsh a b) fun r => ∀ x y, a.HasInt32 x → b.HasInt32 y → r.Describes (ofInt (x <<< shiftCount y).toInt) := by
  unfold lsh
  apply (Returns.ensure hia).bind
  intro _ _
  apply (Returns.ensure hib).bind
  intro _ _
  exact returns_anyInt32.imp fun r hdesc x y _ _ => hdesc _

lemma toNat_shiftRight (x : BitVec 32) (n : ℕ) : (x >>> n).toNat = x.toNat / 2 ^ n := by
  simp [shiftRight_eq_div_pow]

theorem returns_urshConstant (ha : a.AssertInvariants) (hia : a.isInt32 = true) (c : BitVec 32) :
    Returns (urshConstant a c) fun r =>
      ∀ x, a.HasInt32 x → r.Describes (ofInt (x >>> shiftCount c).toNat) := by
  have hmono : ∀ {x y : BitVec 32}, x.toNat ≤ y.toNat → (x >>> shiftCount c).toNat ≤ (y >>> shiftCount c).toNat := by
    intro x y h
    rw [toNat_shiftRight, toNat_shiftRight]
    exact Nat.div_le_div_right h
  have hle := ha.lower_le_upper
  unfold urshConstant
  apply (Returns.ensure hia).bind
  intro _ _
  refine .ite (fun hsign => ?_) fun _ => ?_
  · -- Between numbers of the same sign the unsigned order is the signed one.
    have hsame : 0 ≤ a.lower.toInt ∨ a.upper.toInt < 0 := by
      unfold isFiniteNonNegative isFiniteNegative at hsign
      rw [Bool.or_eq_true, Bool.and_eq_true, Bool.and_eq_true, decide_eq_true_eq, decide_eq_true_eq] at hsign
      exact hsign.imp And.left And.left
    have hunsigned : ∀ {x y : BitVec 32}, a.lower.toInt ≤ x.toInt → x.toInt ≤ y.toInt →
        y.toInt ≤ a.upper.toInt → x.toNat ≤ y.toNat := by
      intro x y _ _ _
      have hx := toInt_cases x
      have hy := toInt_cases y
      omega
    apply (returns_shiftRightUInt32 (shiftCount_lt c)).bind
    rintro _ rfl
    apply (returns_shiftRightUInt32 (shiftCount_lt c)).bind
    rintro _ rfl
    apply (returns_NewUInt32Range (hmono (hunsigned le_rfl hle le_rfl))).imp
    rintro r ⟨-, hdesc⟩
    intro x ⟨hx, hx'⟩
    exact hdesc _ (hmono (hunsigned le_rfl hx hx')) (hmono (hunsigned hx hx' le_rfl))
  · apply (returns_shiftRightUInt32 (shiftCount_lt c)).bind
    rintro _ rfl
    apply (returns_NewUInt32Range (Nat.zero_le _)).imp
    rintro r ⟨-, hdesc⟩
    intro x _
    refine hdesc _ (Nat.zero_le _) (hmono ?_)
    have hmax : UINT32_MAX.toNat = 2 ^ 32 - 1 := rfl
    have := x.isLt
    omega

theorem returns_ursh (hia : a.isInt32 = true) (hib : b.isInt32 = true) :
    Returns (ursh a b) fun r => ∀ x y, a.HasInt32 x → b.HasInt32 y →
      r.Describes (ofInt (x >>> shiftCount y).toNat) := by
  unfold ursh
  apply (Returns.ensure hia).bind
  intro _ _
  apply (Returns.ensure hib).bind
  intro _ _
  apply (returns_NewUInt32Range (Nat.zero_le _)).imp
  rintro r ⟨-, hdesc⟩
  intro x y ⟨hx, hx'⟩ _
  have hshift : (x >>> shiftCount y).toNat ≤ x.toNat := by
    rw [toNat_shiftRight]
    exact Nat.div_le_self _ _
  refine hdesc _ (Nat.zero_le _) (hshift.trans ?_)
  split
  next hsign =>
    unfold isFiniteNonNegative at hsign
    rw [Bool.and_eq_true, decide_eq_true_eq] at hsign
    have hcx := toInt_cases x
    have hcu := toInt_cases a.upper
    omega
  next =>
    have hmax : UINT32_MAX.toNat = 2 ^ 32 - 1 := rfl
    omega

end Specifications

/-! ## Soundness -/

/-- A transfer function for a unary operation on int32, which fails no check. -/
def SoundForInt32 (m : Checked Range) (f : BitVec 32 → ℤ) (a : Range) : Prop :=
  Returns m fun r => ∀ x, a.HasInt32 x → r.Describes (ofInt (f x))

/-- A transfer function for a binary operation on int32, which fails no check. -/
def SoundForInt32₂ (m : Checked Range) (f : BitVec 32 → BitVec 32 → ℤ) (a b : Range) : Prop :=
  Returns m fun r => ∀ x y, a.HasInt32 x → b.HasInt32 y → r.Describes (ofInt (f x y))

/-- **Soundness of the bitwise operations.**  No leading zeros are counted of 0, and no shift is by
32 or more. -/
theorem bitwise_sound {a b : Range} (ha : a.AssertInvariants) (hb : b.AssertInvariants)
    (hia : a.isInt32 = true) (hib : b.isInt32 = true) :
    SoundForInt32₂ (and_ a b) (fun x y => (x &&& y).toInt) a b ∧
    SoundForInt32₂ (or_ a b) (fun x y => (x ||| y).toInt) a b ∧
    SoundForInt32₂ (xor_ a b) (fun x y => (x ^^^ y).toInt) a b ∧
    SoundForInt32 (not_ a) (fun x => (~~~x).toInt) a ∧
    (∀ c, SoundForInt32 (lshConstant a c) (fun x => (x <<< shiftCount c).toInt) a ∧
      SoundForInt32 (rshConstant a c) (fun x => (x.sshiftRight (shiftCount c)).toInt) a ∧
      SoundForInt32 (urshConstant a c) (fun x => (x >>> shiftCount c).toNat) a) ∧
    SoundForInt32₂ (lsh a b) (fun x y => (x <<< shiftCount y).toInt) a b ∧
    SoundForInt32₂ (rsh a b) (fun x y => (x.sshiftRight (shiftCount y)).toInt) a b ∧
    SoundForInt32₂ (ursh a b) (fun x y => (x >>> shiftCount y).toNat) a b :=
  ⟨returns_and_ ha hb hia hib, returns_or_ ha hb hia hib, returns_xor_ ha hb hia hib, returns_not_ ha hia,
    fun c => ⟨returns_lshConstant ha hia c, returns_rshConstant ha hia c, returns_urshConstant ha hia c⟩,
    returns_lsh hia hib, returns_rsh ha hb hia hib, returns_ursh hia hib⟩

/-- The range from -3 to 5 and the range of -1 alone. -/
theorem bitwise_sound_mixed : SoundForInt32₂ (or_ ⟨-3#32, 5#32, true, true, false, false, 2⟩
        ⟨-1#32, -1#32, true, true, false, false, 0⟩) (fun x y => (x ||| y).toInt)
      ⟨-3#32, 5#32, true, true, false, false, 2⟩ ⟨-1#32, -1#32, true, true, false, false, 0⟩ :=
  (bitwise_sound (by decide) (by decide) (by decide) (by decide)).2.1

end Range

end SpiderMonkey
