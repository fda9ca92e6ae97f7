import SpiderMonkey.Lib.Binary64
import SpiderMonkey.BigInt.Word

/-!
# Conversion to a double

`BigInt::numberValue` assembles the bits below the leading one at the top of a 64-bit word, out of
one, two or three digits (`shiftedMantissa`), looks at the digits below only to resolve a tie, and
puts the fields together.  What it returns is the correctly rounded pattern of the integer.

The word holds a significand, one extra bit and whatever happened to follow it.  The invariant
that carries the proof is therefore about its top 53 bits alone: with the leading one they are the
quotient of the magnitude by a power of two, and the bits beneath them together with the digits not
yet looked at are the remainder (`shiftedMantissa_spec`).
-/

namespace SpiderMonkey

open Binary64 Radix

namespace BigInt

open Nat

variable {W : DigitWidth} {x : BigInt W}

/-! ## The code -/

def SignificandWidth : ℕ := 52

def ExponentBias : ℕ := 1023

def ExponentShift : ℕ := 52

def SignShift : ℕ := 63

def negate (d : Double) : Double := pack (!Binary64.isNegative d) (d.toNat % 2 ^ 63)

variable (negative : Bool)

def infinity : Double := pack negative (2047 * 2 ^ 52)

/-- The bits of `x` below its leading one, at the top of a word and complete down to the extra bit
after the significand; the position of the digit with that bit; and something that is zero exactly
if the bits beneath it in that digit are. -/
def shiftedMantissa (x : BigInt W) : Except Failure (BitVec 64 × ℕ × Digit W) :=
  let length := x.digitLength
  let msd := x.digit (length - 1)
  let msdIgnoredBits := digitLeadingZeroes msd + 1
  let msdIncludedBits := W.bits - msdIgnoredBits
  let bitsNeededForShiftedMantissa := SignificandWidth + 1
  let shiftedMantissa :=
    if msdIncludedBits = 0 then 0#64 else msd.setWidth 64 <<< (64 - msdIncludedBits)
  if msdIncludedBits ≥ bitsNeededForShiftedMantissa then
    let countOfBitsInDigitBelowExtraBit := W.bits - bitsNeededForShiftedMantissa - msdIgnoredBits
    return (shiftedMantissa, length - 1, msd &&& ((1#_ <<< countOfBitsInDigitBelowExtraBit) - 1#_))
  else if length < 2 then throw .assertion
  else
    let second := x.digit (length - 2)
    if W.bits = 64 then
      let countOfBitsInSecondDigitBelowExtraBit := msdIncludedBits + W.bits - bitsNeededForShiftedMantissa
      return (shiftedMantissa ||| second.setWidth 64 >>> msdIncludedBits, length - 2,
        second <<< (W.bits - countOfBitsInSecondDigitBelowExtraBit))
    else
      let shiftedMantissa := shiftedMantissa ||| second.setWidth 64 <<< msdIgnoredBits
      if msdIncludedBits + W.bits ≥ bitsNeededForShiftedMantissa then
        let countOfBitsInSecondDigitBelowExtraBit := msdIncludedBits + W.bits - bitsNeededForShiftedMantissa
        return (shiftedMantissa, length - 2, second &&& ((1#_ <<< countOfBitsInSecondDigitBelowExtraBit) - 1#_))
      else if length < 3 then throw .assertion
      else
        let third := x.digit (length - 3)
        let countOfBitsInThirdDigitBelowExtraBit := msdIncludedBits + 2 * W.bits - bitsNeededForShiftedMantissa
        return (shiftedMantissa ||| third.setWidth 64 >>> msdIncludedBits, length - 3,
          third <<< (W.bits - countOfBitsInThirdDigitBelowExtraBit))

/-- Whether one of the digits below position `i` is not zero, from the top one down. -/
def hasNonZeroDigitBelow (x : BigInt W) : ℕ → Bool
  | 0 => false
  | i + 1 => if x.digit i ≠ 0#_ then true else hasNonZeroDigitBelow x i

/-- The bit pattern of a sign, an exponent and the significand at the top of a word. -/
def assembleDouble (exponent : ℕ) (shiftedMantissa : BitVec 64) : Double :=
  let significandBits := shiftedMantissa >>> (64 - SignificandWidth)
  let signBit := (if negative then 1#64 else 0#64) <<< SignShift
  let exponentBits := BitVec.ofNat 64 (exponent + ExponentBias) <<< ExponentShift
  signBit ||| exponentBits ||| significandBits

/-- Rounding to nearest, ties to even, with the carries it may cause. -/
def roundMantissa (x : BigInt W) (exponent : ℕ) (shiftedMantissa : BitVec 64)
    (digitContainingExtraBit : ℕ) (bitsBeneathExtraBit : Digit W) : Double :=
  let leastSignificantBit := 1#64 <<< (64 - SignificandWidth)
  let extraBit := leastSignificantBit >>> 1
  let shouldRoundUp := shiftedMantissa &&& extraBit ≠ 0#64 ∧
    (shiftedMantissa &&& leastSignificantBit ≠ 0#64 ∨ bitsBeneathExtraBit ≠ 0#_ ∨
      hasNonZeroDigitBelow x digitContainingExtraBit = true)
  if shouldRoundUp then
    let before := shiftedMantissa
    let shiftedMantissa := shiftedMantissa + extraBit
    if shiftedMantissa < before then
      if exponent + 1 > ExponentBias then infinity x.isNegative
      else assembleDouble x.isNegative (exponent + 1) shiftedMantissa
    else assembleDouble x.isNegative exponent shiftedMantissa
  else assembleDouble x.isNegative exponent shiftedMantissa

def numberValue (x : BigInt W) : Except Failure Double :=
  if x.isZero then return 0#64
  else if x.absFitsInUint64 ∧ x.uint64FromAbsNonZero ≤ 1#64 <<< (SignificandWidth + 1) then
    -- The conversion of a word to a double.
    let magnitude := ofInt x.uint64FromAbsNonZero.toNat
    return if x.isNegative then negate magnitude else magnitude
  else
    let length := x.digitLength
    let msdLeadingZeroes := digitLeadingZeroes (x.digit (length - 1))
    let exponent := length * W.bits - msdLeadingZeroes - 1
    if exponent > ExponentBias then return infinity x.isNegative
    else do
      let (shiftedMantissa, digitContainingExtraBit, bitsBeneathExtraBit) ← shiftedMantissa x
      return roundMantissa x exponent shiftedMantissa digitContainingExtraBit bitsBeneathExtraBit

/-! ## The word of high bits -/

section HighBits

variable {w v : ℕ}

lemma toNat_or_of_dvd {a b : BitVec v} {k : ℕ} (ha : 2 ^ k ∣ a.toNat) (hb : b.toNat < 2 ^ k) :
    (a ||| b).toNat = a.toNat + b.toNat := by
  obtain ⟨m, hm⟩ := ha
  simp [hm, two_pow_add_eq_or_of_lt hb]

/-- A digit moved up so that its low `included` bits come first. -/
lemma toNat_setWidth_shiftLeft (hw : w ≤ 64) (d : BitVec w) {included : ℕ} (hi : included ≤ 64) :
    (d.setWidth 64 <<< (64 - included)).toNat = 2 ^ (64 - included) * (d.toNat % 2 ^ included) := by
  have hpow : 2 ^ 64 = 2 ^ included * 2 ^ (64 - included) := by rw [← pow_add]; congr 1; omega
  rw [BitVec.toNat_shiftLeft, BitVec.toNat_setWidth_of_le hw, shiftLeft_eq, hpow, mul_mod_mul_right, Nat.mul_comm]

lemma toNat_included (hw : w ≤ 64) (d : BitVec w) {included : ℕ} (hi : included ≤ 64) :
    (if included = 0 then 0#64 else d.setWidth 64 <<< (64 - included)).toNat =
      2 ^ (64 - included) * (d.toNat % 2 ^ included) := by
  split
  next h => simp [h, mod_one]
  next => exact toNat_setWidth_shiftLeft hw d hi

lemma toNat_setWidth_shiftRight (hw : w ≤ 64) (d : BitVec w) (k : ℕ) :
    (d.setWidth 64 >>> k).toNat = d.toNat / 2 ^ k := by
  simp [BitVec.toNat_setWidth_of_le hw, shiftRight_eq_div_pow]

lemma shiftLeft_ne_zero_iff {k : ℕ} (hk : k ≤ w) (d : BitVec w) : d <<< (w - k) ≠ 0#w ↔ d.toNat % 2 ^ k ≠ 0 := by
  have hpow : 2 ^ w = 2 ^ k * 2 ^ (w - k) := by rw [← pow_add]; congr 1; omega
  have hnat : (d <<< (w - k)).toNat = d.toNat % 2 ^ k * 2 ^ (w - k) := by
    rw [BitVec.toNat_shiftLeft, shiftLeft_eq]
    conv_lhs => rw [hpow]
    rw [mul_mod_mul_right]
  rw [Ne, ← BitVec.toNat_inj, hnat, BitVec.toNat_ofNat, zero_mod, Nat.mul_eq_zero]
  simp

lemma and_mask_ne_zero_iff {k : ℕ} (hw : 1 < w) (hk : k < w) (d : BitVec w) :
    d &&& ((1#w <<< k) - 1#w) ≠ 0#w ↔ d.toNat % 2 ^ k ≠ 0 := by
  simp [← BitVec.toNat_inj, toNat_and_mask hw hk]

end HighBits

lemma mag_div_pow (x : BigInt W) (i : ℕ) :
    x.mag / 2 ^ (W.bits * i) = (x.digit i).toNat + 2 ^ W.bits * (x.mag / 2 ^ (W.bits * (i + 1))) := by
  rw [digit_toNat, ← pow_mul, Nat.mul_add, Nat.mul_one, pow_add, ← Nat.div_div_eq_div_mul, mod_add_div]

lemma mag_div_msd {n : ℕ} (h : x.digitLength = n + 1) : x.mag / 2 ^ (W.bits * n) = (x.digit n).toNat := by
  have hlt := x.mag_lt
  rw [h, ← pow_mul] at hlt
  rw [mag_div_pow, div_eq_of_lt hlt, Nat.mul_zero, Nat.add_zero]

/-- The word is complete down to the extra bit: with the leading bit its top 53 bits are a quotient
of the magnitude, and the bits beneath show whether the remainder has bits in the same digit. -/
def IsHighPart (x : BigInt W) (exponent : ℕ) (out : BitVec 64 × ℕ × Digit W) : Prop :=
  ∃ c, 53 + (W.bits * out.2.1 + c) = exponent ∧ 2 ^ 53 + out.1.toNat / 2 ^ 11 = x.mag / 2 ^ (W.bits * out.2.1 + c) ∧
    (out.2.2 ≠ 0#_ ↔ x.mag / 2 ^ (W.bits * out.2.1) % 2 ^ c ≠ 0)

lemma isHighPart_of {exponent j c high g : ℕ} {word : BitVec 64} {beneath : Digit W}
    (hexp : 53 + (W.bits * j + c) = exponent) (hhigh : x.mag / 2 ^ (W.bits * j) = high)
    (hg : high = 2 ^ (53 + c) + g) (hword : word.toNat / 2 ^ 11 = g / 2 ^ c)
    (hbeneath : beneath ≠ 0#_ ↔ high % 2 ^ c ≠ 0) :
    IsHighPart x exponent (word, j, beneath) := by
  refine ⟨c, hexp, ?_, by rw [hhigh]; exact hbeneath⟩
  simp only
  rw [hword, pow_add 2 (W.bits * j), ← Nat.div_div_eq_div_mul, hhigh, hg, pow_add, Nat.mul_comm,
    mul_add_div (by positivity)]

lemma shiftedMantissa_spec (hx : x.WellFormed) (h : x.digits ≠ []) (he : 53 < x.bitLength) :
    ∃ out, shiftedMantissa x = .ok out ∧ IsHighPart x (x.bitLength - 1) out := by
  obtain ⟨hlow, hhigh⟩ := digitLeadingZeroes_spec (hx.msd_ne_zero h)
  have hlz := digitLeadingZeroes_lt (hx.msd_ne_zero h)
  obtain ⟨n, hn⟩ : ∃ n, x.digitLength = n + 1 :=
    ⟨x.digitLength - 1, by have := List.length_pos_iff.mpr h; unfold digitLength; omega⟩
  have hmsd := mag_div_msd hn
  unfold bitLength at he ⊢
  unfold shiftedMantissa
  rw [hn] at hlow hhigh hlz he ⊢
  simp only [Nat.add_sub_cancel] at *
  have hw : W.bits ≤ 64 := by rcases W.bits_eq with h | h <;> omega
  set included := W.bits - (digitLeadingZeroes (x.digit n) + 1) with hincluded
  set msd := x.digit n
  have hbits : W.bits - digitLeadingZeroes msd = included + 1 := by omega
  rw [hbits] at hlow hhigh he ⊢
  have hleading : msd.toNat = 2 ^ included + msd.toNat % 2 ^ included := by
    rw [Nat.add_sub_cancel] at hlow
    rw [pow_succ] at hhigh
    rw [mod_eq_sub_mod hlow, mod_eq_of_lt (by omega)]
    omega
  have hword := toNat_included hw msd (show included ≤ 64 by omega)
  set word := (if included = 0 then 0#64 else msd.setWidth 64 <<< (64 - included))
  set f := msd.toNat % 2 ^ included with hf
  have hsw : SignificandWidth = 52 := rfl
  rw [Nat.mul_comm n] at he ⊢
  have hpow : ∀ a b c : ℕ, a + b = c → 2 ^ c = 2 ^ a * 2 ^ b := fun a b c habc => by
    rw [← habc, pow_add]
  by_cases hA : included ≥ SignificandWidth + 1
  · rw [if_pos hA]
    refine ⟨_, rfl, isHighPart_of (c := included - 53) (by omega) hmsd (g := f) ?_ ?_ ?_⟩
    · rw [hleading, show 53 + (included - 53) = included by omega]
    · rw [hword, hpow (64 - included) (included - 53) 11 (by omega), Nat.mul_div_mul_left _ _ (by positivity)]
    · rw [show W.bits - (SignificandWidth + 1) - (digitLeadingZeroes msd + 1) = included - 53 by omega]
      exact and_mask_ne_zero_iff W.one_lt_bits (by omega) msd
  rw [if_neg hA]
  obtain ⟨m, rfl⟩ : ∃ m, n = m + 1 := ⟨n - 1, by
    rcases Nat.eq_zero_or_pos n with h0 | h0
    · rw [h0, Nat.mul_zero] at he
      omega
    · omega⟩
  have hsecond := mag_div_pow x m
  rw [hmsd] at hsecond
  rw [if_neg (by omega), show m + 1 + 1 - 2 = m by omega]
  set second := x.digit m
  have hdvd : 2 ^ (64 - included) ∣ word.toNat := by
    simp [hword]
  rw [Nat.mul_add, Nat.mul_one] at he ⊢
  by_cases hB : W.bits = 64
  · rw [if_pos hB]
    refine ⟨_, rfl, isHighPart_of (c := included + 11) (by omega) hsecond
      (g := second.toNat + 2 ^ W.bits * f) ?_ ?_ ?_⟩
    · rw [hleading, Nat.mul_add, ← hpow W.bits included (53 + (included + 11)) (by omega)]
      omega
    · have hlt : (second.setWidth 64 >>> included).toNat < 2 ^ (64 - included) := by
        rw [toNat_setWidth_shiftRight hw, Nat.div_lt_iff_lt_mul (by positivity),
          ← hpow (64 - included) included W.bits (by omega)]
        exact second.isLt
      rw [toNat_or_of_dvd hdvd hlt, toNat_setWidth_shiftRight hw, hword,
        hpow included 11 (included + 11) rfl, ← Nat.div_div_eq_div_mul,
        hpow included (64 - included) W.bits (by omega), Nat.mul_assoc,
        add_mul_div_left _ _ (by positivity), Nat.add_comm]
    · rw [show included + W.bits - (SignificandWidth + 1) = included + 11 by omega, shiftLeft_ne_zero_iff (by omega),
        hpow (included + 11) (W.bits - (included + 11)) W.bits (by omega), Nat.mul_assoc,
        add_mul_mod_self_left]
  · rw [if_neg hB]
    have hbits32 : W.bits = 32 := W.bits_eq.resolve_right hB
    have hignored : digitLeadingZeroes msd + 1 = 32 - included := by omega
    have hlt : second.toNat < 2 ^ 32 := by
      rw [← hbits32]
      exact second.isLt
    have hsecondword : (second.setWidth 64 <<< (digitLeadingZeroes msd + 1)).toNat =
        second.toNat * 2 ^ (32 - included) := by
      rw [hignored, BitVec.toNat_shiftLeft, BitVec.toNat_setWidth_of_le hw, shiftLeft_eq, mod_eq_of_lt]
      calc second.toNat * 2 ^ (32 - included) < 2 ^ 32 * 2 ^ (32 - included) :=
            Nat.mul_lt_mul_of_pos_right hlt (by positivity)
        _ ≤ 2 ^ 64 := by
            rw [← pow_add]
            exact Nat.pow_le_pow_right (by norm_num) (by omega)
    have hsecondlt : (second.setWidth 64 <<< (digitLeadingZeroes msd + 1)).toNat < 2 ^ (64 - included) := by
      rw [hsecondword, hpow 32 (32 - included) (64 - included) (by omega)]
      exact Nat.mul_lt_mul_of_pos_right hlt (by positivity)
    -- The word with two digits in it.
    have hword₂ : (word ||| second.setWidth 64 <<< (digitLeadingZeroes msd + 1)).toNat =
        2 ^ (32 - included) * (second.toNat + 2 ^ W.bits * f) := by
      rw [toNat_or_of_dvd hdvd hsecondlt, hword, hsecondword, hpow W.bits (32 - included) (64 - included) (by omega)]
      ring
    set word₂ := word ||| second.setWidth 64 <<< (digitLeadingZeroes msd + 1)
    by_cases hC : included + W.bits ≥ SignificandWidth + 1
    · rw [if_pos hC]
      refine ⟨_, rfl, isHighPart_of (c := included - 21) (by omega) hsecond
        (g := second.toNat + 2 ^ W.bits * f) ?_ ?_ ?_⟩
      · rw [hleading, Nat.mul_add, ← hpow W.bits included (53 + (included - 21)) (by omega)]
        omega
      · rw [hword₂, hpow (32 - included) (included - 21) 11 (by omega), Nat.mul_div_mul_left _ _ (by positivity)]
      · rw [show included + W.bits - (SignificandWidth + 1) = included - 21 by omega,
          and_mask_ne_zero_iff W.one_lt_bits (by omega),
          hpow (included - 21) (W.bits - (included - 21)) W.bits (by omega), Nat.mul_assoc,
          add_mul_mod_self_left]
    rw [if_neg hC]
    obtain ⟨k, rfl⟩ : ∃ k, m = k + 1 := ⟨m - 1, by
      rcases Nat.eq_zero_or_pos m with h0 | h0
      · rw [h0, Nat.mul_zero] at he
        omega
      · omega⟩
    have hthird := mag_div_pow x k
    rw [hsecond] at hthird
    rw [if_neg (by omega), show k + 1 + 1 + 1 - 3 = k by omega]
    set third := x.digit k
    rw [Nat.mul_add, Nat.mul_one] at he ⊢
    refine ⟨_, rfl, isHighPart_of (c := included + 11) (by omega) hthird
      (g := third.toNat + 2 ^ W.bits * (second.toNat + 2 ^ W.bits * f)) ?_ ?_ ?_⟩
    · have hexp := hpow (W.bits + W.bits) included (53 + (included + 11)) (by omega)
      rw [hleading, hexp, pow_add 2 W.bits W.bits]
      ring
    · have hdvd₂ : 2 ^ (32 - included) ∣ word₂.toNat := by
        simp [hword₂]
      have hthirdlt : (third.setWidth 64 >>> included).toNat < 2 ^ (32 - included) := by
        rw [toNat_setWidth_shiftRight hw, Nat.div_lt_iff_lt_mul (by positivity),
          ← hpow (32 - included) included W.bits (by omega)]
        exact third.isLt
      rw [toNat_or_of_dvd hdvd₂ hthirdlt, toNat_setWidth_shiftRight hw, hword₂,
        hpow included 11 (included + 11) rfl, ← Nat.div_div_eq_div_mul]
      congr 1
      conv_rhs => rw [hpow included (32 - included) W.bits (by omega), Nat.mul_assoc,
        add_mul_div_left _ _ (by positivity)]
      rw [Nat.add_comm, ← hpow included (32 - included) W.bits (by omega)]
    · rw [show included + 2 * W.bits - (SignificandWidth + 1) = included + 11 by omega,
        shiftLeft_ne_zero_iff (by omega),
        hpow (included + 11) (W.bits - (included + 11)) W.bits (by omega), Nat.mul_assoc,
        add_mul_mod_self_left]

/-! ## Rounding -/

lemma WellFormed.log2_mag (hx : x.WellFormed) (h : x.digits ≠ []) : x.mag.log2 = x.bitLength - 1 := by
  obtain ⟨hpos, hlow, hhigh⟩ := hx.bitLength_spec h
  rw [log2_eq_iff (hx.mag_pos h).ne', Nat.sub_add_cancel hpos]
  omega

/-- The scan finds out whether the magnitude has bits below the digit. -/
lemma hasNonZeroDigitBelow_iff (x : BigInt W) (i : ℕ) :
    hasNonZeroDigitBelow x i = true ↔ x.mag % 2 ^ (W.bits * i) ≠ 0 := by
  induction i with
  | zero => simp [hasNonZeroDigitBelow, mod_one]
  | succ i ih =>
    have hmod : x.mag % 2 ^ (W.bits * (i + 1)) = x.mag % 2 ^ (W.bits * i) + 2 ^ (W.bits * i) * (x.digit i).toNat := by
      rw [digit_toNat, pow_mul, pow_mul, mod_pow_succ]
    have hpos : 0 < 2 ^ (W.bits * i) := by positivity
    unfold hasNonZeroDigitBelow
    by_cases h0 : x.digit i = 0#_
    · rw [if_neg (not_not.mpr h0), ih, hmod, h0]
      simp
    · have hne : (x.digit i).toNat ≠ 0 := fun h => h0 (BitVec.eq_of_toNat_eq (by simpa using h))
      have := Nat.mul_pos hpos (Nat.pos_of_ne_zero hne)
      rw [if_pos h0, hmod]
      simp only [true_iff]
      omega

lemma assembleDouble_eq {exponent : ℕ} (he : exponent ≤ 1023) (word : BitVec 64) :
    assembleDouble negative exponent word = pack negative ((exponent + 1023) * 2 ^ 52 + word.toNat / 2 ^ 12) := by
  have hsignificand : (word >>> (64 - SignificandWidth)).toNat = word.toNat / 2 ^ 12 := by
    rw [BitVec.toNat_ushiftRight, shiftRight_eq_div_pow]
    rfl
  have hexp : (BitVec.ofNat 64 (exponent + ExponentBias) <<< ExponentShift).toNat = 2 ^ 52 * (exponent + 1023) := by
    rw [BitVec.toNat_shiftLeft, BitVec.toNat_ofNat, shiftLeft_eq]
    simp only [ExponentBias, ExponentShift]
    omega
  have hsign : ((if negative then 1#64 else 0#64) <<< SignShift).toNat =
      2 ^ 63 * (if negative then 1 else 0) := by cases negative <;> rfl
  have hfields : (((if negative then 1#64 else 0#64) <<< SignShift) |||
      (BitVec.ofNat 64 (exponent + ExponentBias) <<< ExponentShift)).toNat =
      2 ^ 63 * (if negative then 1 else 0) + 2 ^ 52 * (exponent + 1023) := by
    rw [toNat_or_of_dvd (k := 63) (by rw [hsign]; exact Nat.dvd_mul_right _ _)
      (by rw [hexp]; omega), hsign, hexp]
  apply BitVec.eq_of_toNat_eq
  unfold assembleDouble
  simp only
  rw [toNat_or_of_dvd (k := 52) (by rw [hfields]; split <;> omega) (by rw [hsignificand]; omega),
    hfields, hsignificand, toNat_pack (by omega)]
  split <;> omega

lemma truncated_significand (exponent n : ℕ) : (exponent + 1022) * 2 ^ 52 + (2 ^ 53 + n / 2 ^ 11) / 2 =
      (exponent + 1023) * 2 ^ 52 + n / 2 ^ 12 := by
  omega

lemma incremented_significand {exponent n : ℕ} (hodd : (2 ^ 53 + n / 2 ^ 11) % 2 = 1) (hlt : n < 2 ^ 64) :
    (exponent + 1022) * 2 ^ 52 + ((2 ^ 53 + n / 2 ^ 11) / 2 + 1) =
      if n + 2 ^ 11 < 2 ^ 64 then (exponent + 1023) * 2 ^ 52 + (n + 2 ^ 11) / 2 ^ 12
      else (exponent + 1 + 1023) * 2 ^ 52 + (n + 2 ^ 11 - 2 ^ 64) / 2 ^ 12 := by
  split <;> omega

/-- The three bits that decide agree with division to the nearest quotient. -/
lemma roundMantissa_eq {exponent : ℕ} (hlog : x.mag.log2 = exponent)
    (hmin : 53 ≤ exponent) (hmax : exponent ≤ 1023) {out : BitVec 64 × ℕ × Digit W}
    (hout : IsHighPart x exponent out) :
    roundMantissa x exponent out.1 out.2.1 out.2.2 = pack x.isNegative (magnitudeBits x.mag) := by
  obtain ⟨word, j, beneath⟩ := out
  obtain ⟨c, hexp, hquot, hbeneath⟩ := hout
  simp only at hexp hquot hbeneath ⊢
  -- The quotient and the remainder that the word and the digits below it represent.
  set d := 2 ^ (W.bits * j + c) with hd
  have hsticky : x.mag % d ≠ 0 ↔ beneath ≠ 0#_ ∨ hasNonZeroDigitBelow x j = true := by
    rw [hbeneath, hasNonZeroDigitBelow_iff, hd, pow_add, mod_mul]
    have hpos : 0 < 2 ^ (W.bits * j) := by positivity
    rw [Ne, Nat.add_eq_zero_iff, Nat.mul_eq_zero, or_iff_right hpos.ne', not_and_or, or_comm]
  have hround : roundedSignificand x.mag =
      if x.mag / d % 2 = 1 ∧ (x.mag / d / 2 % 2 = 1 ∨ x.mag % d ≠ 0) then x.mag / d / 2 + 1
      else x.mag / d / 2 := by
    rw [roundedSignificand, hlog, if_neg (by omega), show exponent - 52 = W.bits * j + c + 1 by omega, pow_succ', ← hd]
    exact roundDiv_two_mul _ (by positivity)
  have hextra : (1#64 <<< (64 - SignificandWidth)) >>> 1 = 1#64 <<< 11 := by decide
  have hleast : 1#64 <<< (64 - SignificandWidth) = 1#64 <<< 12 := rfl
  have hbit : ∀ k < 64, word &&& 1#64 <<< k ≠ 0#64 ↔ word.toNat / 2 ^ k % 2 = 1 := by
    intro k hk
    simp [and_one_shiftLeft_ne_zero (by norm_num) hk, testBit_eq_decide_div_mod_eq]
  have hbits : magnitudeBits x.mag = (exponent + 1022) * 2 ^ 52 + roundedSignificand x.mag := by
    have hne : x.mag ≠ 0 := by
      rintro h0
      rw [h0] at hlog
      simp at hlog
      omega
    rw [magnitudeBits, hlog, if_neg hne, if_neg (by omega)]
  have hup : (word &&& (1#64 <<< (64 - SignificandWidth)) >>> 1 ≠ 0#64 ∧
      (word &&& 1#64 <<< (64 - SignificandWidth) ≠ 0#64 ∨ beneath ≠ 0#_ ∨ hasNonZeroDigitBelow x j = true)) ↔
      x.mag / d % 2 = 1 ∧ (x.mag / d / 2 % 2 = 1 ∨ x.mag % d ≠ 0) := by
    rw [hextra, hleast, hbit 11 (by norm_num), hbit 12 (by norm_num), ← hsticky, ← hquot]
    generalize x.mag % d = r
    omega
  have hlt := word.isLt
  have hincr : (1#64 <<< (64 - SignificandWidth) >>> 1).toNat = 2 ^ 11 := by rw [hextra]; rfl
  unfold roundMantissa
  simp only
  rw [hbits, hround]
  by_cases hcond : x.mag / d % 2 = 1 ∧ (x.mag / d / 2 % 2 = 1 ∨ x.mag % d ≠ 0)
  · have hless : word + 1#64 <<< (64 - SignificandWidth) >>> 1 < word ↔
        (word.toNat + 2 ^ 11) % 2 ^ 64 < word.toNat := by
      simp [BitVec.lt_def, hincr]
    rw [if_pos (hup.mpr hcond), if_pos hcond]
    rw [← hquot] at hcond ⊢
    rw [incremented_significand hcond.1 hlt]
    by_cases hcarry : word.toNat + 2 ^ 11 < 2 ^ 64
    · rw [mod_eq_of_lt hcarry] at hless
      rw [if_neg (hless.not.mpr (by omega)), if_pos hcarry, assembleDouble_eq _ hmax,
        BitVec.toNat_add, hincr, mod_eq_of_lt hcarry]
    · -- The significand overflows, and what is left of it is zero.
      have hmod : (word.toNat + 2 ^ 11) % 2 ^ 64 = word.toNat + 2 ^ 11 - 2 ^ 64 := by omega
      have hzero : (word.toNat + 2 ^ 11 - 2 ^ 64) / 2 ^ 12 = 0 := by omega
      rw [hmod] at hless
      rw [if_pos (hless.mpr (by omega)), if_neg hcarry, hzero]
      by_cases hinf : exponent + 1 > ExponentBias
      · have hexponent : exponent + 1 + 1023 = 2047 := by
          unfold ExponentBias at hinf
          omega
        rw [if_pos hinf, hexponent]
        rfl
      · have hexponent : exponent + 1 ≤ 1023 := by
          unfold ExponentBias at hinf
          omega
        rw [if_neg hinf, assembleDouble_eq _ hexponent, BitVec.toNat_add, hincr, hmod, hzero]
  · rw [if_neg (hup.not.mpr hcond), if_neg hcond, assembleDouble_eq _ hmax, ← hquot, truncated_significand]

/-! ## The result -/

lemma negate_pack {magnitude : ℕ} (h : magnitude < 2 ^ 63) :
    negate (pack negative magnitude) = pack (!negative) magnitude := by
  rw [negate, isNegative_pack h, toNat_pack h]
  refine congrArg (pack (!negative)) ?_
  split <;> omega

lemma WellFormed.ofInt_toInt (hx : x.WellFormed) : ofInt x.toInt = pack x.isNegative (magnitudeBits x.mag) := by
  have hneg := hx.toInt_neg_iff
  rw [ofInt, natAbs_toInt]
  cases hs : x.isNegative with
  | false => rw [decide_eq_false (by rw [hneg, hs]; decide)]
  | true => rw [decide_eq_true (hneg.mpr hs)]

lemma WellFormed.numberValue_eq (hx : x.WellFormed) : numberValue x = .ok (ofInt x.toInt) := by
  unfold numberValue
  by_cases h : x.digits = []
  · rw [if_pos (isZero_iff.mpr h), hx.toInt_eq_zero_iff.mpr h]
    rfl
  have hmag := hx.mag_pos h
  obtain ⟨hbits, hlow, hhigh⟩ := hx.bitLength_spec h
  rw [if_neg (by rw [isZero_iff]; exact h), hx.ofInt_toInt]
  by_cases hfast : x.absFitsInUint64 ∧ x.uint64FromAbsNonZero ≤ 1#64 <<< (SignificandWidth + 1)
  · rw [if_pos hfast]
    have hword : x.uint64FromAbsNonZero.toNat = x.mag := by
      rw [toNat_uint64FromAbsNonZero, mod_eq_of_lt (mag_lt_of_absFitsInUint64 hfast.1)]
    rw [hword]
    have hpack : ofInt (x.mag : ℤ) = pack false (magnitudeBits x.mag) := by
      simp [ofInt, decide_eq_false (Int.not_lt.mpr (Int.natCast_nonneg _))]
    rw [hpack]
    cases x.isNegative with
    | false => rfl
    | true => exact congrArg Except.ok (negate_pack false (magnitudeBits_lt _))
  · -- The fast path is what makes more than 53 bits available.
    have hlarge : 2 ^ 53 < x.mag := by
      by_cases hfits : x.absFitsInUint64 = true
      · have hle : ¬x.uint64FromAbsNonZero ≤ 1#64 <<< (SignificandWidth + 1) :=
          fun h => hfast ⟨hfits, h⟩
        rw [BitVec.le_def, toNat_uint64FromAbsNonZero, mod_eq_of_lt (mag_lt_of_absFitsInUint64 hfits)] at hle
        exact Nat.lt_of_not_le hle
      · exact lt_of_lt_of_le (by norm_num) (hx.le_mag_of_not_absFitsInUint64 hfits)
    have hexp : 53 < x.bitLength := by
      by_contra hle
      have : 2 ^ x.bitLength ≤ 2 ^ 53 := Nat.pow_le_pow_right (by norm_num) (by omega)
      omega
    have hlog := hx.log2_mag h
    rw [if_neg hfast]
    simp only [hx.bitLength_eq h]
    by_cases hinf : x.bitLength - 1 > ExponentBias
    · have hinf' : x.bitLength - 1 > 1023 := hinf
      rw [if_pos hinf, magnitudeBits, if_neg hmag.ne', hlog, if_pos hinf']
      rfl
    · rw [if_neg hinf]
      obtain ⟨out, hrun, hout⟩ := shiftedMantissa_spec hx h hexp
      rw [hrun]
      unfold ExponentBias at hinf
      exact congrArg Except.ok
        (roundMantissa_eq hlog (by omega) (by omega) hout)

/-- **`numberValue` rounds to nearest, ties to even.**  The double has the sign of `x` and is
infinite exactly if `x` rounded to 53 bits is `2 ^ 1024` or more in magnitude.  Otherwise no finite
double is closer to `x`, and if another one is as close then the significand is even. -/
theorem numberValue_nearestEven (hx : x.WellFormed) :
    ∃ d, numberValue x = .ok d ∧ Binary64.isNegative d = x.isNegative ∧
      (2 ^ 1024 ≤ rounded x.mag → exponentField d = 2047 ∧ significandField d = 0) ∧
      (rounded x.mag < 2 ^ 1024 → IsFinite d ∧ scaled d = rounded x.mag * 2 ^ 1074 ∧
        ∀ d', IsFinite d' → |(x.toInt : ℚ) - toRat d| ≤ |(x.toInt : ℚ) - toRat d'| ∧
          (|(x.toInt : ℚ) - toRat d| = |(x.toInt : ℚ) - toRat d'| → toRat d' ≠ toRat d →
            significandField d % 2 = 0)) := by
  have hmag := natAbs_toInt x
  refine ⟨_, hx.numberValue_eq, ?_, fun hlarge => ?_, fun hsmall => ?_⟩
  · rw [isNegative_ofInt, Bool.eq_iff_iff, decide_eq_true_iff, hx.toInt_neg_iff]
  · rw [← hmag] at hlarge
    exact ofInt_overflow hlarge
  · rw [← hmag] at hsmall ⊢
    obtain ⟨hfinite, hscaled⟩ := ofInt_finite hsmall
    exact ⟨hfinite, hscaled, fun d' _ => ofInt_nearest hsmall⟩

theorem numberValue_nearestEven_tie : (⟨true, [0x800#64, 1#64]⟩ : BigInt .bits64).WellFormed ∧
    ∃ d, numberValue (⟨true, [0x800#64, 1#64]⟩ : BigInt .bits64) = .ok d ∧ Binary64.isNegative d = true :=
  ⟨by decide,
    let ⟨d, hrun, hsign, _⟩ := numberValue_nearestEven (W := .bits64)
      (x := ⟨true, [0x800#64, 1#64]⟩) (by decide)
    ⟨d, hrun, hsign⟩⟩

end BigInt

end SpiderMonkey
