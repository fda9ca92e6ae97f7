import SpiderMonkey.BigInt.Increment
import Mathlib.Algebra.Order.Floor.Ring
import Mathlib.Data.Rat.Floor

/-!
# Left and right shifts

`BigInt::lsh` and `BigInt::rsh` choose between a shift to the left and a shift to the right by
the absolute value of `y`.  A left shift multiplies, a right shift rounds toward minus infinity:
`rshByAbsolute` finds out beforehand whether a bit of a negative number is shifted out
(`mustRoundDown`) and, if so, adds one to the magnitude.

When the shift is a multiple of the digit width, the top digit is at its maximum and rounding is
needed, `rshByAbsolute` allocates one more digit for the rounding to carry into, but it never
writes that digit before `absoluteAddOne` reads it.  `RoundsIntoUnsetDigit` is this case; in
every other case the shifts are exact (`shift_correct_iff`).
-/

namespace SpiderMonkey

open Radix List

namespace BigInt

open Nat

variable {W : DigitWidth} {T : Prop} {x y : BigInt W}

/-- Whether shifting left by less than a digit needs a new digit (`grow`). -/
def grows (x : BigInt W) (bitsShift : ℕ) : Bool :=
  bitsShift != 0 && x.digit (x.digitLength - 1) >>> (W.bits - bitsShift) != 0#_

/-- The digits `lshByAbsolute` writes. -/
def lshDigits (x : BigInt W) (digitShift bitsShift : ℕ) : List (Digit W) :=
  let (digits, carry) := shiftDigitsLeft bitsShift x.digits
  List.replicate digitShift 0#_ ++ (digits ++ if x.grows bitsShift then [carry] else [])

def lshByAbsolute (x y : BigInt W) : Run W (BigInt W) :=
  if x.isZero || y.isZero then return x
  else if y.digitLength > 1 || (y.digit 0).toNat > MaxBitLength then throw .bigIntTooLarge
  else do
    let shift := (y.digit 0).toNat
    let digitShift := shift / W.bits
    let bitsShift := shift % W.bits
    let resultLength := x.digitLength + digitShift + (x.grows bitsShift).toNat
    let result ← createUninitialized resultLength x.isNegative
    let result ← result.setDigits 0 (x.lshDigits digitShift bitsShift)
    result.publish

def rshByMaximum (isNegative : Bool) : Run W (BigInt W) := if isNegative then negativeOne else zero

/-- Whether a negative number has a bit among those shifted out. -/
def mustRoundDown (x : BigInt W) (digitShift bitsShift : ℕ) : Bool :=
  let mask := (1#W.bits <<< bitsShift) - 1#_
  x.isNegative &&
    (x.digit digitShift &&& mask != 0#_ || (x.digits.take digitShift).any (· != 0#_))

def rshByAbsolute (x y : BigInt W) : Run W (BigInt W) :=
  if x.isZero || y.isZero then return x
  else if y.digitLength > 1 || (y.digit 0).toNat ≥ MaxBitLength then rshByMaximum x.isNegative
  else
    let shift := (y.digit 0).toNat
    let length := x.digitLength
    let digitShift := shift / W.bits
    let bitsShift := shift % W.bits
    if length ≤ digitShift then rshByMaximum x.isNegative
    else do
      let mustRoundDown := mustRoundDown x digitShift bitsShift
      -- If `bitsShift` is nonzero, it frees up bits, preventing overflow.
      let roundingCanOverflow := mustRoundDown && bitsShift == 0 && x.digit (length - 1) == BitVec.allOnes W.bits
      let resultLength := length - digitShift + roundingCanOverflow.toNat
      let result ← createUninitialized resultLength x.isNegative
      let result ← result.setDigits 0 (shiftDigitsRight bitsShift (x.digits.drop digitShift))
      let result ← result.publish
      if mustRoundDown then absoluteAddOne result x.isNegative
      else destructivelyTrimHighZeroDigits result

def lsh (x y : BigInt W) : Run W (BigInt W) :=
  if y.isNegative then rshByAbsolute x y else lshByAbsolute x y

def rsh (x y : BigInt W) : Run W (BigInt W) :=
  if y.isNegative then lshByAbsolute x y else rshByAbsolute x y

/-! ## The shift amount -/

lemma maxBitLength_lt (W : DigitWidth) : MaxBitLength < 2 ^ W.bits := by cases W <;> decide

/-- A shift amount of more than one digit is beyond any BigInt's length. -/
lemma WellFormed.maxBitLength_lt_mag (hy : y.WellFormed) (h : 1 < y.digitLength) : MaxBitLength < y.mag := by
  have hne : y.digits ≠ [] := fun hnil => by simp [digitLength, hnil] at h
  calc MaxBitLength < 2 ^ W.bits := maxBitLength_lt W
    _ = (2 ^ W.bits) ^ 1 := (pow_one _).symm
    _ ≤ (2 ^ W.bits) ^ (y.digitLength - 1) :=
        Nat.pow_le_pow_right (by positivity) (by omega)
    _ ≤ y.mag := hy.noHighZero.le_val hne

lemma mag_eq_digit (hy0 : ¬ y.isZero = true) (hlen : ¬ 1 < y.digitLength) : y.mag = (y.digit 0).toNat := by
  rw [isZero_iff] at hy0
  have := length_pos_iff.mpr hy0
  change 0 < y.digitLength at this
  exact mag_of_length_one (by omega)

lemma two_pow_shift (W : DigitWidth) (shift : ℕ) :
    2 ^ shift = (2 ^ W.bits) ^ (shift / W.bits) * 2 ^ (shift % W.bits) := by
  rw [← pow_mul, ← pow_add, div_add_mod]

/-! ## Left shifts -/

section Left

variable {digitShift bitsShift : ℕ}

lemma grows_iff (bitsShift : ℕ) (hx0 : x.digits ≠ []) :
    x.grows bitsShift = true ↔ (shiftDigitsLeft bitsShift x.digits).2 ≠ 0#_ := by
  obtain ⟨low, d, hd⟩ : ∃ low d, x.digits = low ++ [d] := ⟨_, _, (dropLast_append_getLast hx0).symm⟩
  have hdigit : x.digit (x.digitLength - 1) = d := by simp [digit, digitLength, hd]
  unfold grows shiftDigitsLeft
  by_cases h0 : bitsShift = 0
  · simp [h0]
  · rw [if_neg h0, hd, leftShiftLoop_carry, hdigit]
    simp [h0]

lemma length_lshDigits (x : BigInt W) (digitShift : ℕ) (hbits : bitsShift < W.bits) :
    (lshDigits x digitShift bitsShift).length = x.digitLength + digitShift + (x.grows bitsShift).toNat := by
  have hlen := (shiftDigitsLeft_spec hbits.le x.digits).2
  simp only [lshDigits, List.length_append, length_replicate, hlen, digitLength]
  cases x.grows bitsShift <;> simp <;> omega

lemma val_lshDigits (digitShift : ℕ) (hx0 : x.digits ≠ []) (hbits : bitsShift < W.bits) :
    val (lshDigits x digitShift bitsShift) = x.mag * ((2 ^ W.bits) ^ digitShift * 2 ^ bitsShift) := by
  obtain ⟨hval, hlen⟩ := shiftDigitsLeft_spec hbits.le x.digits
  have hgrow := grows_iff bitsShift hx0
  have hdigits : val ((shiftDigitsLeft bitsShift x.digits).1 ++ if x.grows bitsShift then
      [(shiftDigitsLeft bitsShift x.digits).2] else []) = x.mag * 2 ^ bitsShift := by
    by_cases h : (shiftDigitsLeft bitsShift x.digits).2 = 0#_
    · rw [if_neg (fun h' => hgrow.mp h' h), append_nil, mag, ← hval, h]
      simp
    · rw [if_pos (hgrow.mpr h), val_concat, hlen, mag, ← hval]
  simp only [lshDigits]
  rw [val_append, hdigits, val_replicate_zero, length_replicate]
  ring

/-- A left shift of a well-formed BigInt needs no trimming. -/
lemma le_val_lshDigits (digitShift : ℕ) (hx : x.WellFormed) (hx0 : x.digits ≠ []) (hbits : bitsShift < W.bits) :
    (2 ^ W.bits) ^ ((lshDigits x digitShift bitsShift).length - 1) ≤ val (lshDigits x digitShift bitsShift) := by
  have hpos := length_pos_iff.mpr hx0
  change 0 < x.digitLength at hpos
  have hgrow := grows_iff bitsShift hx0
  rw [val_lshDigits digitShift hx0 hbits, length_lshDigits x digitShift hbits]
  cases hg : x.grows bitsShift with
  | false =>
    rw [Bool.toNat_false, Nat.add_zero]
    calc (2 ^ W.bits) ^ (x.digitLength + digitShift - 1)
        = (2 ^ W.bits) ^ (x.digitLength - 1) * (2 ^ W.bits) ^ digitShift := by
          rw [← pow_add]; congr 1; omega
      _ ≤ x.mag * ((2 ^ W.bits) ^ digitShift * 2 ^ bitsShift) :=
          Nat.mul_le_mul (hx.noHighZero.le_val hx0)
            (Nat.le_mul_of_pos_right _ (by positivity))
  | true =>
    have hcarry := hgrow.mp hg
    have hval := (shiftDigitsLeft_spec hbits.le x.digits).1
    have h1 : 1 ≤ (shiftDigitsLeft bitsShift x.digits).2.toNat := by
      by_contra h
      exact hcarry (BitVec.eq_of_toNat_eq (by simp; omega))
    have hle : (2 ^ W.bits) ^ x.digitLength ≤ x.mag * 2 ^ bitsShift := by
      have := Nat.mul_le_mul_left ((2 ^ W.bits) ^ x.digits.length) h1
      change _ = x.mag * 2 ^ bitsShift at hval
      change (2 ^ W.bits) ^ x.digits.length ≤ _
      omega
    rw [Bool.toNat_true, Nat.add_sub_cancel, pow_add]
    calc (2 ^ W.bits) ^ x.digitLength * (2 ^ W.bits) ^ digitShift
        ≤ x.mag * 2 ^ bitsShift * (2 ^ W.bits) ^ digitShift := Nat.mul_le_mul_right _ hle
      _ = x.mag * ((2 ^ W.bits) ^ digitShift * 2 ^ bitsShift) := by ring

end Left

/-- A left shift multiplies, and is too large only when the product is. -/
theorem ensures_lshByAbsolute (hx : x.WellFormed) (hy : y.WellFormed) :
    Ensures (lshByAbsolute x y) (2 ^ MaxBitLength ≤ x.mag * 2 ^ y.mag) fun r =>
      r.WellFormed ∧ r.toInt = x.toInt * 2 ^ y.mag := by
  unfold lshByAbsolute
  refine .ite (fun h => .pure ⟨hx, ?_⟩) fun h => ?_
  · rw [Bool.or_eq_true, isZero_iff, isZero_iff] at h
    rcases h with h | h
    · rw [hx.toInt_eq_zero_iff.mpr h, zero_mul]
    · simp [hy.mag_eq_zero_iff.mpr h]
  rw [Bool.or_eq_true, not_or] at h
  obtain ⟨hx0, hy0⟩ := h
  have hxne : x.digits ≠ [] := fun hnil => hx0 (isZero_iff.mpr hnil)
  have hmag := hx.mag_pos hxne
  refine .ite (fun h => .tooLarge ?_) fun h => ?_
  · have hlarge : MaxBitLength ≤ y.mag := by
      by_cases hlen : 1 < y.digitLength
      · exact (hy.maxBitLength_lt_mag hlen).le
      · rw [mag_eq_digit hy0 hlen]
        simp only [gt_iff_lt, hlen, decide_false, Bool.false_or, decide_eq_true_eq] at h
        exact h.le
    calc 2 ^ MaxBitLength ≤ 2 ^ y.mag := Nat.pow_le_pow_right (by norm_num) hlarge
      _ ≤ x.mag * 2 ^ y.mag := Nat.le_mul_of_pos_left _ hmag
  · simp only [gt_iff_lt, Bool.or_eq_true, decide_eq_true_eq, not_or] at h
    have hymag := mag_eq_digit hy0 h.1
    set shift := (y.digit 0).toNat
    have hbits : shift % W.bits < W.bits := mod_lt _ W.bits_pos
    have hval := val_lshDigits (shift / W.bits) hxne hbits
    have hle := le_val_lshDigits (shift / W.bits) hx hxne hbits
    have hlen := length_lshDigits x (shift / W.bits) hbits
    rw [← two_pow_shift] at hval
    rw [hymag]
    refine (ensures_fill (lshDigits x (shift / W.bits) (shift % W.bits)) hlen
      fun hlt => ?_).imp ?_
    · rw [← hval]
      calc 2 ^ MaxBitLength = (2 ^ W.bits) ^ MaxDigitLength W := by
            rw [← pow_mul, bits_mul_maxDigitLength]
        _ ≤ _ := Nat.pow_le_pow_right (by positivity) (by rw [hlen]; omega)
        _ ≤ _ := hle
    · rintro r ⟨rfl, hmax⟩
      refine ⟨⟨noHighZero_of_le_val hle, fun hnil => ?_, hlen.trans_le hmax⟩, ?_⟩
      · simp only at hnil
        rw [hnil, val_nil] at hval
        exact absurd hval (Nat.mul_pos hmag (by positivity)).ne
      · rw [toInt_mk, hval, toInt]
        cases x.isNegative <;> simp

/-! ## Right shifts -/

/-- A signed magnitude divided by a power of two, rounding toward minus infinity. -/
lemma toInt_ediv (x : BigInt W) (n : ℕ) :
    x.toInt / 2 ^ n = if x.isNegative then -((x.mag / 2 ^ n : ℕ) : ℤ) - (if x.mag % 2 ^ n = 0 then 0 else 1)
      else ((x.mag / 2 ^ n : ℕ) : ℤ) := by
  have hcast : ((2 ^ n : ℕ) : ℤ) = 2 ^ n := by push_cast; rfl
  cases hs : x.isNegative with
  | false => simp [toInt_of_nonneg hs]
  | true =>
    have hdvd : (2 ^ n : ℤ) ∣ x.mag ↔ x.mag % 2 ^ n = 0 := by
      rw [← hcast, Int.natCast_dvd_natCast, dvd_iff_mod_eq_zero]
    rw [toInt_of_negative hs, Int.neg_ediv, Int.sign_eq_one_of_pos (by positivity)]
    simp only [hdvd, if_true]
    rfl

lemma toInt_ediv_of_lt (hx : x.WellFormed) {n : ℕ} (h : x.mag < 2 ^ n) :
    x.toInt / 2 ^ n = if x.isNegative then -1 else 0 := by
  rw [toInt_ediv, div_eq_of_lt h, mod_eq_of_lt h]
  cases hs : x.isNegative with
  | false => rfl
  | true => simp [(hx.mag_pos_of_negative hs).ne']

lemma ensures_rshByMaximum {sign : Bool} : Ensures (rshByMaximum (W := W) sign) T fun r =>
    r.WellFormed ∧ r.toInt = if sign then -1 else 0 := by
  unfold rshByMaximum
  cases sign with
  | true => exact ensures_negativeOne
  | false =>
    refine ensures_zero.imp ?_
    rintro r rfl
    exact ⟨wellFormed_zero, rfl⟩

/-- The two tests of `rshByAbsolute` find any bit that is shifted out. -/
lemma mustRoundDown_iff (digitShift : ℕ) {bitsShift : ℕ} (hbits : bitsShift < W.bits) :
    mustRoundDown x digitShift bitsShift = true ↔
      x.isNegative = true ∧ x.mag % ((2 ^ W.bits) ^ digitShift * 2 ^ bitsShift) ≠ 0 := by
  have hdvd : 2 ^ bitsShift ∣ 2 ^ W.bits := Nat.pow_dvd_pow 2 hbits.le
  have hdigit : (x.digit digitShift &&& (1#W.bits <<< bitsShift) - 1#_ != 0#_) = true ↔
      x.mag / (2 ^ W.bits) ^ digitShift % 2 ^ bitsShift ≠ 0 := by
    rw [bne_iff_ne, ne_eq, ← BitVec.toNat_inj, toNat_and_mask W.one_lt_bits hbits, digit,
      toNat_getD, mod_mod_of_dvd _ hdvd]
    simp [mag]
  have hlow : (x.digits.take digitShift).any (· != 0#_) = true ↔ x.mag % (2 ^ W.bits) ^ digitShift ≠ 0 := by
    rw [mag, ← val_take, ne_eq, val_eq_zero_iff]
    simp
  simp only [mustRoundDown, Bool.and_eq_true, Bool.or_eq_true, hdigit, hlow, mod_mul]
  have hB : (2 ^ W.bits) ^ digitShift ≠ 0 := by positivity
  constructor
  · rintro ⟨hs, h | h⟩
    · simp [hs, h, hB]
    · simp [hs, h]
  · rintro ⟨hs, h⟩
    refine ⟨hs, ?_⟩
    by_contra hno
    rw [not_or, not_not, not_not] at hno
    exact h (by simp [hno.1, hno.2])

/-- The right shifts that allocate a digit for the rounding to carry into: the digits below a
multiple of the digit width are shifted out, not all of them zero, and the top digit is at its
maximum. -/
structure RoundsIntoUnsetDigit (x y : BigInt W) : Prop where
  isNegative : x.isNegative = true
  pos : 0 < y.mag
  lt_max : y.mag < MaxBitLength
  dvd : W.bits ∣ y.mag
  lt_length : y.mag / W.bits < x.digitLength
  allOnes : x.digit (x.digitLength - 1) = BitVec.allOnes W.bits
  inexact : x.mag % 2 ^ y.mag ≠ 0

instance (x y : BigInt W) : Decidable (RoundsIntoUnsetDigit x y) :=
  decidable_of_iff (x.isNegative = true ∧ 0 < y.mag ∧ y.mag < MaxBitLength ∧ W.bits ∣ y.mag ∧
      y.mag / W.bits < x.digitLength ∧ x.digit (x.digitLength - 1) = BitVec.allOnes W.bits ∧
      x.mag % 2 ^ y.mag ≠ 0)
    ⟨fun ⟨h₁, h₂, h₃, h₄, h₅, h₆, h₇⟩ => ⟨h₁, h₂, h₃, h₄, h₅, h₆, h₇⟩,
      fun ⟨h₁, h₂, h₃, h₄, h₅, h₆, h₇⟩ => ⟨h₁, h₂, h₃, h₄, h₅, h₆, h₇⟩⟩

/-- What the code computes before it allocates, in terms of the magnitudes. -/
lemma roundingCanOverflow_iff (hy0 : ¬ y.isZero = true)
    (hy : y.WellFormed) (hlen : ¬ 1 < y.digitLength) (hshift : (y.digit 0).toNat < MaxBitLength)
    (hlt : (y.digit 0).toNat / W.bits < x.digitLength) :
    (mustRoundDown x ((y.digit 0).toNat / W.bits) ((y.digit 0).toNat % W.bits) &&
      (y.digit 0).toNat % W.bits == 0 &&
      x.digit (x.digitLength - 1) == BitVec.allOnes W.bits) = true ↔
    RoundsIntoUnsetDigit x y := by
  have hmag := mag_eq_digit hy0 hlen
  have hpos : 0 < y.mag := hy.mag_pos fun h => hy0 (isZero_iff.mpr h)
  have hround := mustRoundDown_iff (x := x) ((y.digit 0).toNat / W.bits)
    (mod_lt (y.digit 0).toNat W.bits_pos)
  rw [← two_pow_shift] at hround
  rw [← hmag] at hround hshift hlt ⊢
  simp only [Bool.and_eq_true, beq_iff_eq, hround]
  constructor
  · rintro ⟨⟨⟨hs, hin⟩, hbits⟩, hmax⟩
    exact ⟨hs, hpos, hshift, dvd_of_mod_eq_zero hbits, hlt, hmax, hin⟩
  · intro h
    exact ⟨⟨⟨h.isNegative, h.inexact⟩, mod_eq_zero_of_dvd h.dvd⟩, h.allOnes⟩

lemma WellFormed.not_le_div_succ (hx : x.WellFormed) {n : ℕ} (hn : 0 < n) : ¬ 2 ^ MaxBitLength ≤ x.mag / 2 ^ n + 1 := by
  have h2 : 2 ≤ 2 ^ n := Nat.le_self_pow hn.ne' 2
  have hhalf : x.mag / 2 ^ n ≤ x.mag / 2 := div_le_div_left h2 (by norm_num)
  have hM : 1 < 2 ^ MaxBitLength := Nat.one_lt_two_pow (by decide)
  have hlt := hx.mag_lt_two_pow
  generalize 2 ^ MaxBitLength = M at hM hlt ⊢
  omega

/-- A right shift divides and rounds toward minus infinity, unless it rounds into an unset
digit. -/
theorem ensures_rshByAbsolute (hx : x.WellFormed) (hy : y.WellFormed) (hbad : ¬ RoundsIntoUnsetDigit x y) :
    Ensures (rshByAbsolute x y) False fun r =>
      r.WellFormed ∧ r.toInt = x.toInt / 2 ^ y.mag := by
  unfold rshByAbsolute
  refine .ite (fun h => .pure ⟨hx, ?_⟩) fun h => ?_
  · rw [Bool.or_eq_true, isZero_iff, isZero_iff] at h
    rcases h with h | h
    · simp [hx.toInt_eq_zero_iff.mpr h]
    · simp [hy.mag_eq_zero_iff.mpr h]
  rw [Bool.or_eq_true, not_or] at h
  obtain ⟨hx0, hy0⟩ := h
  refine .ite (fun h => ?_) fun h => ?_
  · have hlarge : MaxBitLength ≤ y.mag := by
      by_cases hlen : 1 < y.digitLength
      · exact (hy.maxBitLength_lt_mag hlen).le
      · rw [mag_eq_digit hy0 hlen]
        simpa [hlen] using h
    rw [toInt_ediv_of_lt hx
      (hx.mag_lt_two_pow.trans_le (Nat.pow_le_pow_right (by norm_num) hlarge))]
    exact ensures_rshByMaximum
  simp only [gt_iff_lt, ge_iff_le, Bool.or_eq_true, decide_eq_true_eq, not_or, not_le] at h
  obtain ⟨hlen, hmax⟩ := h
  have hymag := mag_eq_digit hy0 hlen
  have hiff := roundingCanOverflow_iff (x := x) hy0 hy hlen hmax
  have hpow := two_pow_shift W (y.digit 0).toNat
  rw [← hymag] at hiff hpow
  simp only [← hymag]
  refine .ite (fun hle => ?_) fun hlt => ?_
  · have hsmall : x.mag < 2 ^ y.mag := by
      calc x.mag < (2 ^ W.bits) ^ x.digitLength := x.mag_lt
        _ ≤ (2 ^ W.bits) ^ (y.mag / W.bits) := Nat.pow_le_pow_right (by positivity) hle
        _ ≤ 2 ^ y.mag := by rw [hpow]; exact Nat.le_mul_of_pos_right _ (by positivity)
    rw [toInt_ediv_of_lt hx hsmall]
    exact ensures_rshByMaximum
  · have hno := Bool.eq_false_iff.mpr fun h => hbad ((hiff (by omega)).mp h)
    have hbits : y.mag % W.bits < W.bits := mod_lt _ W.bits_pos
    set digits := shiftDigitsRight (y.mag % W.bits) (x.digits.drop (y.mag / W.bits)) with hd
    have hval : val digits = x.mag / 2 ^ y.mag := by
      rw [hd, val_shiftDigitsRight hbits.le, val_drop, hpow, Nat.div_div_eq_div_mul]; rfl
    have hdlen : digits.length = x.digitLength - y.mag / W.bits := by
      rw [hd, length_shiftDigitsRight, length_drop]; rfl
    have hne : digits ≠ [] := fun h => by rw [h] at hdlen; simp at hdlen; omega
    have hxmax := hx.length_le
    simp only [hno, Bool.toNat_false, Nat.add_zero]
    refine Ensures.bind (ensures_createUninitialized fun hgt =>
      absurd ((sub_le _ _).trans hxmax) (Nat.not_le_of_lt hgt)) fun c hc => ?_
    refine (ensures_setDigits_all digits (by rw [hdlen, hc.2.1])).bind fun c' hc' => ?_
    rw [hc', hc.1]
    refine (ensures_publish digits).bind fun result hresult => ?_
    subst hresult
    have hround := mustRoundDown_iff (x := x) (y.mag / W.bits) hbits
    rw [← hpow] at hround
    refine .ite (fun hmust => ?_) fun hmust => ?_
    · obtain ⟨hs, hin⟩ := hround.mp hmust
      refine (ensures_absoluteAddOne (x := ⟨x.isNegative, digits⟩) (hdlen.trans_le ((sub_le _ _).trans hxmax)) fun hlarge => ?_).imp
        fun r hr => ⟨hr.1, ?_⟩
      · -- Shifting by at least one bit leaves room for the carry.
        have hpos : 0 < y.mag := hy.mag_pos fun h => hy0 (isZero_iff.mpr h)
        exact hx.not_le_div_succ hpos (hval ▸ hlarge)
      · rw [hr.2, if_pos hs, toInt_ediv, if_pos hs, if_neg hin]
        change -((val digits : ℤ) + 1) = _
        rw [hval]; ring
    · refine (ensures_trim (x := ⟨x.isNegative, digits⟩) (hdlen.trans_le ((sub_le _ _).trans hxmax)) fun h => absurd h hne).imp
        fun r hr => ⟨hr.1, ?_⟩
      rw [hr.2, toInt_mk, hval, toInt_ediv]
      cases hs : x.isNegative with
      | false => rfl
      | true =>
        have hexact : x.mag % 2 ^ y.mag = 0 := by
          by_contra hin
          exact hmust (hround.mpr ⟨hs, hin⟩)
        simp [hexact]

lemma rshByAbsolute_unsetRead (hx : x.WellFormed) (hy : y.WellFormed) (hbad : RoundsIntoUnsetDigit x y) :
    ∃ r heap', rshByAbsolute x y (.infallible 0#_) .init = .ok (r, heap') ∧ heap'.unsetRead = true := by
  have hlt := hbad.lt_length
  have hx0 : ¬ x.isZero = true := by
    rw [isZero_iff]; rintro h; simp [digitLength, h] at hlt
  have hy0 : ¬ y.isZero = true := by
    rw [isZero_iff, ← hy.mag_eq_zero_iff]; exact hbad.pos.ne'
  have hlen : ¬ 1 < y.digitLength := fun h =>
    absurd (hy.maxBitLength_lt_mag h) (Nat.not_lt_of_lt hbad.lt_max)
  have hymag := mag_eq_digit hy0 hlen
  have hmax := hbad.lt_max
  have hover := (roundingCanOverflow_iff (x := x) hy0 hy hlen (hymag ▸ hmax)
    (hymag ▸ hlt)).mpr hbad
  have hmust : mustRoundDown x (y.mag / W.bits) (y.mag % W.bits) = true := by
    rw [mustRoundDown_iff _ (mod_lt _ W.bits_pos), ← two_pow_shift]
    exact ⟨hbad.isNegative, hbad.inexact⟩
  have hpow := two_pow_shift W y.mag
  set digits := shiftDigitsRight (y.mag % W.bits) (x.digits.drop (y.mag / W.bits)) with hd
  have hval : val digits = x.mag / 2 ^ y.mag := by
    rw [hd, val_shiftDigitsRight (mod_lt _ W.bits_pos).le, val_drop, hpow, Nat.div_div_eq_div_mul]
    rfl
  have hdlen : digits.length = x.digitLength - y.mag / W.bits := by
    rw [hd, length_shiftDigitsRight, length_drop]; rfl
  have hbits := le_of_dvd hbad.pos hbad.dvd
  have hdigit : 0 < y.mag / W.bits := Nat.div_pos hbits W.bits_pos
  have hxmax := hx.length_le
  rw [← hymag] at hover
  unfold rshByAbsolute
  rw [if_neg (by rw [Bool.or_eq_true, not_or]; exact ⟨hx0, hy0⟩),
    if_neg (by rw [← hymag]; simpa using ⟨by omega, hmax⟩)]
  simp only [← hymag]
  rw [if_neg (by omega), hover, Bool.toNat_true, hmust]
  obtain ⟨heap₁, hcreate, hheap₁⟩ := createUninitialized_infallible (W := W)
    (show x.digitLength - y.mag / W.bits + 1 ≤ MaxDigitLength W by omega) x.isNegative 0#_ .init
  rw [Ensures.bind_ok hcreate]
  rw [Ensures.bind_ok (setDigits_unset hdlen 0#_ _ heap₁), Ensures.bind_ok (publish_unset _ _ _)]
  simp only [if_true]
  have hadd : Ensures (absoluteAddOne ⟨x.isNegative, digits ++ [0#_]⟩ x.isNegative) False
      fun r => r.WellFormed := by
    refine (ensures_absoluteAddOne ?_ fun h => ?_).imp fun _ hr => hr.1
    · rw [digitLength, List.length_append, hdlen, length_singleton]; omega
    · rw [mag, val_concat, hval] at h
      exact hx.not_le_div_succ hbad.pos h
  obtain ⟨r, heap', hrun, -, hunset⟩ := hadd.exists_ok 0#_ ⟨heap₁.allocs, true⟩
  exact ⟨r, heap', hrun, hunset⟩

/-! ## The operators -/

/-- What a shift by `n` bits is meant to do: whatever the allocations do, it denotes
`⌊x * 2 ^ n⌋` and is normalised, every digit having been written before it is read, and it is too
large only when that integer is. -/
def ShiftsBy (m : Run W (BigInt W)) (x : BigInt W) (n : ℤ) : Prop :=
  Ensures m (2 ^ MaxBitLength ≤ |⌊(x.toInt : ℚ) * 2 ^ n⌋|) fun r =>
    r.WellFormed ∧ r.toInt = ⌊(x.toInt : ℚ) * 2 ^ n⌋

lemma floor_mul_two_pow (a : ℤ) (n : ℕ) : ⌊(a : ℚ) * 2 ^ (n : ℤ)⌋ = a * 2 ^ n := by
  rw [zpow_natCast]
  exact_mod_cast Int.floor_intCast (R := ℚ) (a * 2 ^ n)

lemma floor_mul_two_pow_neg (a : ℤ) (n : ℕ) : ⌊(a : ℚ) * 2 ^ (-(n : ℤ))⌋ = a / 2 ^ n := by
  rw [zpow_neg, ← div_eq_mul_inv, zpow_natCast]
  exact_mod_cast Rat.floor_intCast_div_natCast a (2 ^ n)

lemma shiftsBy_lshByAbsolute (hx : x.WellFormed) (hy : y.WellFormed) : ShiftsBy (lshByAbsolute x y) x y.mag := by
  unfold ShiftsBy
  rw [floor_mul_two_pow]
  refine (ensures_lshByAbsolute hx hy).mono (fun h => ?_) fun r hr => hr
  rw [abs_mul, Int.abs_eq_natAbs, natAbs_toInt, abs_of_pos (by positivity)]
  exact_mod_cast h

/-- A right shift is right exactly when it does not round into an unset digit. -/
lemma shiftsBy_rshByAbsolute_iff (hx : x.WellFormed) (hy : y.WellFormed) :
    ShiftsBy (rshByAbsolute x y) x (-(y.mag : ℤ)) ↔ ¬ RoundsIntoUnsetDigit x y := by
  unfold ShiftsBy
  rw [floor_mul_two_pow_neg]
  constructor
  · intro h hbad
    obtain ⟨r, heap', hrun, hunset⟩ := rshByAbsolute_unsetRead hx hy hbad
    have := h (.infallible 0#_) .init
    rw [hrun] at this
    simp [Outcome, hunset, Heap.init] at this
  · intro h
    exact (ensures_rshByAbsolute hx hy h).mono False.elim fun r hr => hr

/-- **Shifts are exact** precisely outside the case in which a right shift, by `lsh` of a
negative or `rsh` of a nonnegative amount, rounds into an unset digit. -/
theorem shift_correct_iff (hx : x.WellFormed) (hy : y.WellFormed) : (ShiftsBy (lsh x y) x y.toInt ↔
      ¬ (y.isNegative = true ∧ RoundsIntoUnsetDigit x y)) ∧
    (ShiftsBy (rsh x y) x (-y.toInt) ↔ ¬ (y.isNegative = false ∧ RoundsIntoUnsetDigit x y)) := by
  unfold lsh rsh
  cases hs : y.isNegative with
  | true =>
    simp only [if_true, toInt_of_negative hs, neg_neg, true_and, Bool.true_eq_false, false_and,
      not_false_eq_true, iff_true]
    exact ⟨shiftsBy_rshByAbsolute_iff hx hy, shiftsBy_lshByAbsolute hx hy⟩
  | false =>
    simp only [Bool.false_eq_true, if_false, toInt_of_nonneg hs, true_and, false_and, not_false_eq_true, iff_true]
    exact ⟨shiftsBy_lshByAbsolute hx hy, shiftsBy_rshByAbsolute_iff hx hy⟩

/-- `-(2^128 - 1)` shifted right by 64 bits is `-2^64`, but with 5 in the unset digit the result
is `-6 * 2^64`; with 0 there it is right. -/
theorem rsh_roundsIntoUnsetDigit : rsh (W := .bits64) ⟨true, [BitVec.allOnes 64, BitVec.allOnes 64]⟩ ⟨false, [64#64]⟩
        (.infallible 5#64) .init = .ok (⟨true, [0#64, 6#64]⟩, ⟨4, true⟩) ∧
    rsh (W := .bits64) ⟨true, [BitVec.allOnes 64, BitVec.allOnes 64]⟩ ⟨false, [64#64]⟩
        (.infallible 0#64) .init = .ok (⟨true, [0#64, 1#64]⟩, ⟨4, true⟩) ∧
    (⟨true, [0#64, 6#64]⟩ : BigInt .bits64).toInt ≠
      ⌊((⟨true, [BitVec.allOnes 64, BitVec.allOnes 64]⟩ : BigInt .bits64).toInt : ℚ) *
        2 ^ (-(⟨false, [64#64]⟩ : BigInt .bits64).toInt)⌋ := by
  refine ⟨by decide, by decide, ?_⟩
  have h := floor_mul_two_pow_neg
    (⟨true, [BitVec.allOnes 64, BitVec.allOnes 64]⟩ : BigInt .bits64).toInt
    (⟨false, [64#64]⟩ : BigInt .bits64).mag
  rw [toInt_of_nonneg (W := .bits64) (x := ⟨false, [64#64]⟩) rfl, h]
  decide

/-- The same number shifted right by 65 bits, where the rounding is exact. -/
theorem shift_correct_iff_odd : ShiftsBy (rsh (W := .bits64) ⟨true, [BitVec.allOnes 64, BitVec.allOnes 64]⟩
      ⟨false, [65#64]⟩) ⟨true, [BitVec.allOnes 64, BitVec.allOnes 64]⟩
      (-(⟨false, [65#64]⟩ : BigInt .bits64).toInt) :=
  (shift_correct_iff (by decide) (by decide)).2.mpr (by decide)

end BigInt

end SpiderMonkey
