import SpiderMonkey.BigInt.Compare
import SpiderMonkey.BigInt.LongDivision

/-!
# Division and remainder

`BigInt::div` and `BigInt::mod` over the digit loops of `LongDivision`: the allocations, the
normalising shifts (D1), the shortcuts for small operands and the trimming of the results.  Both
are truncated division on the integers denoted (`ensures_div`, `ensures_mod`), from which
`div_mod` follows.

The temporary dividend has one digit more than `x`, so dividing a BigInt of the maximal length by
one of several digits is reported as too large; that is the only size error there is.
-/

namespace SpiderMonkey

open Radix

namespace BigInt

variable {W : DigitWidth} {T : Prop} {x y : BigInt W}

/-! ## Normalisation (D1) -/

inductive LeftShiftMode where
  | sameSizeResult
  | alwaysAddOneDigit
  deriving DecidableEq

/-- Always copies the input, even when `shift = 0`. -/
def absoluteLeftShiftAlwaysCopy (x : BigInt W) (shift : ℕ) (mode : LeftShiftMode) : Run W (BigInt W) := do
  let n := x.digitLength
  let resultLength := match mode with
    | .alwaysAddOneDigit => n + 1
    | .sameSizeResult => n
  let result ← createUninitialized resultLength x.isNegative
  let (digits, carry) := shiftDigitsLeft shift x.digits
  let digits := match mode with
    | .alwaysAddOneDigit => digits ++ [carry]
    | .sameSizeResult => digits
  let result ← result.setDigits 0 digits
  result.publish

lemma ensures_leftShift_addOneDigit {shift : ℕ} (hshift : shift < W.bits)
    (hT : MaxDigitLength W < x.digitLength + 1 → T) :
    Ensures (absoluteLeftShiftAlwaysCopy x shift .alwaysAddOneDigit) T fun u =>
      u.isNegative = x.isNegative ∧ u.digitLength = x.digitLength + 1 ∧
      u.digitLength ≤ MaxDigitLength W ∧ u.mag = x.mag * 2 ^ shift := by
  obtain ⟨hval, hlen⟩ := shiftDigitsLeft_spec hshift.le x.digits
  refine (ensures_fill (n := x.digitLength + 1)
    ((shiftDigitsLeft shift x.digits).1 ++ [(shiftDigitsLeft shift x.digits).2])
    (by simp [hlen, digitLength]) hT).imp ?_
  rintro u ⟨rfl, hmax⟩
  refine ⟨rfl, by simp [digitLength, hlen], by simpa [digitLength, hlen] using hmax, ?_⟩
  simp only [mag, val_concat, hlen, hval]

lemma ensures_leftShift_sameSize {shift : ℕ} (hshift : shift < W.bits) (hlen : x.digitLength ≤ MaxDigitLength W)
    (hfits : x.mag * 2 ^ shift < (2 ^ W.bits) ^ x.digitLength) :
    Ensures (absoluteLeftShiftAlwaysCopy x shift .sameSizeResult) T fun v =>
      v.digitLength = x.digitLength ∧ v.mag = x.mag * 2 ^ shift := by
  obtain ⟨hval, hlen'⟩ := shiftDigitsLeft_spec hshift.le x.digits
  refine (ensures_fill (n := x.digitLength) (shiftDigitsLeft shift x.digits).1 hlen'
    fun h => absurd hlen (Nat.not_le_of_lt h)).imp ?_
  rintro v ⟨rfl, -⟩
  refine ⟨hlen', ?_⟩
  -- The carry out of the top digit is zero, as the source asserts.
  have hcarry : (shiftDigitsLeft shift x.digits).2.toNat = 0 := by
    by_contra h
    have := Nat.mul_le_mul_left ((2 ^ W.bits) ^ x.digitLength) (Nat.one_le_iff_ne_zero.mpr h)
    change _ + (2 ^ W.bits) ^ x.digitLength * _ = x.mag * 2 ^ shift at hval
    omega
  rw [hcarry, Nat.mul_zero, Nat.add_zero] at hval
  exact hval

/-- The digits of `this` shifted right by `shift`, in place. -/
def inplaceRightShiftLowZeroBits (this : BigInt W) (shift : ℕ) : BigInt W :=
  { this with digits := shiftDigitsRight shift this.digits }

lemma inplaceRightShiftLowZeroBits_spec {shift : ℕ} (hshift : shift < W.bits) :
    (inplaceRightShiftLowZeroBits x shift).isNegative = x.isNegative ∧
    (inplaceRightShiftLowZeroBits x shift).digitLength = x.digitLength ∧
    (inplaceRightShiftLowZeroBits x shift).mag = x.mag / 2 ^ shift :=
  ⟨rfl, length_shiftDigitsRight shift x.digits, val_shiftDigitsRight hshift.le x.digits⟩

/-! ## Division of magnitudes -/

/-- Writes the quotient digits into the BigInt given for them, or into a new one. -/
def setQuotient (quotient : Option (BigInt W)) (digits : List (Digit W)) (quotientNegative : Bool) : Run W (BigInt W) :=
  match quotient with
  | none => do
    let q ← createUninitialized digits.length quotientNegative
    let q ← q.setDigits 0 digits
    q.publish
  | some q =>
    if digits.length ≤ q.digitLength then
      return { q with digits := digits ++ q.digits.drop digits.length }
    else
      throw .outOfBounds

/-- The quotient and the remainder of a division by one digit.  The caller may not be interested
in the quotient, ask for a new one, or provide the BigInt that it is to be stored in. -/
def absoluteDivWithDigitDivisor (x : BigInt W) (divisor : Digit W)
    (quotient : Option (Option (BigInt W))) (quotientNegative : Bool) :
    Run W (Option (BigInt W) × Digit W) :=
  if divisor = 1#_ then
    match quotient with
    | none => return (none, 0#_)
    | some _ => do
      let q ← (if x.isNegative = quotientNegative then pure x else neg x)
      return (some q, 0#_)
  else
    let (digits, remainder) := divDigitLoop divisor x.digits
    match quotient with
    | none => return (none, remainder)
    | some quotient => do
      let q ← setQuotient quotient digits quotientNegative
      return (some q, remainder)

/-- The quotient of Algorithm D, when the caller asks for one. -/
def createQuotient (quotient : Bool) (length : ℕ) (isNegative : Bool) : Run W (Option (Cell W)) :=
  if quotient then do
    let q ← createUninitialized length isNegative
    return some q
  else return none

/-- The trimmed quotient; trimming leaves `q` itself alone when nothing is left of it. -/
def finishQuotient (q : Option (Cell W)) (digits : List (Digit W)) : Run W (Option (BigInt W)) :=
  match q with
  | none => return none
  | some q => do
    let q ← q.setDigits 0 digits
    let q ← q.publish
    let bi ← destructivelyTrimHighZeroDigits q
    return some (if bi.isZero then q else bi)

/-- Algorithm D.  `quotient` and `remainder` say what the caller is interested in. -/
def absoluteDivWithBigIntDivisor (dividend divisor : BigInt W) (quotient remainder : Bool)
    (isNegative : Bool) : Run W (Option (BigInt W) × Option (BigInt W)) := do
  let n := divisor.digitLength
  let m := dividend.digitLength - n
  let q ← createQuotient quotient (m + 1) isNegative
  -- `qhatv`, which every iteration overwrites as a whole before it reads it.
  let _ ← createUninitialized (W := W) (n + 1) isNegative
  let shift := digitLeadingZeroes (divisor.digit (n - 1))
  let shiftedDivisor ← (if shift > 0 then
    absoluteLeftShiftAlwaysCopy divisor shift .sameSizeResult else pure divisor)
  let u ← absoluteLeftShiftAlwaysCopy dividend shift .alwaysAddOneDigit
  let (digits, qhats) := divLoop shiftedDivisor.digits (m + 1) u.digits []
  let q ← finishQuotient q qhats
  return (q, if remainder then
    some (inplaceRightShiftLowZeroBits { u with digits } shift) else none)

/-! ### Specifications -/

lemma ensures_setQuotient_new {digits : List (Digit W)} {sign : Bool} (hlen : digits.length ≤ MaxDigitLength W) :
    Ensures (setQuotient none digits sign) T fun q => q = ⟨sign, digits⟩ :=
  (ensures_fill digits rfl fun h => absurd hlen (Nat.not_le_of_lt h)).imp fun _ hq => hq.1

lemma ensures_setQuotient_inPlace {digits : List (Digit W)} {q : BigInt W} {sign : Bool}
    (hlen : digits.length = q.digitLength) :
    Ensures (setQuotient (some q) digits sign) T fun q' => q' = { q with digits } := by
  unfold setQuotient
  simp only [hlen, le_refl, if_true]
  exact .pure (by simp [digitLength])

lemma ensures_absoluteDivWithDigitDivisor_new {divisor : Digit W} {sign : Bool}
    (hlen : x.digitLength ≤ MaxDigitLength W) (hd : 1 < divisor.toNat) :
    Ensures (absoluteDivWithDigitDivisor x divisor (some none) sign) T fun r =>
      ∃ q, r.1 = some q ∧ q.isNegative = sign ∧ q.digitLength = x.digitLength ∧
        q.mag = x.mag / divisor.toNat ∧ r.2.toNat = x.mag % divisor.toNat := by
  obtain ⟨hquot, hrem, hqlen⟩ := divDigitLoop_divMod (show 0 < divisor.toNat by omega) x.digits
  have hne : divisor ≠ 1#_ := fun h => by rw [h, toNat_one W.one_lt_bits] at hd; omega
  unfold absoluteDivWithDigitDivisor
  rw [if_neg hne]
  refine (ensures_setQuotient_new (by rw [hqlen]; exact hlen)).bind fun q hq => .pure ?_
  subst hq
  exact ⟨_, rfl, rfl, hqlen, hquot, hrem⟩

lemma ensures_absoluteDivWithDigitDivisor_inPlace {divisor : Digit W} {sign : Bool} {rest : BigInt W}
    (hrest : rest.digitLength = x.digitLength) (hd : 1 < divisor.toNat) :
    Ensures (absoluteDivWithDigitDivisor x divisor (some (some rest)) sign) T fun r =>
      ∃ q, r.1 = some q ∧ q.digitLength = x.digitLength ∧
        q.mag = x.mag / divisor.toNat ∧ r.2.toNat = x.mag % divisor.toNat := by
  obtain ⟨hquot, hrem, hqlen⟩ := divDigitLoop_divMod (show 0 < divisor.toNat by omega) x.digits
  have hne : divisor ≠ 1#_ := fun h => by rw [h, toNat_one W.one_lt_bits] at hd; omega
  unfold absoluteDivWithDigitDivisor
  rw [if_neg hne]
  apply (ensures_setQuotient_inPlace (hqlen.trans hrest.symm)).bind
  rintro _ rfl
  exact .pure ⟨_, rfl, hqlen, hquot, hrem⟩

lemma ensures_absoluteDivWithDigitDivisor_none {divisor : Digit W} {sign : Bool} (hd : 1 < divisor.toNat) :
    Ensures (absoluteDivWithDigitDivisor x divisor none sign) T fun r =>
      r.2.toNat = x.mag % divisor.toNat := by
  have hrem := (divDigitLoop_divMod (show 0 < divisor.toNat by omega) x.digits).2.1
  have hne : divisor ≠ 1#_ := fun h => by rw [h, toNat_one W.one_lt_bits] at hd; omega
  unfold absoluteDivWithDigitDivisor
  rw [if_neg hne]
  exact .pure hrem

lemma ensures_createQuotient {quotient sign : Bool} {n : ℕ} (hn : n ≤ MaxDigitLength W) :
    Ensures (createQuotient (W := W) quotient n sign) T fun q => match q with
      | none => quotient = false
      | some c => quotient = true ∧ c.isNegative = sign ∧ c.slots.length = n := by
  refine .ite (fun h => ?_) fun h => .pure (by simpa using h)
  refine (ensures_createUninitialized fun hlt => absurd hn (Nat.not_le_of_lt hlt)).bind ?_
  exact fun c hc => .pure ⟨h, hc.1, hc.2.1⟩

lemma ensures_finishQuotient {c : Cell W} (digits : List (Digit W))
    (hlen : digits.length = c.slots.length) (hne : digits ≠ [])
    (hmax : digits.length ≤ MaxDigitLength W) :
    Ensures (finishQuotient (some c) digits) T fun r => ∃ q, r = some q ∧
      q.digitLength ≤ MaxDigitLength W ∧ q.digits ≠ [] ∧
      q.toInt = (⟨c.isNegative, digits⟩ : BigInt W).toInt := by
  refine (ensures_setDigits_all digits hlen).bind fun c' hc' => ?_
  subst hc'
  refine (ensures_publish digits).bind fun q hq => ?_
  subst hq
  refine (ensures_trim (x := ⟨c.isNegative, digits⟩) hmax fun h => absurd h hne).bind fun bi hbi => ?_
  refine .pure ⟨_, rfl, ?_⟩
  cases hzero : bi.isZero with
  | true => exact ⟨hmax, hne, rfl⟩
  | false => exact ⟨hbi.1.length_le, isZero_eq_false_iff.mp hzero, hbi.2⟩

/-- What Algorithm D returns: the quotient and the remainder of the magnitudes, as far as they
were asked for. -/
lemma ensures_absoluteDivWithBigIntDivisor {quotient remainder sign : Bool}
    (hx : x.WellFormed) (hy : y.WellFormed) (hn : 2 ≤ y.digitLength)
    (hle : y.digitLength ≤ x.digitLength) (hT : MaxDigitLength W < x.digitLength + 1 → T) :
    Ensures (absoluteDivWithBigIntDivisor x y quotient remainder sign) T fun r =>
      (quotient = true → ∃ q, r.1 = some q ∧ q.digitLength ≤ MaxDigitLength W ∧ q.digits ≠ [] ∧
        q.toInt = if sign then -((x.mag / y.mag : ℕ) : ℤ) else ((x.mag / y.mag : ℕ) : ℤ)) ∧
      (remainder = true → ∃ u, r.2 = some u ∧ u.digitLength ≤ MaxDigitLength W ∧
        u.digits ≠ [] ∧ u.isNegative = x.isNegative ∧ u.mag = x.mag % y.mag) := by
  have hyne : y.digits ≠ [] := fun h => by simp [digitLength, h] at hn
  obtain ⟨hshift, hfits, hnorm⟩ := normalize_bounds W.one_lt_bits hy.noHighZero hyne
  set shift := digitLeadingZeroes (y.digit (y.digitLength - 1)) with hs
  change shift < W.bits at hshift
  set n := y.digitLength with hndef
  set m := x.digitLength - n
  have hxmax := hx.length_le
  unfold absoluteDivWithBigIntDivisor
  refine (ensures_createQuotient (by omega)).bind fun q hq => ?_
  refine (ensures_createUninitialized (fun h => hT (by omega))).bind fun _ _ => ?_
  refine Ensures.bind (Q := fun v : BigInt W => v.digitLength = n ∧ v.mag = y.mag * 2 ^ shift)
    (.ite (fun _ => ensures_leftShift_sameSize hshift hy.length_le hfits) fun h0 => .pure ?_)
    fun v hv => ?_
  · have : shift = 0 := by omega
    simp [this, hndef]
  refine (ensures_leftShift_addOneDigit hshift hT).bind fun u hu => ?_
  obtain ⟨husign, hulen, humax, humag⟩ := hu
  obtain ⟨hvlen, hvmag⟩ := hv
  have hvne : v.digits ≠ [] := fun h => by simp [digitLength, h] at hvlen; omega
  -- The top digits of the dividend are below the divisor.
  have htop : x.mag < (2 ^ W.bits) ^ (m + 1) * y.mag :=
    calc x.mag < (2 ^ W.bits) ^ x.digitLength := x.mag_lt
      _ = (2 ^ W.bits) ^ (m + 1) * (2 ^ W.bits) ^ (n - 1) := by
          rw [← pow_add]; congr 1; omega
      _ ≤ (2 ^ W.bits) ^ (m + 1) * y.mag :=
          Nat.mul_le_mul_left _ (hy.noHighZero.le_val hyne)
  obtain ⟨hqlen, hquot, hrlen, hrem⟩ := divLoop_scaled W.one_lt_bits (v := v.digits)
    (u := u.digits) (a := x.mag) (b := y.mag) (s := shift) (m := m)
    (by change 2 ≤ v.digitLength; omega)
    (le_top_of_le_val hvne (by
      change _ * _ ^ (v.digitLength - 1) ≤ v.mag
      rw [hvmag, hvlen]; exact hnorm))
    (by change u.digitLength = m + 1 + v.digitLength; omega) hvmag humag htop
  refine Ensures.bind (Q := fun r : Option (BigInt W) => quotient = true → ∃ q, r = some q ∧
    q.digitLength ≤ MaxDigitLength W ∧ q.digits ≠ [] ∧
    q.toInt = if sign then -((x.mag / y.mag : ℕ) : ℤ) else ((x.mag / y.mag : ℕ) : ℤ)) ?_
    fun r hr => .pure ⟨hr, ?_⟩
  · cases q with
    | none => exact .pure fun h => by simp [hq] at h
    | some c =>
      obtain ⟨-, hcsign, hclen⟩ := hq
      refine (ensures_finishQuotient (divLoop v.digits (m + 1) u.digits []).2
        (by rw [hqlen, hclen])
        (fun h => by simp [h] at hqlen) (by omega)).imp fun r hr _ => ?_
      rwa [toInt_mk, hquot, hcsign] at hr
  · intro hremainder
    rw [if_pos hremainder]
    set rest : BigInt W := ⟨u.isNegative, (divLoop v.digits (m + 1) u.digits []).1⟩
    obtain ⟨h₁, h₂, h₃⟩ := inplaceRightShiftLowZeroBits_spec (x := rest) hshift
    have hlen : rest.digitLength = u.digitLength := hrlen
    refine ⟨inplaceRightShiftLowZeroBits rest shift, rfl, by rw [h₂, hlen]; exact humax,
      fun hnil => ?_, by rw [h₁]; exact husign, by rw [h₃]; exact hrem⟩
    rw [digitLength, hnil, hlen, hulen] at h₂
    simp at h₂

/-! ## The operators -/

def div (x y : BigInt W) : Run W (BigInt W) :=
  if y.isZero then throw .bigIntDivisionByZero
  else if x.isZero then return x
  else if absoluteCompare x y < 0 then zero
  else
    let resultNegative := x.isNegative != y.isNegative
    if y.digitLength = 1 then
      let divisor := y.digit 0
      if divisor = 1#_ then if resultNegative = x.isNegative then return x else neg x
      else do
        let (quotient, _) ← absoluteDivWithDigitDivisor x divisor (some none) resultNegative
        destructivelyTrimHighZeroDigits (quotient.getD x)
    else do
      let (quotient, _) ← absoluteDivWithBigIntDivisor x y true false resultNegative
      destructivelyTrimHighZeroDigits (quotient.getD x)

def mod (x y : BigInt W) : Run W (BigInt W) :=
  if y.isZero then throw .bigIntDivisionByZero
  else if x.isZero then return x
  else if absoluteCompare x y < 0 then return x
  else if y.digitLength = 1 then
    let divisor := y.digit 0
    if divisor = 1#_ then zero
    else do
      let (_, remainderDigit) ← absoluteDivWithDigitDivisor x divisor none false
      if remainderDigit = 0#_ then zero else createFromDigit remainderDigit x.isNegative
  else do
    let (_, remainder) ← absoluteDivWithBigIntDivisor x y false true x.isNegative
    destructivelyTrimHighZeroDigits (remainder.getD x)

/-! ### Truncated division -/

/-- The quotient of the magnitudes with the sign of the quotient is the truncated quotient. -/
lemma tdiv_toInt (x y : BigInt W) :
    x.toInt.tdiv y.toInt = if x.isNegative != y.isNegative then -((x.mag / y.mag : ℕ) : ℤ)
      else ((x.mag / y.mag : ℕ) : ℤ) := by
  cases hx : x.isNegative <;> cases hy : y.isNegative <;>
    simp [toInt, hx, hy, Int.tdiv_neg, Int.neg_tdiv]

lemma tmod_toInt (x y : BigInt W) :
    x.toInt.tmod y.toInt = if x.isNegative then -((x.mag % y.mag : ℕ) : ℤ) else ((x.mag % y.mag : ℕ) : ℤ) := by
  cases hx : x.isNegative <;> cases hy : y.isNegative <;>
    simp [toInt, hx, hy, Int.tmod_neg, Int.neg_tmod, Int.tmod_eq_emod_of_nonneg]

lemma one_lt_digit (hy : y.WellFormed) (h : y.digitLength = 1) (h1 : ¬ y.digit 0 = 1#_) : 1 < (y.digit 0).toNat := by
  have hpos := hy.mag_pos fun hnil => by simp [digitLength, hnil] at h
  rw [mag_of_length_one h] at hpos
  have hne : (y.digit 0).toNat ≠ 1 := fun h0 =>
    h1 (BitVec.eq_of_toNat_eq (by rw [h0, toNat_one W.one_lt_bits]))
  omega

lemma length_le_of_not_lt (hx : x.WellFormed) (hy : y.WellFormed)
    (h : ¬ absoluteCompare x y < 0) : y.digitLength ≤ x.digitLength := by
  rw [absoluteCompare_neg_iff hx hy] at h
  by_contra hlt
  exact h (hy.mag_lt_of_length_lt (Nat.lt_of_not_le hlt))

/-- **`BigInt::div` is truncated division.** -/
theorem ensures_div (hx : x.WellFormed) (hy : y.WellFormed) (hy0 : y.digits ≠ []) :
    Ensures (div x y) (MaxDigitLength W < x.digitLength + 1) fun q =>
      q.WellFormed ∧ q.toInt = x.toInt.tdiv y.toInt := by
  refine .ite (fun h => absurd (isZero_iff.mp h) hy0) fun _ => ?_
  refine .ite (fun h => .pure ⟨hx, ?_⟩) fun hx0 => ?_
  · simp [hx.toInt_eq_zero_iff.mpr (isZero_iff.mp h)]
  refine .ite (fun h => ensures_zero.imp ?_) fun hge => ?_
  · rintro q rfl
    rw [absoluteCompare_neg_iff hx hy] at h
    exact ⟨wellFormed_zero, by simp [tdiv_toInt, Nat.div_eq_of_lt h]⟩
  refine .ite (fun hlen => ?_) fun hlen => ?_
  · refine .ite (fun h1 => ?_) fun h1 => ?_
    · -- Division by 1 only changes the sign.
      have hy1 : y.mag = 1 := by rw [mag_of_length_one hlen, h1, toNat_one W.one_lt_bits]
      refine .ite (fun hs => .pure ⟨hx, ?_⟩) fun hs => (ensures_neg hx).imp fun q hq => ⟨hq.1, ?_⟩
      · rw [tdiv_toInt, hs, hy1, Nat.div_one, toInt]
      · rw [hq.2, tdiv_toInt, hy1, Nat.div_one, toInt]
        cases hsx : x.isNegative <;> cases hsy : y.isNegative <;> simp_all
    · refine (ensures_absoluteDivWithDigitDivisor_new hx.length_le
        (one_lt_digit hy hlen h1)).bind fun r hr => ?_
      obtain ⟨q, hq, hsign, hqlen, hqmag, -⟩ := hr
      simp only [hq, Option.getD_some]
      refine (ensures_trim (by rw [hqlen]; exact hx.length_le) fun hnil => ?_).imp
        fun q' hq' => ⟨hq'.1, ?_⟩
      · rw [digitLength, hnil, digitLength] at hqlen
        simp [List.length_eq_zero_iff.mp hqlen.symm] at hx0
      · rw [hq'.2, tdiv_toInt, toInt, hsign, hqmag, mag_of_length_one hlen]
  · have hylen := List.length_pos_iff.mpr hy0
    change 0 < y.digitLength at hylen
    refine (ensures_absoluteDivWithBigIntDivisor hx hy (by omega)
      (length_le_of_not_lt hx hy hge) id).bind fun r hr => ?_
    obtain ⟨q, hq, hqmax, hqne, hqval⟩ := hr.1 rfl
    simp only [hq, Option.getD_some]
    refine (ensures_trim hqmax fun hnil => absurd hnil hqne).imp fun q' hq' => ⟨hq'.1, ?_⟩
    rw [hq'.2, tdiv_toInt, hqval]

/-- **`BigInt::mod` is the remainder of truncated division.** -/
theorem ensures_mod (hx : x.WellFormed) (hy : y.WellFormed) (hy0 : y.digits ≠ []) :
    Ensures (mod x y) (MaxDigitLength W < x.digitLength + 1) fun r =>
      r.WellFormed ∧ r.toInt = x.toInt.tmod y.toInt := by
  refine .ite (fun h => absurd (isZero_iff.mp h) hy0) fun _ => ?_
  refine .ite (fun h => .pure ⟨hx, ?_⟩) fun hx0 => ?_
  · simp [hx.toInt_eq_zero_iff.mpr (isZero_iff.mp h)]
  refine .ite (fun h => .pure ⟨hx, ?_⟩) fun hge => ?_
  · rw [absoluteCompare_neg_iff hx hy] at h
    rw [tmod_toInt, Nat.mod_eq_of_lt h, toInt]
  refine .ite (fun hlen => ?_) fun hlen => ?_
  · refine .ite (fun h1 => ensures_zero.imp ?_) fun h1 => ?_
    · rintro r rfl
      have hy1 : y.mag = 1 := by rw [mag_of_length_one hlen, h1, toNat_one W.one_lt_bits]
      exact ⟨wellFormed_zero, by simp [tmod_toInt, hy1, Nat.mod_one]⟩
    · refine (ensures_absoluteDivWithDigitDivisor_none (one_lt_digit hy hlen h1)).bind
        fun r hr => ?_
      rw [← mag_of_length_one hlen] at hr
      refine .ite (fun h0 => ensures_zero.imp ?_) fun h0 =>
        (ensures_createFromDigit r.2).imp ?_
      · rintro r' rfl
        rw [h0, BitVec.toNat_ofNat, Nat.zero_mod] at hr
        exact ⟨wellFormed_zero, by simp [tmod_toInt, ← hr]⟩
      · rintro r' rfl
        exact ⟨wellFormed_digit h0, by simp [tmod_toInt, toInt_mk, hr]⟩
  · have hylen := List.length_pos_iff.mpr hy0
    change 0 < y.digitLength at hylen
    refine (ensures_absoluteDivWithBigIntDivisor hx hy (by omega)
      (length_le_of_not_lt hx hy hge) id).bind fun r hr => ?_
    obtain ⟨u, hu, humax, hune, husign, humag⟩ := hr.2 rfl
    simp only [hu, Option.getD_some]
    refine (ensures_trim humax fun hnil => absurd hnil hune).imp fun r' hr' => ⟨hr'.1, ?_⟩
    rw [hr'.2, tmod_toInt, toInt, husign, humag]

/-- **Division with remainder.**  Whenever `div` and `mod` both return, in whatever heaps and
whichever allocations of theirs succeed, their results are the truncated quotient and remainder;
and inside Algorithm D the digit of each step is exact, the estimate it starts from having been
corrected to that digit or one more. -/
theorem div_mod : (∀ {x y q r : BigInt W} {cx cx' : JSContext W} {heap₁ heap₁' heap₂ heap₂' : Heap},
      x.WellFormed → y.WellFormed → y.toInt ≠ 0 →
      div x y cx heap₁ = .ok (q, heap₁') → mod x y cx' heap₂ = .ok (r, heap₂') →
      x.toInt = y.toInt * q.toInt + r.toInt ∧ |r.toInt| < |y.toInt| ∧
      (r.toInt = 0 ∨ r.toInt.sign = x.toInt.sign) ∧ q.WellFormed ∧ r.WellFormed) ∧
    (∀ {v low window high : List (Digit W)}, 2 ≤ v.length →
      2 ^ (W.bits - 1) ≤ (v.getD (v.length - 1) 0#_).toNat → window.length = v.length + 1 →
      val window < val v * 2 ^ W.bits →
      val window / val v ≤ (estimateQhat v (window ++ high)).toNat ∧
      (estimateQhat v (window ++ high)).toNat ≤ val window / val v + 1 ∧
      (divStep v low.length (low ++ window ++ high)).2.toNat = val window / val v) := by
  refine ⟨?_, ?_⟩
  · intro x y q r cx cx' heap₁ heap₁' heap₂ heap₂' hx hy hy0 hdiv hmod
    have hyne : y.digits ≠ [] := fun h => hy0 (hy.toInt_eq_zero_iff.mpr h)
    obtain ⟨hqwf, hq⟩ := (ensures_div hx hy hyne).of_ok hdiv
    obtain ⟨hrwf, hr⟩ := (ensures_mod hx hy hyne).of_ok hmod
    refine ⟨?_, ?_, ?_, hqwf, hrwf⟩
    · rw [hq, hr]; exact (Int.mul_tdiv_add_tmod _ _).symm
    · rw [hr, Int.abs_eq_natAbs, Int.abs_eq_natAbs, Int.natAbs_tmod]
      exact_mod_cast Nat.mod_lt _ (Int.natAbs_pos.mpr hy0)
    · rw [hr, Int.sign_tmod]
      split
      next h => exact .inl (Int.tmod_eq_zero_of_dvd h)
      next => exact .inr rfl
  · intro v low window high hn hnorm hlen hlt
    obtain ⟨hge, hle⟩ := estimateQhat_spec W.one_lt_bits hn hlen hnorm hlt
    rw [estimateQhat_append_right hn hlen]
    obtain ⟨_, -, -, -, hdigit⟩ := divStep_spec W.one_lt_bits hn hnorm low high hlen hlt
    omega

/-- Three digits by three, with digits that need the add-back. -/
theorem div_mod_addBack : ((⟨true, [3#32, 0#32, 0x80000000#32]⟩ : BigInt .bits32).toInt =
      (⟨false, [1#32, 0#32, 0x20000000#32]⟩ : BigInt .bits32).toInt * (⟨true, [3#32]⟩ : BigInt .bits32).toInt +
        (⟨true, [0#32, 0#32, 0x20000000#32]⟩ : BigInt .bits32).toInt) ∧
    (divStep [4#32, 0#32, 0x80000000#32] ([] : List (Digit .bits32)).length
        ([] ++ [12#32, 0#32, 0#32, 2#32] ++ [])).2.toNat =
      val [12#32, 0#32, 0#32, 2#32] / val [4#32, 0#32, 0x80000000#32] := by
  have hdiv : div (W := .bits32) ⟨true, [3#32, 0#32, 0x80000000#32]⟩
      ⟨false, [1#32, 0#32, 0x20000000#32]⟩ (.infallible 5#32) .init =
      .ok (⟨true, [3#32]⟩, ⟨7, false⟩) := by decide
  have hmod : mod (W := .bits32) ⟨true, [3#32, 0#32, 0x80000000#32]⟩
      ⟨false, [1#32, 0#32, 0x20000000#32]⟩ (.infallible 5#32) .init =
      .ok (⟨true, [0#32, 0#32, 0x20000000#32]⟩, ⟨7, false⟩) := by decide
  exact ⟨(div_mod.1 (by decide) (by decide) (by decide) hdiv hmod).1,
    ((div_mod (W := .bits32)).2 (v := [4#32, 0#32, 0x80000000#32])
      (by decide) (by decide) (by decide) (by decide)).2.2⟩

end BigInt

end SpiderMonkey
