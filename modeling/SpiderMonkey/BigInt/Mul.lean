import SpiderMonkey.BigInt.AddSub

/-!
# Multiplication

`mul` multiplies magnitudes of up to 64 bits as words, where the product is one; otherwise it
adds the multiples of `y` by the digits of `x` into the result, one after the other.
-/

namespace SpiderMonkey

open Radix List

variable {w : ℕ}

/-! ## Multiplying and accumulating -/

/-- The tail of `multiplyAccumulate`: what is left of `high` and `carry` goes into the digits that
follow; `none` where there is no digit to write. -/
def carryTail : List (BitVec w) → BitVec w → BitVec w → Option (List (BitVec w))
  | [], high, carry => if carry ≠ 0#w ∨ high ≠ 0#w then none else some []
  | d :: accumulator, high, carry =>
    if carry ≠ 0#w ∨ high ≠ 0#w then
      let (acc, newCarry) := digitAdd d high 0#w
      let (acc, newCarry) := digitAdd acc carry newCarry
      (carryTail accumulator 0#w newCarry).map (acc :: ·)
    else some (d :: accumulator)

/-- The rounds of `multiplyAccumulate` over the digits of the multiplicand. -/
def accumulateLoop (multiplier : BitVec w) :
    List (BitVec w) → List (BitVec w) → BitVec w → BitVec w → Option (List (BitVec w))
  | accumulator, [], high, carry => carryTail accumulator high carry
  | [], _ :: _, _, _ => none
  | d :: accumulator, multiplicandDigit :: multiplicand, high, carry =>
    -- Add last round's carryovers.
    let (acc, newCarry) := digitAdd d high 0#w
    let (acc, newCarry) := digitAdd acc carry newCarry
    -- Compute this round's multiplication.
    let (low, high) := digitMul multiplier multiplicandDigit
    let (acc, newCarry) := digitAdd acc low newCarry
    (accumulateLoop multiplier accumulator multiplicand high newCarry).map (acc :: ·)

/-- Three summands leave a carry of at most two. -/
lemma digitAdd_three (hw : 1 < w) (d s t u : BitVec w) (ht : t.toNat ≤ 2) :
    let p := digitAdd d s 0#w
    let q := digitAdd p.1 t p.2
    let r := digitAdd q.1 u q.2
    q.1.toNat + 2 ^ w * q.2.toNat = d.toNat + s.toNat + t.toNat ∧
      r.1.toNat + 2 ^ w * r.2.toNat = d.toNat + s.toNat + t.toNat + u.toNat ∧
      q.2.toNat ≤ 2 ∧ r.2.toNat ≤ 2 := by
  intro p q r
  have hB : 4 ≤ 2 ^ w := by
    calc 4 = 2 ^ 2 := rfl
      _ ≤ 2 ^ w := Nat.pow_le_pow_right (by norm_num) hw
  have hd := d.isLt
  have hs := s.isLt
  have hu := u.isLt
  have hp : p.1.toNat + 2 ^ w * p.2.toNat = d.toNat + s.toNat := by
    simpa using digitAdd_spec hw d s 0#w (by simp; omega)
  have hp2 : p.2.toNat ≤ 1 := by
    by_contra h
    have hle : 2 ^ w * 2 ≤ 2 ^ w * p.2.toNat := Nat.mul_le_mul_left _ (by omega)
    omega
  have hq := digitAdd_spec hw p.1 t p.2 (by omega)
  have hq' : q.1.toNat + 2 ^ w * q.2.toNat = d.toNat + s.toNat + t.toNat := by
    change q.1.toNat + 2 ^ w * q.2.toNat = _ at hq
    omega
  have hq2 : q.2.toNat ≤ 2 := by
    by_contra h
    have hle : 2 ^ w * 3 ≤ 2 ^ w * q.2.toNat := Nat.mul_le_mul_left _ (by omega)
    omega
  have hr := digitAdd_spec hw q.1 u q.2 (by omega)
  have hr' : r.1.toNat + 2 ^ w * r.2.toNat = d.toNat + s.toNat + t.toNat + u.toNat := by
    change r.1.toNat + 2 ^ w * r.2.toNat = _ at hr
    omega
  refine ⟨hq', hr', hq2, ?_⟩
  by_contra h
  have hle : 2 ^ w * 3 ≤ 2 ^ w * r.2.toNat := Nat.mul_le_mul_left _ (by omega)
  omega

/-- A sum that the digits have room for is written into them. -/
lemma carryTail_spec (hw : 1 < w) : ∀ (accumulator : List (BitVec w)) (high carry : BitVec w), carry.toNat ≤ 2 →
    val accumulator + high.toNat + carry.toNat < (2 ^ w) ^ accumulator.length →
    ∃ digits, carryTail accumulator high carry = some digits ∧
      val digits = val accumulator + high.toNat + carry.toNat ∧ digits.length = accumulator.length
  | [], high, carry, _, hlt => by
    rw [val_nil, length_nil, pow_zero] at hlt
    have hhigh : high = 0#w := BitVec.eq_of_toNat_eq (by simp; omega)
    have hcarry : carry = 0#w := BitVec.eq_of_toNat_eq (by simp; omega)
    subst hhigh hcarry
    exact ⟨[], by simp [carryTail], by simp, rfl⟩
  | d :: accumulator, high, carry, hc, hlt => by
    rw [carryTail]
    split_ifs with hleft
    · obtain ⟨hsum, -, hle, -⟩ := digitAdd_three hw d high carry 0#w hc
      rw [val_cons, length_cons, pow_succ'] at hlt
      simp only
      generalize digitAdd (digitAdd d high 0#w).1 carry (digitAdd d high 0#w).2 = q at *
      have hroom : val accumulator + (0#w).toNat + q.2.toNat < (2 ^ w) ^ accumulator.length := by
        rw [BitVec.toNat_ofNat, Nat.zero_mod, Nat.add_zero]
        refine Nat.lt_of_mul_lt_mul_left (a := 2 ^ w) (lt_of_le_of_lt ?_ hlt)
        rw [Nat.mul_add]
        omega
      obtain ⟨digits, heq, hval, hlen⟩ := carryTail_spec hw accumulator 0#w q.2 (by omega) hroom
      refine ⟨q.1 :: digits, by rw [heq]; rfl, ?_, by simp [hlen]⟩
      rw [BitVec.toNat_ofNat, Nat.zero_mod, Nat.add_zero] at hval
      rw [val_cons, val_cons, hval, Nat.mul_add]
      omega
    · rw [not_or, not_not, not_not] at hleft
      obtain ⟨rfl, rfl⟩ := hleft
      exact ⟨_, rfl, by simp, rfl⟩

/-- So is a product added to what is there. -/
lemma accumulateLoop_spec (hw : 1 < w) (multiplier : BitVec w) :
    ∀ (accumulator multiplicand : List (BitVec w)) (high carry : BitVec w), carry.toNat ≤ 2 →
    val accumulator + val multiplicand * multiplier.toNat + high.toNat + carry.toNat < (2 ^ w) ^ accumulator.length →
    multiplicand.length ≤ accumulator.length →
    ∃ digits, accumulateLoop multiplier accumulator multiplicand high carry = some digits ∧
      val digits = val accumulator + val multiplicand * multiplier.toNat + high.toNat + carry.toNat ∧
      digits.length = accumulator.length
  | accumulator, [], high, carry, hc, hlt, _ => by
    rw [val_nil, Nat.zero_mul, Nat.add_zero] at hlt ⊢
    obtain ⟨digits, heq, hval, hlen⟩ := carryTail_spec hw accumulator high carry hc hlt
    exact ⟨digits, by rw [← heq]; cases accumulator <;> rfl, hval, hlen⟩
  | [], _ :: _, _, _, _, _, hlen => absurd hlen (by simp)
  | d :: accumulator, m :: multiplicand, high, carry, hc, hlt, hlen => by
    obtain ⟨-, hsum, -, hle⟩ := digitAdd_three hw d high carry (digitMul multiplier m).1 hc
    have hmul := digitMul_spec multiplier m
    rw [val_cons, val_cons, length_cons, pow_succ', Nat.add_mul] at hlt
    rw [accumulateLoop]
    simp only
    generalize digitMul multiplier m = p at *
    generalize digitAdd (digitAdd (digitAdd d high 0#w).1 carry (digitAdd d high 0#w).2).1 p.1
      (digitAdd (digitAdd d high 0#w).1 carry (digitAdd d high 0#w).2).2 = r at *
    have hround : r.1.toNat + 2 ^ w * (val accumulator + val multiplicand * multiplier.toNat + p.2.toNat + r.2.toNat) =
        d.toNat + 2 ^ w * val accumulator + (m.toNat * multiplier.toNat + 2 ^ w * val multiplicand * multiplier.toNat) +
          high.toNat + carry.toNat := by
      linear_combination hsum + hmul
    have hroom : val accumulator + val multiplicand * multiplier.toNat + p.2.toNat + r.2.toNat <
        (2 ^ w) ^ accumulator.length := by
      refine Nat.lt_of_mul_lt_mul_left (a := 2 ^ w) (lt_of_le_of_lt ?_ hlt)
      omega
    obtain ⟨digits, heq, hval, hdigits⟩ :=
      accumulateLoop_spec hw multiplier accumulator multiplicand p.2 r.2 hle hroom (by simpa using hlen)
    refine ⟨r.1 :: digits, by rw [heq]; rfl, ?_, by simp [hdigits]⟩
    rw [val_cons, hval, val_cons, val_cons, Nat.add_mul, hround]

namespace BigInt

variable {W : DigitWidth} {T : Prop} {x y : BigInt W} {sign : Bool}

/-- `accumulator` has been created and its digits initialised. -/
def multiplyAccumulate (multiplicand : BigInt W) (multiplier : Digit W) (accumulator : BigInt W)
    (accumulatorIndex : ℕ) : Run W (BigInt W) := do
  mozAssert (accumulator.digitLength > multiplicand.digitLength + accumulatorIndex)
  if multiplier = 0#_ then return accumulator
  else
    match accumulateLoop multiplier (accumulator.digits.drop accumulatorIndex) multiplicand.digits 0#_ 0#_ with
    | none => throw .outOfBounds
    | some digits => return { accumulator with digits := accumulator.digits.take accumulatorIndex ++ digits }

/-- `for (i = 0; i < x->digitLength(); i++) multiplyAccumulate(y, x->digit(i), result, i)`, for the digits from `i` on. -/
def multiplyLoop (y : BigInt W) : List (Digit W) → ℕ → BigInt W → Run W (BigInt W)
  | [], _, result => return result
  | d :: digits, i, result => do
    let result ← multiplyAccumulate y d result i
    multiplyLoop y digits (i + 1) result

/-- The product of two words, unless it overflows. -/
def safeMul (one two : BitVec 64) : Option (BitVec 64) :=
  if one.toNat * two.toNat < 2 ^ 64 then some (one * two) else none

/-- The path of `mul` over the digits. -/
def mulDigits (x y : BigInt W) (resultNegative : Bool) : Run W (BigInt W) := do
  let resultLength := x.digitLength + y.digitLength
  let result ← createUninitialized resultLength resultNegative
  let result ← result.setDigits 0 (List.replicate resultLength 0#_)
  let result ← result.publish
  let result ← multiplyLoop y x.digits 0 result
  destructivelyTrimHighZeroDigits result

def mul (x y : BigInt W) : Run W (BigInt W) :=
  if x.isZero then return x
  else if y.isZero then return y
  else
    let resultNegative := x.isNegative != y.isNegative
    if x.absFitsInUint64 && y.absFitsInUint64 then
      match safeMul x.uint64FromAbsNonZero y.uint64FromAbsNonZero with
      | some res => createFromNonZeroRawUint64 res resultNegative
      | none => mulDigits x y resultNegative
    else mulDigits x y resultNegative

lemma safeMul_eq_some {a b r : BitVec 64} (h : safeMul a b = some r) : r.toNat = a.toNat * b.toNat := by
  rw [safeMul] at h
  split_ifs at h with hlt
  rw [← Option.some.inj h, BitVec.toNat_mul, Nat.mod_eq_of_lt hlt]

/-- After the digits below `i`, the result is their number times `y`. -/
lemma ensures_multiplyLoop (y : BigInt W) (digits : List (Digit W)) (i : ℕ) (result : BigInt W) (low : ℕ)
    (hlow : low < (2 ^ W.bits) ^ i) (hlen : result.digitLength = i + digits.length + y.digitLength)
    (hval : result.mag = low * y.mag) :
    Ensures (multiplyLoop y digits i result) T fun r =>
      r.isNegative = result.isNegative ∧ r.digitLength = result.digitLength ∧
      r.mag = (low + (2 ^ W.bits) ^ i * val digits) * y.mag := by
  induction digits generalizing i result low with
  | nil =>
    simpa using .pure ⟨rfl, rfl, hval⟩
  | cons d digits ih =>
    have hylt := y.mag_lt
    have hd := d.isLt
    rw [length_cons] at hlen
    have hnext : low + (2 ^ W.bits) ^ i * d.toNat < (2 ^ W.bits) ^ (i + 1) := by
      rw [pow_succ]
      calc low + (2 ^ W.bits) ^ i * d.toNat < (2 ^ W.bits) ^ i * (d.toNat + 1) := by rw [Nat.mul_add]; omega
        _ ≤ (2 ^ W.bits) ^ i * 2 ^ W.bits := Nat.mul_le_mul_left _ hd
    have hsplit := val_take_add_drop result.digits i (by change i ≤ result.digitLength; omega)
    have hstep : Ensures (multiplyAccumulate y d result i) T fun r =>
        r.isNegative = result.isNegative ∧ r.digitLength = result.digitLength ∧
        r.mag = (low + (2 ^ W.bits) ^ i * d.toNat) * y.mag := by
      unfold multiplyAccumulate
      refine (ensures_mozAssert (by omega)).bind fun _ _ => ?_
      refine .ite (fun h0 => .pure ⟨rfl, rfl, ?_⟩) fun _ => ?_
      · rw [h0, hval]
        simp
      have hdrop : (result.digits.drop i).length = digits.length + 1 + y.digitLength := by
        rw [length_drop]
        change result.digitLength - i = _
        omega
      -- what is there from digit `i` on is less than the multiplicand's digits can hold
      have hupper : val (result.digits.drop i) < (2 ^ W.bits) ^ y.digitLength := by
        refine Nat.lt_of_mul_lt_mul_left (a := (2 ^ W.bits) ^ i) ?_
        calc (2 ^ W.bits) ^ i * val (result.digits.drop i) ≤ result.mag := by
              change _ ≤ val result.digits
              omega
          _ = low * y.mag := hval
          _ ≤ (2 ^ W.bits) ^ i * y.mag := Nat.mul_le_mul_right _ hlow.le
          _ < (2 ^ W.bits) ^ i * (2 ^ W.bits) ^ y.digitLength :=
              Nat.mul_lt_mul_of_pos_left hylt (by positivity)
      have hroom : val (result.digits.drop i) + val y.digits * d.toNat + (0#W.bits).toNat + (0#W.bits).toNat <
          (2 ^ W.bits) ^ (result.digits.drop i).length := by
        rw [hdrop, BitVec.toNat_ofNat, Nat.zero_mod, Nat.add_zero, Nat.add_zero]
        calc val (result.digits.drop i) + val y.digits * d.toNat
            ≤ val (result.digits.drop i) + (2 ^ W.bits) ^ y.digitLength * d.toNat :=
              Nat.add_le_add_left (Nat.mul_le_mul_right _ hylt.le) _
          _ < (2 ^ W.bits) ^ y.digitLength * (d.toNat + 1) := by rw [Nat.mul_add]; omega
          _ ≤ (2 ^ W.bits) ^ y.digitLength * 2 ^ W.bits := Nat.mul_le_mul_left _ hd
          _ = (2 ^ W.bits) ^ (y.digitLength + 1) := (pow_succ _ _).symm
          _ ≤ (2 ^ W.bits) ^ (digits.length + 1 + y.digitLength) :=
              Nat.pow_le_pow_right (by positivity) (by omega)
      obtain ⟨ds, heq, hds, hdslen⟩ := accumulateLoop_spec W.one_lt_bits d (result.digits.drop i) y.digits 0#_ 0#_
        (by simp) hroom (by rw [hdrop]; change y.digitLength ≤ _; omega)
      rw [heq]
      refine .pure ⟨rfl, ?_, ?_⟩
      · change (result.digits.take i ++ ds).length = result.digits.length
        rw [List.length_append, hdslen, ← List.length_append, take_append_drop]
      · change val (result.digits.take i ++ ds) = _
        have htake : (result.digits.take i).length = i := by
          rw [length_take, min_eq_left]
          change i ≤ result.digitLength
          omega
        simp only [BitVec.toNat_ofNat, Nat.zero_mod, Nat.add_zero] at hds
        rw [val_append, htake, hds, Nat.add_mul, ← hval]
        change _ = val result.digits + _
        rw [hsplit]
        change _ = _ + _ * val y.digits
        ring
    refine hstep.bind fun r hr => ?_
    obtain ⟨hneg, hrlen, hrval⟩ := hr
    refine (ih (i + 1) r _ hnext (by omega) hrval).imp fun r' hr' => ?_
    refine ⟨hr'.1.trans hneg, hr'.2.1.trans hrlen, ?_⟩
    rw [hr'.2.2, val_cons, pow_succ]
    ring

lemma signed_mul (s t : Bool) (m n : ℕ) : signed (s != t) (m * n) = signed s m * signed t n := by
  cases s <;> cases t <;> simp [signed]

lemma ensures_mulDigits (hx : x.digits ≠ []) (hT : MaxDigitLength W < x.digitLength + y.digitLength → T) :
    Ensures (mulDigits x y sign) T fun r => r.WellFormed ∧ r.toInt = signed sign (x.mag * y.mag) := by
  unfold mulDigits
  refine (ensures_createUninitialized hT).bind fun c hc => ?_
  refine (ensures_setDigits_all _ (by simp [hc.2.1])).bind fun c' hc' => ?_
  rw [hc', hc.1]
  refine (ensures_publish _).bind fun result hresult => ?_
  have hlen : result.digitLength = x.digitLength + y.digitLength := by
    rw [hresult]
    exact length_replicate
  have hmag : result.mag = 0 := by
    rw [hresult]
    exact val_replicate_zero _
  refine (ensures_multiplyLoop y x.digits 0 result 0 (by simp) (by rw [hlen, Nat.zero_add]; rfl)
    (by simp [hmag])).bind fun r hr => ?_
  obtain ⟨hneg, hrlen, hrval⟩ := hr
  rw [pow_zero, Nat.one_mul, Nat.zero_add] at hrval
  refine (ensures_trim ?_ fun hnil => ?_).imp fun r' hr' => ⟨hr'.1, ?_⟩
  · rw [hrlen, hlen]
    exact hc.2.2
  · have hpos := length_pos_of_ne_nil hx
    have hrzero : r.digitLength = 0 := by rw [digitLength, hnil, length_nil]
    change 0 < x.digitLength at hpos
    omega
  · rw [hr'.2, toInt_eq_signed, hneg, hrval, hresult]
    rfl

/-- `mul` multiplies; it fails with the size limit only when the operands together have more digits. -/
theorem ensures_mul (hx : x.WellFormed) (hy : y.WellFormed)
    (hT : MaxDigitLength W < x.digitLength + y.digitLength → T) :
    Ensures (mul x y) T fun r => r.WellFormed ∧ r.toInt = x.toInt * y.toInt := by
  unfold mul
  refine .ite (fun h => .pure ⟨hx, ?_⟩) fun hx0 => .ite (fun h => .pure ⟨hy, ?_⟩) fun hy0 => ?_
  · rw [hx.toInt_eq_zero_iff.2 (isZero_iff.1 h), zero_mul]
  · rw [hy.toInt_eq_zero_iff.2 (isZero_iff.1 h), mul_zero]
  rw [isZero_iff] at hx0 hy0
  have hdigits : Ensures (mulDigits x y (x.isNegative != y.isNegative)) T fun r =>
      r.WellFormed ∧ r.toInt = x.toInt * y.toInt :=
    (ensures_mulDigits hx0 hT).imp fun r hr => ⟨hr.1, hr.2.trans (signed_mul _ _ _ _)⟩
  refine .ite (fun hfits => ?_) fun _ => hdigits
  rw [Bool.and_eq_true] at hfits
  cases hmul : safeMul x.uint64FromAbsNonZero y.uint64FromAbsNonZero with
  | none => exact hdigits
  | some res =>
    have hres := safeMul_eq_some hmul
    rw [toNat_uint64_of_fits hfits.1, toNat_uint64_of_fits hfits.2] at hres
    have hpos := Nat.mul_pos (hx.mag_pos hx0) (hy.mag_pos hy0)
    refine (ensures_createFromNonZeroRawUint64 fun h0 => ?_).imp fun r hr => ⟨hr.1, ?_⟩
    · rw [h0, BitVec.toNat_ofNat, Nat.zero_mod] at hres
      omega
    · rw [hr.2, hres]
      exact signed_mul _ _ _ _

end BigInt

end SpiderMonkey
