import SpiderMonkey.BigInt.Compare
import SpiderMonkey.BigInt.Digit
import SpiderMonkey.BigInt.Word

/-!
# Addition and subtraction

`add` and `sub` look at the signs and hand over to `absoluteAdd` and `absoluteSub`, which have a
path for magnitudes of up to 64 bits next to their loops over the digits.
-/

namespace SpiderMonkey

open Radix List

namespace BigInt

variable {W : DigitWidth} {T : Prop} {x y : BigInt W} {sign : Bool}

/-! ## Magnitudes -/

variable (n : BitVec 64)

def createFromNonZeroRawUint64 (isNegative : Bool) : Run W (BigInt W) := do
  mozAssert (n ≠ 0#64)
  let resultLength := if W.bits = 32 ∧ n >>> 32 ≠ 0#64 then 2 else 1
  let result ← createUninitialized resultLength isNegative
  let result ← result.setDigits 0 ([n.setWidth W.bits] ++
    if W.bits = 32 ∧ resultLength > 1 then [(n >>> 32).setWidth W.bits] else [])
  result.publish

/-- The digits of the sum of two magnitudes of 64 bits, `res`, and of the overflow. -/
def sumDigits (W : DigitWidth) (res : BitVec 64) (overflow : Bool) : List (Digit W) :=
  let resultLength :=
    if W.bits = 32 then if overflow then 3 else if res >>> 32 ≠ 0#64 then 2 else 1
    else if overflow then 2 else 1
  [res.setWidth W.bits] ++ (if W.bits = 32 ∧ resultLength > 1 then [(res >>> 32).setWidth W.bits] else []) ++
    if overflow then [1#_] else []

/-- The digits of `left + right`, for `left` with at least as many digits. -/
def addDigits (left right : List (Digit W)) : List (Digit W) :=
  let (low, carry) := addLoop (left.take right.length) right 0#_
  let (high, carry) := carryLoop (left.drop right.length) carry
  low ++ high ++ [carry]

def absoluteAdd (x y : BigInt W) (resultNegative : Bool) : Run W (BigInt W) :=
  -- Ensure `left` has at least as many digits as `right`.
  let swap := x.digitLength < y.digitLength
  let left := if swap then y else x
  let right := if swap then x else y
  if left.isZero then return left
  else if right.isZero then
    if resultNegative = left.isNegative then return left else neg left
  else if left.absFitsInUint64 then do
    let lhs := left.uint64FromAbsNonZero
    let rhs := right.uint64FromAbsNonZero
    let res := lhs + rhs
    let overflow := res < lhs
    mozAssert (res ≠ 0#64 ∨ overflow)
    let digits := sumDigits W res overflow
    let result ← createUninitialized digits.length resultNegative
    let result ← result.setDigits 0 digits
    result.publish
  else do
    let result ← createUninitialized (left.digitLength + 1) resultNegative
    let result ← result.setDigits 0 (addDigits left.digits right.digits)
    let result ← result.publish
    destructivelyTrimHighZeroDigits result

/-- The digits of `x - y`, for `x` with at least as many digits, and the last borrow. -/
def subDigits (x y : List (Digit W)) : List (Digit W) × Digit W :=
  let (low, borrow) := subLoop (x.take y.length) y 0#_
  let (high, borrow) := borrowLoop (x.drop y.length) borrow
  (low ++ high, borrow)

def absoluteSub (x y : BigInt W) (resultNegative : Bool) : Run W (BigInt W) := do
  mozAssert (x.digitLength ≥ y.digitLength)
  mozAssert (absoluteCompare x y > 0)
  mozAssert (¬ x.isZero)
  if y.isZero then
    if resultNegative = x.isNegative then return x else neg x
  else if x.absFitsInUint64 then do
    let lhs := x.uint64FromAbsNonZero
    let rhs := y.uint64FromAbsNonZero
    mozAssert (lhs > rhs)
    createFromNonZeroRawUint64 (lhs - rhs) resultNegative
  else do
    let result ← createUninitialized x.digitLength resultNegative
    let (digits, borrow) := subDigits x.digits y.digits
    let result ← result.setDigits 0 digits
    mozAssert (borrow = 0#_)
    let result ← result.publish
    destructivelyTrimHighZeroDigits result

def add (x y : BigInt W) : Run W (BigInt W) :=
  let xNegative := x.isNegative
  -- x + y == x + y, -x + -y == -(x + y)
  if xNegative = y.isNegative then absoluteAdd x y xNegative
  else
    -- x + -y == x - y == -(y - x), -x + y == y - x == -(x - y)
    let compare := absoluteCompare x y
    if compare = 0 then zero
    else if compare > 0 then absoluteSub x y xNegative
    else absoluteSub y x (!xNegative)

def sub (x y : BigInt W) : Run W (BigInt W) :=
  let xNegative := x.isNegative
  -- x - (-y) == x + y, (-x) - y == -(x + y)
  if xNegative ≠ y.isNegative then absoluteAdd x y xNegative
  else
    -- x - y == -(y - x), (-x) - (-y) == y - x == -(x - y)
    let compare := absoluteCompare x y
    if compare = 0 then zero
    else if compare > 0 then absoluteSub x y xNegative
    else absoluteSub y x (!xNegative)

/-! ## Words of 64 bits -/

/-- The integer with a sign and a magnitude. -/
def signed (sign : Bool) (magnitude : ℕ) : ℤ := if sign then -(magnitude : ℤ) else magnitude

@[simp] lemma natAbs_signed (sign : Bool) (n : ℕ) : (signed sign n).natAbs = n := by
  cases sign <;> simp [signed]

@[simp] lemma signed_not (sign : Bool) (n : ℕ) : signed (!sign) n = -signed sign n := by
  cases sign <;> simp [signed]

lemma signed_add (sign : Bool) (m n : ℕ) : signed sign (m + n) = signed sign m + signed sign n := by
  cases sign <;> simp [signed, add_comm]

lemma toInt_eq_signed (x : BigInt W) : x.toInt = signed x.isNegative x.mag := rfl

lemma toNat_setWidth_digit : (n.setWidth W.bits).toNat = n.toNat % 2 ^ W.bits := BitVec.toNat_setWidth _ _

lemma toNat_high : (n >>> 32).toNat = n.toNat / 2 ^ 32 := by
  simp [Nat.shiftRight_eq_div_pow]

lemma high_ne_zero : n >>> 32 ≠ 0#64 ↔ n.toNat / 2 ^ 32 ≠ 0 := by
  rw [ne_eq, ne_eq, ← toNat_high, ← BitVec.toNat_inj]
  simp

lemma three_le_maxDigitLength (W : DigitWidth) : 3 ≤ MaxDigitLength W := by cases W <;> decide

lemma val_rawDigits (hn : n ≠ 0#64) : let resultLength := if W.bits = 32 ∧ n >>> 32 ≠ 0#64 then 2 else 1
    let digits : List (Digit W) := [n.setWidth W.bits] ++
      if W.bits = 32 ∧ resultLength > 1 then [(n >>> 32).setWidth W.bits] else []
    digits.length = resultLength ∧ val digits = n.toNat ∧ NoHighZero digits := by
  have hlt := n.isLt
  have hpos : n.toNat ≠ 0 := fun h => hn (BitVec.eq_of_toNat_eq (by simpa using h))
  have hlow := toNat_setWidth_digit (W := W) n
  intro resultLength digits
  by_cases hhigh : W.bits = 32 ∧ n >>> 32 ≠ 0#64
  · have hr : resultLength = 2 := if_pos hhigh
    have hd : digits = [n.setWidth W.bits] ++ [(n >>> 32).setWidth W.bits] := by
      simp [digits, hr, hhigh.1]
    have h32 : 2 ^ W.bits = 2 ^ 32 := by rw [hhigh.1]
    have hne := (high_ne_zero n).1 hhigh.2
    have hupper := toNat_setWidth_digit (W := W) (n >>> 32)
    rw [toNat_high, h32, Nat.mod_eq_of_lt (by omega)] at hupper
    rw [h32] at hlow
    refine ⟨by rw [hd, hr]; rfl, ?_, ?_⟩
    · rw [hd, val_concat, length_singleton, pow_one, val_cons, val_nil, hlow, hupper, h32]
      omega
    · rw [hd, noHighZero_concat]
      intro h0
      rw [h0] at hupper
      simp at hupper
      omega
  · have hr : resultLength = 1 := if_neg hhigh
    have hd : digits = [n.setWidth W.bits] := by
      simp [digits, hr]
    have hsmall : n.toNat % 2 ^ W.bits = n.toNat := by
      refine Nat.mod_eq_of_lt ?_
      rcases W.bits_eq with hW | hW
      · have h0 : ¬ n.toNat / 2 ^ 32 ≠ 0 := fun h => hhigh ⟨hW, (high_ne_zero n).2 h⟩
        rw [hW]
        omega
      · rw [hW]
        exact hlt
    rw [hsmall] at hlow
    refine ⟨by rw [hd, hr]; rfl, by rw [hd]; simp [hlow], ?_⟩
    rw [hd]
    refine (noHighZero_concat [] _).2 fun h0 => hpos ?_
    rw [← hlow, h0]
    simp

lemma ensures_createFromNonZeroRawUint64 {n : BitVec 64} (hn : n ≠ 0#64) :
    Ensures (createFromNonZeroRawUint64 (W := W) n sign) T fun r =>
      r.WellFormed ∧ r.toInt = signed sign n.toNat := by
  obtain ⟨hlen, hval, hhigh⟩ := val_rawDigits (W := W) n hn
  have hmax := three_le_maxDigitLength W
  have hle : (if W.bits = 32 ∧ n >>> 32 ≠ 0#64 then 2 else 1) ≤ 2 := by split <;> omega
  refine (ensures_mozAssert hn).bind fun _ _ => ?_
  refine (ensures_fill _ hlen fun h => absurd h (by omega)).imp ?_
  rintro r ⟨rfl, -⟩
  refine ⟨⟨hhigh, fun h => absurd h (by simp), ?_⟩, by rw [toInt_mk, hval]; rfl⟩
  exact (hlen.le.trans hle).trans (by omega)

/-! ## Sums and differences of magnitudes -/

lemma val_sumDigits (lhs rhs : BitVec 64) (hpos : 0 < lhs.toNat) :
    (sumDigits W (lhs + rhs) (lhs + rhs < lhs)).length ≤ 3 ∧
      val (sumDigits W (lhs + rhs) (lhs + rhs < lhs)) = lhs.toNat + rhs.toNat ∧
      NoHighZero (sumDigits W (lhs + rhs) (lhs + rhs < lhs)) := by
  have hr := rhs.isLt
  have hone := toNat_one W.one_lt_bits
  have hne : (1#W.bits) ≠ 0#_ := fun h => by rw [h] at hone; simp at hone
  by_cases hover : lhs.toNat + rhs.toNat < 2 ^ 64
  · -- no overflow: the digits of the word
    have hsum : (lhs + rhs).toNat = lhs.toNat + rhs.toNat := by
      rw [BitVec.toNat_add, Nat.mod_eq_of_lt hover]
    have hno : ¬ lhs + rhs < lhs := by rw [BitVec.lt_def, hsum]; omega
    have hnz : lhs + rhs ≠ 0#64 := fun h => by rw [h] at hsum; simp at hsum; omega
    obtain ⟨hlen, hval, hhigh⟩ := val_rawDigits (W := W) (lhs + rhs) hnz
    have hdigits : sumDigits W (lhs + rhs) (lhs + rhs < lhs) = [(lhs + rhs).setWidth W.bits] ++
        if W.bits = 32 ∧ (if W.bits = 32 ∧ (lhs + rhs) >>> 32 ≠ 0#64 then 2 else 1) > 1 then
          [((lhs + rhs) >>> 32).setWidth W.bits] else [] := by
      rw [sumDigits, decide_eq_false hno]
      by_cases hW : W.bits = 32 <;> simp [hW]
    rw [hdigits]
    refine ⟨hlen.le.trans ?_, hval.trans hsum, hhigh⟩
    split <;> omega
  · have hsum : (lhs + rhs).toNat = lhs.toNat + rhs.toNat - 2 ^ 64 := by
      rw [BitVec.toNat_add, Nat.mod_eq_sub_mod (Nat.le_of_not_lt hover), Nat.mod_eq_of_lt (by omega)]
    have hyes : lhs + rhs < lhs := by rw [BitVec.lt_def, hsum]; omega
    have hlow := toNat_setWidth_digit (W := W) (lhs + rhs)
    have hhigh := toNat_setWidth_digit (W := W) ((lhs + rhs) >>> 32)
    rw [toNat_high] at hhigh
    rcases W.bits_eq with hW | hW
    · have h32 : 2 ^ W.bits = 2 ^ 32 := by rw [hW]
      have hdigits : sumDigits W (lhs + rhs) (lhs + rhs < lhs) =
          [(lhs + rhs).setWidth W.bits, ((lhs + rhs) >>> 32).setWidth W.bits] ++ [1#_] := by
        rw [sumDigits, decide_eq_true hyes]
        simp [hW]
      rw [h32] at hlow hhigh
      rw [hdigits, val_concat, noHighZero_concat]
      refine ⟨le_rfl, ?_, hne⟩
      rw [val_cons, val_cons, val_nil, hlow, hhigh, hone, h32, hsum]
      simp only [length_cons, length_nil]
      omega
    · have h64 : 2 ^ W.bits = 2 ^ 64 := by rw [hW]
      have hdigits : sumDigits W (lhs + rhs) (lhs + rhs < lhs) = [(lhs + rhs).setWidth W.bits] ++ [1#_] := by
        rw [sumDigits, decide_eq_true hyes]
        simp [hW]
      rw [h64] at hlow
      rw [hdigits, val_concat, noHighZero_concat]
      refine ⟨by simp, ?_, hne⟩
      rw [val_cons, val_nil, hlow, hone, h64, hsum]
      simp only [length_cons, length_nil]
      omega

lemma val_addDigits (left right : List (Digit W)) (h : right.length ≤ left.length) :
    val (addDigits left right) = val left + val right ∧ (addDigits left right).length = left.length + 1 := by
  have htake : (left.take right.length).length = right.length := by simp [h]
  have hdrop : (left.drop right.length).length = left.length - right.length := by simp
  obtain ⟨hval, hcarry, hlen⟩ := addLoop_spec W.one_lt_bits (left.take right.length) right 0#_ (by omega) (by simp)
  obtain ⟨hval', -, hlen'⟩ := carryLoop_spec W.one_lt_bits (left.drop right.length) _ hcarry
  have hsplit := val_take_add_drop left right.length h
  simp only [addDigits]
  refine ⟨?_, by simp only [List.length_append, hlen, hlen', htake, hdrop, length_singleton]; omega⟩
  rw [val_concat, val_append, List.length_append, hlen, hlen', htake, hdrop, hsplit]
  rw [hdrop] at hval'
  simp only [BitVec.toNat_ofNat, Nat.zero_mod, Nat.add_zero] at hval
  have hpow : (2 ^ W.bits) ^ (right.length + (left.length - right.length)) =
      (2 ^ W.bits) ^ right.length * (2 ^ W.bits) ^ (left.length - right.length) := pow_add _ _ _
  rw [hpow]
  linear_combination hval + (2 ^ W.bits) ^ right.length * hval'

lemma val_subDigits (x y : List (Digit W)) (hlen : y.length ≤ x.length) (h : val y ≤ val x) :
    val (subDigits x y).1 = val x - val y ∧ (subDigits x y).1.length = x.length ∧ (subDigits x y).2 = 0#_ := by
  have htake : (x.take y.length).length = y.length := by simp [hlen]
  have hdrop : (x.drop y.length).length = x.length - y.length := by simp
  obtain ⟨hval, hborrow, hlow⟩ := subLoop_spec W.one_lt_bits (x.take y.length) y 0#_ (by omega) (by simp)
  obtain ⟨hval', hborrow', hhigh⟩ := borrowLoop_spec W.one_lt_bits (x.drop y.length) _ hborrow
  have hsplit := val_take_add_drop x y.length hlen
  have hpow : (2 ^ W.bits) ^ x.length = (2 ^ W.bits) ^ y.length * (2 ^ W.bits) ^ (x.length - y.length) := by
    rw [← pow_add, Nat.add_sub_cancel' hlen]
  have hlength : (subDigits x y).1.length = x.length := by
    simp only [subDigits, List.length_append, hlow, hhigh, htake, hdrop]
    omega
  have htotal : val (subDigits x y).1 + val y = val x + (2 ^ W.bits) ^ x.length * (subDigits x y).2.toNat := by
    simp only [subDigits]
    rw [val_append, hlow, htake, hsplit, hpow]
    rw [hdrop] at hval'
    simp only [BitVec.toNat_ofNat, Nat.zero_mod, Nat.add_zero] at hval
    linear_combination hval + (2 ^ W.bits) ^ y.length * hval'
  -- a borrow would exceed the digits
  have hlt := val_lt (subDigits x y).1
  rw [hlength] at hlt
  have hzero : (subDigits x y).2.toNat = 0 := by
    by_contra hne
    have hle := Nat.mul_le_mul_left ((2 ^ W.bits) ^ x.length) (Nat.one_le_iff_ne_zero.2 hne)
    omega
  rw [hzero, Nat.mul_zero, Nat.add_zero] at htotal
  exact ⟨by omega, hlength, BitVec.eq_of_toNat_eq (by simpa using hzero)⟩

/-! ## Absolute values -/

lemma toNat_uint64_of_fits (h : x.absFitsInUint64 = true) : x.uint64FromAbsNonZero.toNat = x.mag := by
  rw [toNat_uint64FromAbsNonZero, Nat.mod_eq_of_lt (mag_lt_of_absFitsInUint64 h)]

lemma fits_of_length_le (h : x.absFitsInUint64 = true) (hle : y.digitLength ≤ x.digitLength) :
    y.absFitsInUint64 = true := by
  rw [absFitsInUint64, decide_eq_true_iff] at h ⊢
  omega

/-- A value with the sign that is asked for, in place or negated. -/
lemma ensures_withSign (hx : x.WellFormed) : Ensures (if sign = x.isNegative then pure x else neg x) T fun r =>
      r.WellFormed ∧ r.toInt = signed sign x.mag := by
  refine .ite (fun h => .pure ⟨hx, by rw [h, toInt_eq_signed]⟩) fun h => ?_
  refine (ensures_neg hx).imp fun r hr => ⟨hr.1, ?_⟩
  rw [hr.2, toInt_eq_signed, Bool.eq_not.2 h, signed_not]

lemma ensures_absoluteAdd (hx : x.WellFormed) (hy : y.WellFormed)
    (hT : MaxDigitLength W < max x.digitLength y.digitLength + 1 → T) :
    Ensures (absoluteAdd x y sign) T fun r =>
      r.WellFormed ∧ r.toInt = signed sign (x.mag + y.mag) := by
  -- `left` and `right` with the lengths in order
  obtain ⟨left, right, hleft, hright, hl, hr, hlen, hmax, hsum⟩ : ∃ left right : BigInt W,
      left = (if x.digitLength < y.digitLength then y else x) ∧
      right = (if x.digitLength < y.digitLength then x else y) ∧
      left.WellFormed ∧ right.WellFormed ∧ right.digitLength ≤ left.digitLength ∧
      left.digitLength = max x.digitLength y.digitLength ∧ left.mag + right.mag = x.mag + y.mag := by
    by_cases hswap : x.digitLength < y.digitLength
    · exact ⟨y, x, by rw [if_pos hswap], by rw [if_pos hswap], hy, hx, by omega, by omega, by omega⟩
    · exact ⟨x, y, by rw [if_neg hswap], by rw [if_neg hswap], hx, hy, by omega, by omega, rfl⟩
  rw [← hmax] at hT
  rw [← hsum]
  unfold absoluteAdd
  simp only [← hleft, ← hright]
  refine .ite (fun hzero => .pure ⟨hl, ?_⟩) fun hzero => ?_
  · rw [isZero_iff] at hzero
    have hrzero : right.digits = [] := length_eq_zero_iff.1 (by
      have := congrArg List.length hzero
      simp only [length_nil] at this
      change right.digits.length ≤ left.digits.length at hlen
      omega)
    rw [hl.toInt_eq_zero_iff.2 hzero, hl.mag_eq_zero_iff.2 hzero, hr.mag_eq_zero_iff.2 hrzero]
    cases sign <;> rfl
  refine .ite (fun hrzero => ?_) fun hrzero => ?_
  · rw [isZero_iff] at hrzero
    rw [hr.mag_eq_zero_iff.2 hrzero, Nat.add_zero]
    exact ensures_withSign hl
  have hlpos : 0 < left.mag := hl.mag_pos fun h => hzero (isZero_iff.2 h)
  refine .ite (fun hfits => ?_) fun hfits => ?_
  · have hlhs := toNat_uint64_of_fits hfits
    have hrhs := toNat_uint64_of_fits (fits_of_length_le hfits hlen)
    rw [← hlhs] at hlpos
    obtain ⟨hle, hval, hhigh⟩ := val_sumDigits (W := W) left.uint64FromAbsNonZero
      right.uint64FromAbsNonZero hlpos
    rw [hlhs, hrhs] at hval
    have hmax := three_le_maxDigitLength W
    refine (ensures_mozAssert ?_).bind fun _ _ => ?_
    · by_contra hnot
      rw [not_or, not_not] at hnot
      refine hnot.2 ?_
      rw [hnot.1, BitVec.lt_def, BitVec.toNat_ofNat, Nat.zero_mod, ← hleft]
      exact hlpos
    · refine (ensures_fill _ rfl fun h => absurd h (by omega)).imp ?_
      rintro r ⟨rfl, -⟩
      refine ⟨⟨hhigh, fun h => ?_, hle.trans hmax⟩, by rw [toInt_mk, hval]; rfl⟩
      have hnil : val ([] : List (Digit W)) = left.mag + right.mag := by rw [← hval]; exact congrArg val h.symm
      rw [val_nil] at hnil
      omega
  · obtain ⟨hval, hlength⟩ := val_addDigits left.digits right.digits hlen
    refine (ensures_fill_trim _ hlength hT fun h => ?_).imp fun r hr => ⟨hr.1, ?_⟩
    · rw [h] at hlength
      exact nomatch hlength
    · rw [hr.2, toInt_mk, hval]
      rfl

lemma ensures_absoluteSub (hx : x.WellFormed) (hy : y.WellFormed) (h : y.mag < x.mag) :
    Ensures (absoluteSub x y sign) T fun r =>
      r.WellFormed ∧ r.toInt = signed sign (x.mag - y.mag) := by
  have hlen : y.digitLength ≤ x.digitLength := by
    by_contra hnot
    have hlt := hy.mag_lt_of_length_lt (Nat.lt_of_not_le hnot)
    omega
  have hx0 : x.digits ≠ [] := fun hnil => by
    rw [hx.mag_eq_zero_iff.2 hnil] at h
    exact Nat.not_lt_zero _ h
  refine (ensures_mozAssert hlen).bind fun _ _ => ?_
  refine (ensures_mozAssert ?_).bind fun _ _ => ?_
  · rw [absoluteCompare_eq hx hy, Int.sign_eq_one_of_pos (by omega)]
    decide
  refine (ensures_mozAssert (by rwa [isZero_iff])).bind fun _ _ => ?_
  refine .ite (fun hzero => ?_) fun hzero => ?_
  · rw [hy.mag_eq_zero_iff.2 (isZero_iff.1 hzero), Nat.sub_zero]
    exact ensures_withSign hx
  refine .ite (fun hfits => ?_) fun hfits => ?_
  · have hlhs := toNat_uint64_of_fits hfits
    have hrhs := toNat_uint64_of_fits (fits_of_length_le hfits hlen)
    have hgt : x.uint64FromAbsNonZero > y.uint64FromAbsNonZero := by
      rw [gt_iff_lt, BitVec.lt_def]
      omega
    have hsub : (x.uint64FromAbsNonZero - y.uint64FromAbsNonZero).toNat = x.mag - y.mag := by
      rw [BitVec.toNat_sub_of_le (by rw [BitVec.le_def]; omega), hlhs, hrhs]
    refine (ensures_mozAssert hgt).bind fun _ _ => ?_
    rw [← hsub]
    refine ensures_createFromNonZeroRawUint64 fun h0 => ?_
    rw [h0] at hsub
    simp at hsub
    omega
  · obtain ⟨hval, hlength, hborrow⟩ := val_subDigits x.digits y.digits hlen h.le
    refine (ensures_createUninitialized fun h => absurd hx.length_le (by omega)).bind fun c hc => ?_
    refine (ensures_setDigits_all (subDigits x.digits y.digits).1
      (hlength.trans hc.2.1.symm)).bind fun c' hc' => ?_
    rw [hc', hc.1]
    refine (ensures_mozAssert hborrow).bind fun _ _ => (ensures_publish _).bind fun r hr => ?_
    subst hr
    refine (ensures_trim ?_ fun hnil => ?_).imp fun r hr => ⟨hr.1, ?_⟩
    · exact hlength.trans_le hx.length_le
    · rw [show (subDigits x.digits y.digits).1 = [] from hnil] at hlength
      exact absurd (length_eq_zero_iff.1 hlength.symm) hx0
    · rw [hr.2, toInt_mk, hval]
      rfl

/-! ## Addition and subtraction -/

lemma ensures_zero_of (h : x.mag = y.mag) : Ensures (zero (W := W)) T fun r =>
    r.WellFormed ∧ r.toInt = signed x.isNegative x.mag - signed x.isNegative y.mag := by
  refine ensures_zero.imp ?_
  rintro r rfl
  exact ⟨wellFormed_zero, by rw [h, sub_self]; rfl⟩

/-- The difference of two magnitudes, the larger one first. -/
lemma ensures_difference (hx : x.WellFormed) (hy : y.WellFormed) : Ensures (if absoluteCompare x y = 0 then zero
      else if absoluteCompare x y > 0 then absoluteSub x y x.isNegative else absoluteSub y x (!x.isNegative)) T
      fun r => r.WellFormed ∧ r.toInt = signed x.isNegative x.mag - signed x.isNegative y.mag := by
  have hcompare := absoluteCompare_eq hx hy
  rcases Nat.lt_trichotomy x.mag y.mag with hlt | heq | hgt
  · rw [Int.sign_eq_neg_one_of_neg (by omega)] at hcompare
    rw [hcompare, if_neg (by decide), if_neg (by decide)]
    refine (ensures_absoluteSub hy hx hlt).imp fun r hr => ⟨hr.1, ?_⟩
    rw [hr.2]
    rw [signed_not]
    cases x.isNegative <;> simp only [signed, if_true, Bool.false_eq_true, if_false] <;>
    omega
  · rw [heq, sub_self, Int.sign_zero] at hcompare
    rw [if_pos hcompare]
    exact ensures_zero_of heq
  · rw [Int.sign_eq_one_of_pos (by omega)] at hcompare
    rw [hcompare, if_neg (by decide), if_pos (by decide)]
    refine (ensures_absoluteSub hx hy hgt).imp fun r hr => ⟨hr.1, ?_⟩
    rw [hr.2]
    cases x.isNegative <;> simp only [signed, if_true, Bool.false_eq_true, if_false] <;>
    omega

/-- `add` adds; it needs at most one digit more than its operands have. -/
theorem ensures_add (hx : x.WellFormed) (hy : y.WellFormed)
    (hT : MaxDigitLength W < max x.digitLength y.digitLength + 1 → T) :
    Ensures (add x y) T fun r => r.WellFormed ∧ r.toInt = x.toInt + y.toInt := by
  unfold add
  refine .ite (fun hsame => ?_) fun hdiffer => ?_
  · refine (ensures_absoluteAdd hx hy hT).imp fun r hr => ⟨hr.1, ?_⟩
    rw [hr.2, toInt_eq_signed x, toInt_eq_signed y, ← hsame, signed_add]
  · refine (ensures_difference hx hy).imp fun r hr => ⟨hr.1, ?_⟩
    rw [hr.2, toInt_eq_signed x, toInt_eq_signed y, Bool.eq_not.2 (Ne.symm hdiffer), signed_not, sub_eq_add_neg]

/-- `sub` subtracts. -/
theorem ensures_sub (hx : x.WellFormed) (hy : y.WellFormed)
    (hT : MaxDigitLength W < max x.digitLength y.digitLength + 1 → T) :
    Ensures (sub x y) T fun r => r.WellFormed ∧ r.toInt = x.toInt - y.toInt := by
  unfold sub
  refine .ite (fun hdiffer => ?_) fun hsame => ?_
  · refine (ensures_absoluteAdd hx hy hT).imp fun r hr => ⟨hr.1, ?_⟩
    rw [hr.2, toInt_eq_signed x, toInt_eq_signed y, Bool.eq_not.2 (Ne.symm hdiffer), signed_not, sub_neg_eq_add,
      signed_add]
  · refine (ensures_difference hx hy).imp fun r hr => ⟨hr.1, ?_⟩
    rw [hr.2, toInt_eq_signed x, toInt_eq_signed y, ← not_not.1 hsame]

end BigInt

end SpiderMonkey
