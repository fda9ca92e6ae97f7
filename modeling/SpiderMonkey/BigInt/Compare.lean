import SpiderMonkey.BigInt.Basic

/-!
# Comparison of BigInts

`absoluteCompare` looks for the first digit that differs, from the top digit down; on BigInts
without high zero digits that is the comparison of magnitudes.  `compare` and `equal` build on
it (`vm/BigIntType.cpp`).
-/

namespace SpiderMonkey

open Radix

/-- The scan of `absoluteCompare` over two digit vectors of one length: the comparison of the
topmost digits that differ. -/
def compareDigits {w : ℕ} : List (BitVec w) → List (BitVec w) → ℤ
  | x :: xs, y :: ys =>
    let above := compareDigits xs ys
    if above ≠ 0 then above
    else if x = y then 0
    else if x > y then 1 else -1
  | _, _ => 0

lemma compareDigits_spec {w : ℕ} : ∀ xs ys : List (BitVec w), xs.length = ys.length →
    compareDigits xs ys = ((val xs : ℤ) - val ys).sign
  | [], [], _ => rfl
  | x :: xs, y :: ys, h => by
    have hx := x.isLt
    have hy := y.isLt
    have ih := compareDigits_spec xs ys (by simpa using h)
    simp only [compareDigits, val_cons, ih, ne_eq, Int.sign_eq_zero_iff_zero, gt_iff_lt, BitVec.lt_def]
    rcases Nat.lt_trichotomy (val xs) (val ys) with hlt | heq | hlt
    · have hmul := Nat.mul_le_mul_left (2 ^ w) (Nat.succ_le_of_lt hlt)
      rw [Nat.mul_succ] at hmul
      rw [if_pos (by omega), Int.sign_eq_neg_one_of_neg (by omega), Int.sign_eq_neg_one_of_neg (by omega)]
    · rw [if_neg (by omega), heq]
      by_cases hxy : x = y
      · simp [hxy]
      · have hne : x.toNat ≠ y.toNat := fun h => hxy (BitVec.eq_of_toNat_eq h)
        rw [if_neg hxy]
        split
        next hgt => rw [Int.sign_eq_one_of_pos (by omega)]
        next hgt => rw [Int.sign_eq_neg_one_of_neg (by omega)]
    · have hmul := Nat.mul_le_mul_left (2 ^ w) (Nat.succ_le_of_lt hlt)
      rw [Nat.mul_succ] at hmul
      rw [if_pos (by omega), Int.sign_eq_one_of_pos (by omega), Int.sign_eq_one_of_pos (by omega)]

namespace BigInt

variable {W : DigitWidth} {x y : BigInt W}

def absoluteCompare (x y : BigInt W) : ℤ :=
  if x.digitLength ≠ y.digitLength then if x.digitLength < y.digitLength then -1 else 1
  else compareDigits x.digits y.digits

def compare (x y : BigInt W) : ℤ :=
  let xSign := x.isNegative
  if xSign ≠ y.isNegative then if xSign then -1 else 1
  else if xSign then absoluteCompare y x
  else absoluteCompare x y

def equal (lhs rhs : BigInt W) : Bool :=
  if lhs.digitLength ≠ rhs.digitLength then false
  else if lhs.isNegative ≠ rhs.isNegative then false
  else lhs.digits == rhs.digits

/-- With no high zero digits the longer BigInt has the larger magnitude. -/
lemma WellFormed.mag_lt_of_length_lt (hy : y.WellFormed) (h : x.digitLength < y.digitLength) : x.mag < y.mag := by
  have hne : y.digits ≠ [] := fun hnil => by simp [digitLength, hnil] at h
  calc x.mag < (2 ^ W.bits) ^ x.digitLength := x.mag_lt
    _ ≤ (2 ^ W.bits) ^ (y.digitLength - 1) :=
        Nat.pow_le_pow_right (by positivity) (by omega)
    _ ≤ y.mag := hy.noHighZero.le_val hne

theorem absoluteCompare_eq (hx : x.WellFormed) (hy : y.WellFormed) :
    absoluteCompare x y = ((x.mag : ℤ) - y.mag).sign := by
  unfold absoluteCompare
  by_cases hlen : x.digitLength = y.digitLength
  · rw [if_neg (not_not.mpr hlen)]
    exact compareDigits_spec _ _ hlen
  · rw [if_pos hlen]
    split
    next hlt =>
      have := hy.mag_lt_of_length_lt hlt
      exact (Int.sign_eq_neg_one_of_neg (by omega)).symm
    next hge =>
      have := hx.mag_lt_of_length_lt (y := x) (x := y) (by omega)
      exact (Int.sign_eq_one_of_pos (by omega)).symm

lemma absoluteCompare_neg_iff (hx : x.WellFormed) (hy : y.WellFormed) : absoluteCompare x y < 0 ↔ x.mag < y.mag := by
  rw [absoluteCompare_eq hx hy, Int.sign_neg_iff]
  omega

/-- **Comparison is exact.** -/
theorem compare_eq (hx : x.WellFormed) (hy : y.WellFormed) : compare x y = (x.toInt - y.toInt).sign := by
  have hxneg := hx.toInt_neg_iff
  have hyneg := hy.toInt_neg_iff
  unfold compare
  cases hxs : x.isNegative <;> cases hys : y.isNegative <;>
    simp only [hxs, hys, Bool.false_eq_true, iff_false, iff_true, not_lt] at hxneg hyneg
  · simp [absoluteCompare_eq hx hy, toInt_of_nonneg, hxs, hys]
  · simpa using (Int.sign_eq_one_of_pos (by omega)).symm
  · simpa using (Int.sign_eq_neg_one_of_neg (by omega)).symm
  · simp only [ne_eq, not_true_eq_false, if_false, if_true, absoluteCompare_eq hy hx,
      toInt_of_negative hxs, toInt_of_negative hys]
    ring

theorem compare_eq_negativeOne : compare (⟨true, [1#64]⟩ : BigInt .bits64) ⟨false, [2#64]⟩ = -1 :=
  compare_eq (by decide) (by decide)

/-- Equality of well-formed BigInts is equality of integers. -/
theorem equal_iff (hx : x.WellFormed) (hy : y.WellFormed) : equal x y = true ↔ x.toInt = y.toInt := by
  constructor
  · intro h
    simp only [equal, digitLength, ne_eq, ite_not] at h
    split at h <;> [split at h; skip] <;> simp_all [toInt, mag]
  · intro h
    rw [hx.toInt_injective hy h]
    simp [equal]

end BigInt

end SpiderMonkey
