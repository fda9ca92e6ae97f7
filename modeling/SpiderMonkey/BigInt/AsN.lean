import SpiderMonkey.BigInt.Word
import Mathlib.Data.Int.ModEq

/-!
# Wrapping to a number of bits

`asUintN` and `asIntN` reduce a BigInt modulo `2 ^ bits`, to the nonnegative and to the signed
representative.  Nonnegative numbers are cut by masking; negative ones, and results that have the
sign bit set, go through `truncateAndSubFromPowerOfTwo`, which subtracts from a power of two that
is never written down.  All exits agree with `%` and with `Int.bmod`.
-/

namespace SpiderMonkey

open Radix

namespace BigInt

open Int BitVec

variable {W : DigitWidth} {T : Prop} {x : BigInt W} {bits : ℕ}

/-! ## Negation modulo a power of two -/

/-- The digits of `2 ^ bits - (x mod 2 ^ bits)` below the most significant one, and the borrow:
digits are taken from `x` until its length is exhausted, then leading zeroes are simulated. -/
def subFromZeroes (digits : List (Digit W)) (n : ℕ) : List (Digit W) × Digit W :=
  let low := digits.take n
  let (differences, borrow) := subLoop (List.replicate low.length 0#_) low 0#_
  let (zeroes, borrow) := borrowLoop (List.replicate (n - low.length) 0#_) borrow
  (differences ++ zeroes, borrow)

/-- The most significant digit, in which only `bits % DigitBits` bits may be kept. -/
def subFromPowerOfTwoMSD (xMSD borrow : Digit W) (bits : ℕ) : Digit W :=
  if bits % W.bits = 0 then
    let (resultMSD, newBorrow) := digitSub 0#_ xMSD 0#_
    (digitSub resultMSD borrow newBorrow).1
  else
    let drop := W.bits - bits % W.bits
    let xMSD := (xMSD <<< drop) >>> drop
    let minuendMSD := 1#W.bits <<< (W.bits - drop)
    let (resultMSD, newBorrow) := digitSub minuendMSD xMSD 0#_
    let (resultMSD, _) := digitSub resultMSD borrow newBorrow
    -- If all subtracted bits were zero, the minuend has to go again.
    resultMSD &&& (minuendMSD - 1#_)

def truncateAndSubFromPowerOfTwo (x : BigInt W) (bits : ℕ) (resultNegative : Bool) : Run W (BigInt W) :=
  if bits > MaxBitLength then throw .bigIntTooLarge
  else do
    let resultLength := CeilDiv bits W.bits
    let result ← createUninitialized resultLength resultNegative
    let (digits, borrow) := subFromZeroes x.digits (resultLength - 1)
    let xMSD := if resultLength ≤ x.digitLength then x.digit (resultLength - 1) else 0#_
    let result ← result.setDigits 0 (digits ++ [subFromPowerOfTwoMSD xMSD borrow bits])
    let result ← result.publish
    destructivelyTrimHighZeroDigits result

/-! ## The operators -/

/-- The loop of `asUintN` that trims high zero digits eagerly: the length and the mask it stops
with. -/
def trimLength (x : BigInt W) : ℕ → Digit W → ℕ × Digit W
  | 0, mask => (0, mask)
  | length + 1, mask =>
    if x.digit length &&& mask ≠ 0#_ then (length + 1, mask)
    else trimLength x length (allOnes _)

/-- The digits of `x` below `length`, the top one masked. -/
def maskTop (x : BigInt W) (length : ℕ) (mask : Digit W) : List (Digit W) :=
  match length with
  | 0 => []
  | length + 1 => x.digits.take length ++ [x.digit length &&& mask]

def asUintN (x : BigInt W) (bits : ℕ) : Run W (BigInt W) :=
  if x.isZero then return x
  else if bits = 0 then zero
  -- When truncating a negative number, simulate two's complement.
  else if x.isNegative then truncateAndSubFromPowerOfTwo x bits false
  else if bits ≤ 64 then
    let mask := allOnes 64 >>> (64 - bits)
    createFromUint64 (toUint64 x &&& mask)
  else if bits ≥ MaxBitLength then return x
  else if bits ≥ x.bitLength then return x
  else do
    let highDigitBits := (bits - 1) % W.bits + 1
    let highDigitMask := allOnes W.bits >>> (W.bits - highDigitBits)
    let (length, mask) := trimLength x (CeilDiv bits W.bits) highDigitMask
    let res ← createUninitialized length false
    let res ← res.setDigits 0 (maskTop x length mask)
    res.publish

def asIntN (x : BigInt W) (bits : ℕ) : Run W (BigInt W) :=
  if x.isZero then return x
  else if bits = 0 then zero
  else if bits = 64 then createFromInt64 (toInt64 x)
  else if bits > MaxBitLength then return x
  else if bits > x.bitLength then return x
  else
    let signBit := 1#W.bits <<< ((bits - 1) % W.bits)
    if bits = x.bitLength ∧ x.digit (x.digitLength - 1) < signBit then return x
    else do
      -- Let `mod` be `x` modulo `2 ^ bits`; if it is at least `2 ^ (bits - 1)`, the result is
      -- `mod - 2 ^ bits`.
      let mod ← asUintN x bits
      if mod.digitLength = CeilDiv bits W.bits ∧ mod.digit (mod.digitLength - 1) &&& signBit ≠ 0#_ then
        truncateAndSubFromPowerOfTwo mod bits true
      else return mod

/-! ## Correctness of the negation -/

lemma bits_eq_digits (W : DigitWidth) (hb : bits ≠ 0) :
    ∃ k r, CeilDiv bits W.bits = k + 1 ∧ bits = W.bits * k + r ∧ 0 < r ∧ r ≤ W.bits ∧
      (bits - 1) % W.bits + 1 = r ∧ bits % W.bits = if r = W.bits then 0 else r := by
  have hpos := W.bits_pos
  refine ⟨(bits - 1) / W.bits, (bits - 1) % W.bits + 1, Nat.add_comm _ _, ?_, by omega, ?_, rfl, ?_⟩
  · have := Nat.div_add_mod (bits - 1) W.bits
    omega
  · exact Nat.mod_lt _ hpos
  · have hdm := Nat.div_add_mod (bits - 1) W.bits
    have hlt := Nat.mod_lt (bits - 1) hpos
    set k := (bits - 1) / W.bits
    set r := (bits - 1) % W.bits
    have hbits : bits = W.bits * k + (r + 1) := by omega
    split
    next h => rw [hbits, h, ← Nat.mul_succ, Nat.mul_mod_right]
    next h => rw [hbits, Nat.mul_add_mod, Nat.mod_eq_of_lt (by omega)]

/-- The low digits of a number subtracted from the power of two above them, or from zero if there
is nothing to subtract. -/
lemma subFromZeroes_spec (digits : List (Digit W)) (n : ℕ) :
    val (subFromZeroes digits n).1 + val digits % (2 ^ W.bits) ^ n =
      (2 ^ W.bits) ^ n * (subFromZeroes digits n).2.toNat ∧
    (subFromZeroes digits n).2.toNat ≤ 1 ∧ (subFromZeroes digits n).1.length = n := by
  set low := digits.take n with hlow
  have hlen : low.length ≤ n := by rw [hlow, List.length_take]; exact min_le_left _ _
  obtain ⟨hsub, hb1, hslen⟩ := subLoop_spec W.one_lt_bits (List.replicate low.length 0#_) low 0#_
    (by simp) (by simp)
  obtain ⟨hzero, hb2, hzlen⟩ := borrowLoop_spec W.one_lt_bits
    (List.replicate (n - low.length) 0#_) _ hb1
  rw [← val_take, ← hlow]
  have hlen' : (subFromZeroes digits n).1.length = n := by
    simp only [subFromZeroes, List.length_append, ← hlow, hslen, hzlen, List.length_replicate]
    omega
  refine ⟨?_, hb2, hlen'⟩
  simp only [subFromZeroes, ← hlow, val_append, hslen, List.length_replicate]
  simp only [val_replicate_zero, toNat_ofNat, Nat.zero_mod, Nat.add_zero, Nat.zero_add,
    List.length_replicate] at hsub hzero
  have hpow : (2 ^ W.bits) ^ n = (2 ^ W.bits) ^ low.length * (2 ^ W.bits) ^ (n - low.length) := by
    rw [← pow_add]; congr 1; omega
  rw [hpow]
  linear_combination hsub + (2 ^ W.bits) ^ low.length * hzero

/-- The most significant digit, in which `r` bits are kept. -/
lemma subFromPowerOfTwoMSD_spec {k r : ℕ} (hbits : bits = W.bits * k + r) (hr0 : 0 < r)
    (hr : r ≤ W.bits) (xMSD borrow : Digit W) (hb : borrow.toNat ≤ 1) :
    (subFromPowerOfTwoMSD xMSD borrow bits).toNat = (2 ^ r - xMSD.toNat % 2 ^ r - borrow.toNat) % 2 ^ r := by
  have hw := W.one_lt_bits
  unfold subFromPowerOfTwoMSD
  rcases Nat.lt_or_eq_of_le hr with hlt | rfl
  · have hmod : bits % W.bits = r := by simp [hbits, Nat.mod_eq_of_lt hlt]
    have hdrop : W.bits - (W.bits - r) = r := by omega
    rw [if_neg (by omega)]
    simp only [hmod, hdrop, toNat_and_mask hw hlt]
    obtain ⟨heq, -⟩ := digitSub_digitSub hw (1#_ <<< r)
      ((xMSD <<< (W.bits - r)) >>> (W.bits - r)) borrow hb
    set q := digitSub (digitSub (1#W.bits <<< r) _ 0#_).1 borrow _
    rw [toNat_shiftLeft_shiftRight hr, toNat_one_shiftLeft hw hlt] at heq
    have hq2 : q.2.toNat = 0 := by
      by_contra h
      have := Nat.mul_le_mul_left (2 ^ W.bits) (Nat.one_le_iff_ne_zero.mpr h)
      omega
    rw [hq2, Nat.mul_zero, Nat.add_zero] at heq
    rw [show q.1.toNat = 2 ^ r - xMSD.toNat % 2 ^ r - borrow.toNat by omega]
  · have hmod : bits % W.bits = 0 := by simp [hbits]
    have hx := xMSD.isLt
    rw [if_pos hmod, Nat.mod_eq_of_lt hx]
    simp only
    obtain ⟨heq, hq1⟩ := digitSub_digitSub hw 0#_ xMSD borrow hb
    set q := digitSub (digitSub 0#_ xMSD 0#_).1 borrow _
    have hlt := q.1.isLt
    simp only [toNat_ofNat, Nat.zero_mod, Nat.zero_add] at heq
    rcases Nat.le_one_iff_eq_zero_or_eq_one.mp hq1 with h | h
    · rw [h] at heq
      have hx0 : xMSD.toNat = 0 := by omega
      have hb0 : borrow.toNat = 0 := by omega
      rw [hx0, hb0, Nat.sub_zero, Nat.sub_zero, Nat.mod_self]
      omega
    · rw [h] at heq
      rw [← Nat.mod_eq_of_lt hlt]
      congr 1
      omega

lemma sub_mod_of_parts {P R h b L D : ℕ} (hD : D + L = P * b) (hb : b ≤ 1) (hL : L < P)
    (hDP : D < P) (hh : h < R) : D + P * ((R - h - b) % R) = (P * R - (L + P * h)) % (P * R) := by
  have hP : 0 < P := by omega
  rcases Nat.le_one_iff_eq_zero_or_eq_one.mp hb with rfl | rfl
  · obtain ⟨rfl, rfl⟩ : D = 0 ∧ L = 0 := by omega
    rcases Nat.eq_zero_or_pos h with rfl | hpos
    · simp
    · have hlt : P * (R - h) < P * R := Nat.mul_lt_mul_of_pos_left (by omega) hP
      rw [Nat.sub_zero, Nat.mod_eq_of_lt (by omega), Nat.zero_add, Nat.zero_add, ← Nat.mul_sub, Nat.mod_eq_of_lt hlt]
  · rw [Nat.mul_one] at hD
    obtain ⟨c, rfl⟩ : ∃ c, R = h + 1 + c := Nat.exists_eq_add_of_lt hh |>.imp fun c hc => by omega
    have hsub : P * (h + 1 + c) - (L + P * h) = D + P * c := by
      rw [Nat.mul_add, Nat.mul_add, Nat.mul_one]; omega
    rw [hsub, show h + 1 + c - h - 1 = c by omega, Nat.mod_eq_of_lt (by omega)]
    refine (Nat.mod_eq_of_lt ?_).symm
    rw [Nat.mul_add, Nat.mul_add, Nat.mul_one]
    omega

/-- `2 ^ bits - (x mod 2 ^ bits)`, reduced once more, with the sign asked for. -/
lemma ensures_truncateAndSubFromPowerOfTwo {sign : Bool} (hb : bits ≠ 0) (hT : MaxBitLength < bits → T) :
    Ensures (truncateAndSubFromPowerOfTwo x bits sign) T fun r => r.WellFormed ∧
      r.toInt = if sign then -(((2 ^ bits - x.mag % 2 ^ bits) % 2 ^ bits : ℕ) : ℤ)
        else (((2 ^ bits - x.mag % 2 ^ bits) % 2 ^ bits : ℕ) : ℤ) := by
  obtain ⟨k, r, hlen, hbits, hr0, hr, -, -⟩ := bits_eq_digits W hb
  unfold truncateAndSubFromPowerOfTwo
  refine .ite (fun h => .tooLarge (hT h)) fun hmax => ?_
  obtain ⟨hval, hborrow, hdlen⟩ := subFromZeroes_spec x.digits k
  have hMSD : (if k + 1 ≤ x.digitLength then x.digit k else 0#_) = x.digit k := by
    split
    next => rfl
    next h => exact (digit_eq_zero_of_le (by omega)).symm
  have hmsd := subFromPowerOfTwoMSD_spec hbits hr0 hr (x.digit k) _ hborrow
  have hpow : 2 ^ bits = (2 ^ W.bits) ^ k * 2 ^ r := by rw [hbits, pow_add, pow_mul]
  have hmod : x.mag % 2 ^ bits = x.mag % (2 ^ W.bits) ^ k + (2 ^ W.bits) ^ k * ((x.digit k).toNat % 2 ^ r) := by
    rw [hpow, Nat.mod_mul, digit_toNat, Nat.mod_mod_of_dvd _ (Nat.pow_dvd_pow 2 hr)]
  have hmaxlen : k + 1 ≤ MaxDigitLength W := by
    have hle : W.bits * k + r ≤ W.bits * MaxDigitLength W := by
      rw [bits_mul_maxDigitLength]; omega
    have : W.bits * k < W.bits * MaxDigitLength W := by omega
    exact Nat.lt_of_mul_lt_mul_left this
  have hdlt := val_lt (subFromZeroes x.digits k).1
  rw [hdlen] at hdlt
  simp only [hlen, Nat.add_sub_cancel, hMSD]
  refine (ensures_fill_trim ((subFromZeroes x.digits k).1 ++
    [subFromPowerOfTwoMSD (x.digit k) (subFromZeroes x.digits k).2 bits]) (by simp [hdlen])
    (fun h => absurd hmaxlen (Nat.not_le_of_lt h)) (by simp)).imp fun r' hr' => ⟨hr'.1, ?_⟩
  rw [hr'.2, toInt_mk, val_concat, hdlen, hmsd, sub_mod_of_parts hval hborrow (Nat.mod_lt _ (by positivity)) hdlt
      (Nat.mod_lt _ (by positivity)), hmod, hpow]
  rfl

lemma neg_emod_two_pow (m n : ℕ) : -(m : ℤ) % 2 ^ n = (((2 ^ n - m % 2 ^ n) % 2 ^ n : ℕ) : ℤ) := by
  have hcast : ((2 ^ n : ℕ) : ℤ) = 2 ^ n := by push_cast; rfl
  have hlt : m % 2 ^ n < 2 ^ n := Nat.mod_lt _ (by positivity)
  rw [← hcast, neg_emod, natAbs_natCast, ← natCast_mod]
  split
  next h => rw [Nat.mod_eq_zero_of_dvd (natCast_dvd_natCast.mp h)]; simp
  next h =>
    have hpos : 0 < m % 2 ^ n := Nat.pos_of_ne_zero fun h0 =>
      h (natCast_dvd_natCast.mpr (Nat.dvd_of_mod_eq_zero h0))
    rw [Nat.mod_eq_of_lt (a := 2 ^ n - m % 2 ^ n) (by omega), Nat.cast_sub hlt.le]

/-! ## Correctness of `asUintN` -/

lemma maskTop_allOnes {n : ℕ} (hn : n ≤ x.digitLength) : maskTop x n (allOnes _) = x.digits.take n := by
  cases n with
  | zero => rfl
  | succ n =>
    have hlt : n < x.digits.length := hn
    have hdigit : x.digit n = x.digits[n] := List.getD_eq_getElem _ _ hlt
    simp [maskTop, hdigit]

lemma length_maskTop {n : ℕ} (hn : n ≤ x.digitLength) (mask : Digit W) : (maskTop x n mask).length = n := by
  have hle : n ≤ x.digits.length := hn
  cases n with
  | zero => rfl
  | succ n => simp [maskTop]; omega

lemma trimLength_spec : ∀ (n : ℕ) (mask : Digit W), n ≤ x.digitLength → (trimLength x n mask).1 ≤ n ∧
    NoHighZero (maskTop x (trimLength x n mask).1 (trimLength x n mask).2) ∧
    val (maskTop x (trimLength x n mask).1 (trimLength x n mask).2) = val (maskTop x n mask)
  | 0, mask, _ => by simp [trimLength, maskTop]
  | n + 1, mask, hn => by
    rw [trimLength]
    split
    next h => exact ⟨le_rfl, (noHighZero_concat _ _).mpr h, rfl⟩
    next h =>
      obtain ⟨hle, hno, hval⟩ := trimLength_spec n (allOnes _) (Nat.le_of_succ_le hn)
      refine ⟨hle.trans (Nat.le_succ n), hno, ?_⟩
      rw [hval, maskTop_allOnes (Nat.le_of_succ_le hn), maskTop, not_not.mp h, val_concat]
      simp

theorem ensures_asUintN (hx : x.WellFormed) (bits : ℕ) :
    Ensures (asUintN x bits) (x.toInt < 0 ∧ MaxBitLength < bits) fun r =>
      r.WellFormed ∧ r.toInt = x.toInt % 2 ^ bits := by
  have hcast : ((2 ^ bits : ℕ) : ℤ) = 2 ^ bits := by push_cast; rfl
  unfold asUintN
  refine .ite (fun h => .pure ⟨hx, ?_⟩) fun hx0 => ?_
  · simp [hx.toInt_eq_zero_iff.mpr (isZero_iff.mp h)]
  refine .ite (fun h => ensures_zero.imp ?_) fun hb => ?_
  · rintro r rfl
    exact ⟨wellFormed_zero, by simp [h]⟩
  refine .ite (fun hs => ?_) fun hs => ?_
  · refine (ensures_truncateAndSubFromPowerOfTwo hb
      fun h => ⟨hx.toInt_neg_iff.mpr hs, h⟩).imp fun r hr => ⟨hr.1, ?_⟩
    simp [hr.2, toInt_of_negative hs, neg_emod_two_pow]
  have hxs : x.isNegative = false := by simpa using hs
  rw [toInt_of_nonneg hxs, ← hcast, ← natCast_mod]
  refine .ite (fun h64 => ?_) fun h64 => ?_
  · have htrunc : (toUint64 x &&& allOnes 64 >>> (64 - bits)).toNat = x.mag % 2 ^ bits := by
      have huint : (toUint64 x).toNat = x.mag % 2 ^ 64 := by
        have := toNat_toUint64 hx
        rw [toInt_of_nonneg hxs] at this
        exact_mod_cast this
      rw [toNat_and_allOnes_shiftRight h64, huint, Nat.mod_mod_of_dvd _ (Nat.pow_dvd_pow 2 h64)]
    refine (ensures_createFromUint64 _).imp fun r hr => ⟨hr.1, ?_⟩
    rw [hr.2.1, htrunc]
  refine .ite (fun hmax => .pure ⟨hx, ?_⟩) fun hmax => ?_
  · rw [toInt_of_nonneg hxs, Nat.mod_eq_of_lt
      (hx.mag_lt_two_pow.trans_le (Nat.pow_le_pow_right (by norm_num) hmax))]
  have hxne : x.digits ≠ [] := fun h => hx0 (isZero_iff.mpr h)
  obtain ⟨-, -, hbl⟩ := hx.bitLength_spec hxne
  refine .ite (fun hlong => .pure ⟨hx, ?_⟩) fun hlong => ?_
  · rw [toInt_of_nonneg hxs, Nat.mod_eq_of_lt
      (hbl.trans_le (Nat.pow_le_pow_right (by norm_num) hlong))]
  obtain ⟨k, r, hlen, hbits, hr0, hr, hhigh, -⟩ := bits_eq_digits W hb
  have hk : k + 1 ≤ x.digitLength := by
    have hle := bitLength_le hxne
    have : W.bits * k < W.bits * x.digitLength := by omega
    exact Nat.lt_of_mul_lt_mul_left this
  simp only [hlen, hhigh]
  obtain ⟨htl, hno, hval⟩ := trimLength_spec (x := x) (k + 1)
    (allOnes W.bits >>> (W.bits - r)) hk
  set p := trimLength x (k + 1) (allOnes W.bits >>> (W.bits - r))
  refine (ensures_fill _ (length_maskTop (htl.trans hk) p.2) fun h =>
    absurd (htl.trans (hk.trans hx.length_le)) (Nat.not_le_of_lt h)).imp ?_
  rintro res ⟨rfl, hmaxlen⟩
  refine ⟨⟨hno, fun _ => rfl, ?_⟩, ?_⟩
  · rw [digitLength, length_maskTop (htl.trans hk)]
    exact hmaxlen
  · have hpow : 2 ^ bits = (2 ^ W.bits) ^ k * 2 ^ r := by rw [hbits, pow_add, pow_mul]
    have hlow : (x.digits.take k).length = k := by
      rw [List.length_take]; exact min_eq_left (Nat.le_of_succ_le hk)
    rw [toInt_mk, if_neg Bool.false_ne_true, hval, maskTop, val_concat, hlow, val_take,
      toNat_and_allOnes_shiftRight hr, hpow, Nat.mod_mul, digit_toNat,
      Nat.mod_mod_of_dvd _ (Nat.pow_dvd_pow 2 hr)]
    rfl

/-! ## Correctness of `asIntN` -/

/-- The sign bit of a number of `bits` bits, on the digit that holds it. -/
lemma signBit_iff (hx : x.WellFormed) (hb : bits ≠ 0) (hlt : x.mag < 2 ^ bits) : (x.digitLength = CeilDiv bits W.bits ∧
      x.digit (x.digitLength - 1) &&& 1#W.bits <<< ((bits - 1) % W.bits) ≠ 0#_) ↔
    2 ^ (bits - 1) ≤ x.mag := by
  obtain ⟨k, r, hlen, hbits, hr0, hr, hhigh, -⟩ := bits_eq_digits W hb
  have hmod : (bits - 1) % W.bits < W.bits := Nat.mod_lt _ W.bits_pos
  have hbit : x.mag.testBit (bits - 1) = true ↔ 2 ^ (bits - 1) ≤ x.mag := by
    rw [Nat.testBit_eq_decide_div_mod_eq, decide_eq_true_eq]
    have hhalf : 2 ^ bits = 2 ^ (bits - 1) * 2 := by rw [← pow_succ]; congr 1; omega
    have hdiv : x.mag / 2 ^ (bits - 1) < 2 := Nat.div_lt_of_lt_mul (hhalf ▸ hlt)
    rw [Nat.mod_eq_of_lt hdiv, ← Nat.one_le_div_iff (by positivity)]
    omega
  have hdigit : (x.digit k).toNat.testBit ((bits - 1) % W.bits) = x.mag.testBit (bits - 1) := by
    rw [digit, testBit_getD _ _ _ hmod, mag]
    congr 1
    omega
  rw [hlen, and_one_shiftLeft_ne_zero W.one_lt_bits hmod]
  constructor
  · rintro ⟨hxl, htest⟩
    rw [hxl, Nat.add_sub_cancel, hdigit] at htest
    exact hbit.mp htest
  · intro hle
    have hlow : x.digitLength ≤ k + 1 := by
      refine hx.noHighZero.length_le W.bits_pos (hlt.trans_le ?_)
      rw [← pow_mul, hbits]
      exact Nat.pow_le_pow_right (by norm_num) (by rw [Nat.mul_succ]; omega)
    have hge : k + 1 ≤ x.digitLength := by
      by_contra h
      have hsmall : x.mag < 2 ^ (bits - 1) := by
        calc x.mag < (2 ^ W.bits) ^ x.digitLength := x.mag_lt
          _ ≤ (2 ^ W.bits) ^ k := Nat.pow_le_pow_right (by positivity) (by omega)
          _ = 2 ^ (W.bits * k) := (pow_mul _ _ _).symm
          _ ≤ 2 ^ (bits - 1) := Nat.pow_le_pow_right (by norm_num) (by omega)
      omega
    have hxl : x.digitLength = k + 1 := le_antisymm hlow hge
    refine ⟨hxl, ?_⟩
    rw [hxl, Nat.add_sub_cancel, hdigit]
    exact hbit.mpr hle

/-- The shortcut of `asIntN` for a top digit below the sign bit is never taken: the bit length
accounts for it. -/
lemma not_msd_lt_signBit (hx : x.WellFormed) (hxne : x.digits ≠ []) (h : bits = x.bitLength) :
    ¬ x.digit (x.digitLength - 1) < 1#W.bits <<< ((bits - 1) % W.bits) := by
  have hne := hx.msd_ne_zero hxne
  have hlz := digitLeadingZeroes_lt hne
  obtain ⟨hlo, -⟩ := digitLeadingZeroes_spec hne
  have hmod : (bits - 1) % W.bits = W.bits - digitLeadingZeroes
      (x.digit (x.digitLength - 1)) - 1 := by
    rw [h, bitLength, Nat.mul_comm _ W.bits]
    rw [show W.bits - digitLeadingZeroes (x.digit (x.digitLength - 1)) +
      W.bits * (x.digitLength - 1) - 1 = W.bits * (x.digitLength - 1) +
      (W.bits - digitLeadingZeroes (x.digit (x.digitLength - 1)) - 1) by omega,
      Nat.mul_add_mod, Nat.mod_eq_of_lt (by omega)]
  rw [lt_def, toNat_one_shiftLeft W.one_lt_bits (Nat.mod_lt _ W.bits_pos), hmod]
  omega

lemma bmod_two_pow_eq_self {n : ℤ} (hb : bits ≠ 0) (hlo : -2 ^ (bits - 1) ≤ n)
    (hhi : n < 2 ^ (bits - 1)) : n.bmod (2 ^ bits) = n := by
  have hhalf : (2 : ℤ) ^ bits = 2 * 2 ^ (bits - 1) := by rw [← pow_succ']; congr 1; omega
  rw [bmod_eq_iff (by positivity)]
  push_cast
  rw [hhalf]
  exact ⟨by omega, by omega, by simp⟩

theorem ensures_asIntN (hx : x.WellFormed) (bits : ℕ) : Ensures (asIntN x bits) False fun r =>
      r.WellFormed ∧ r.toInt = x.toInt.bmod (2 ^ bits) := by
  have habs : |x.toInt| = x.mag := by simp [abs_eq_natAbs]
  unfold asIntN
  refine .ite (fun h => .pure ⟨hx, ?_⟩) fun hx0 => ?_
  · simp [hx.toInt_eq_zero_iff.mpr (isZero_iff.mp h)]
  refine .ite (fun h => ensures_zero.imp ?_) fun hb => ?_
  · rintro r rfl
    exact ⟨wellFormed_zero, by simp [h]⟩
  refine .ite (fun h => ?_) fun h64 => ?_
  · subst h
    refine (ensures_createFromInt64 _).imp fun r hr => ⟨hr.1, ?_⟩
    rw [hr.2, toInt_toInt64 hx]
  have hself : x.mag < 2 ^ (bits - 1) → x.toInt = x.toInt.bmod (2 ^ bits) := by
    intro hlt
    have hcast : (x.mag : ℤ) < 2 ^ (bits - 1) := by exact_mod_cast hlt
    rw [← habs, abs_lt] at hcast
    exact (bmod_two_pow_eq_self hb hcast.1.le hcast.2).symm
  refine .ite (fun hmax => .pure ⟨hx, hself ?_⟩) fun hmax => ?_
  · exact hx.mag_lt_two_pow.trans_le (Nat.pow_le_pow_right (by norm_num) (by omega))
  have hxne : x.digits ≠ [] := fun h => hx0 (isZero_iff.mpr h)
  obtain ⟨-, -, hbl⟩ := hx.bitLength_spec hxne
  refine .ite (fun hlong => .pure ⟨hx, hself ?_⟩) fun hlong => ?_
  · exact hbl.trans_le (Nat.pow_le_pow_right (by norm_num) (by omega))
  refine .ite (fun h => absurd h.2 (not_msd_lt_signBit hx hxne h.1)) fun _ => ?_
  refine Ensures.bind ((ensures_asUintN hx bits).mono (fun h => hmax h.2) fun _ h => h)
    fun mod hmod => ?_
  obtain ⟨hmodwf, hmodval⟩ := hmod
  have hpos : (0 : ℤ) < 2 ^ bits := by positivity
  have hnonneg := emod_nonneg x.toInt hpos.ne'
  have hltz := emod_lt_of_pos x.toInt hpos
  rw [← hmodval] at hnonneg hltz
  have hmag : mod.toInt = mod.mag := by
    rw [← natAbs_toInt, natAbs_of_nonneg hnonneg]
  have hlt : mod.mag < 2 ^ bits := by rw [hmag] at hltz; exact_mod_cast hltz
  have hsign := signBit_iff hmodwf hb hlt
  have hhalf : 2 ^ bits = 2 * 2 ^ (bits - 1) := by rw [← pow_succ']; congr 1; omega
  have hbmod : x.toInt.bmod (2 ^ bits) = if mod.mag < 2 ^ (bits - 1) then (mod.mag : ℤ) else mod.mag - 2 ^ bits := by
    have hthreshold : (((2 ^ bits : ℕ) : ℤ) + 1) / 2 = ((2 ^ (bits - 1) : ℕ) : ℤ) := by omega
    rw [bmod_def, hthreshold]
    push_cast
    have hiff : (mod.mag : ℤ) < 2 ^ (bits - 1) ↔ mod.mag < 2 ^ (bits - 1) := by
      exact_mod_cast Iff.rfl
    rw [← hmodval, hmag]
    simp only [hiff]
  refine .ite (fun h => ?_) fun h => .pure ⟨hmodwf, ?_⟩
  · have hge := hsign.mp h
    refine (ensures_truncateAndSubFromPowerOfTwo hb fun h => hmax h).imp fun r hr => ⟨hr.1, ?_⟩
    rw [hr.2, if_pos rfl, hbmod, if_neg (by omega), Nat.mod_eq_of_lt hlt,
      Nat.mod_eq_of_lt (by omega), Nat.cast_sub hlt.le]
    push_cast
    ring
  · rw [hbmod, if_pos (by by_contra hge; exact h (hsign.mpr (by omega))), hmag]

/-- **Wrapping to a number of bits.**  Whatever the allocations do, `asUintN` returns the residue
in `[0, 2 ^ bits)` and `asIntN` the one in `[-2 ^ (bits - 1), 2 ^ (bits - 1))`, which for numbers
in that range is the number itself.  Only `asUintN` of a negative number can be too large. -/
theorem asN_correct (hx : x.WellFormed) (bits : ℕ) :
    (Ensures (asUintN x bits) (x.toInt < 0 ∧ MaxBitLength < bits) fun r => r.WellFormed ∧
      r.toInt ≡ x.toInt [ZMOD 2 ^ bits] ∧ 0 ≤ r.toInt ∧ r.toInt < 2 ^ bits) ∧
    (Ensures (asIntN x bits) False fun r => r.WellFormed ∧ r.toInt ≡ x.toInt [ZMOD 2 ^ bits] ∧
      (if bits = 0 then r.toInt = 0
        else -2 ^ (bits - 1) ≤ r.toInt ∧ r.toInt < 2 ^ (bits - 1)) ∧
      (bits ≠ 0 → -2 ^ (bits - 1) ≤ x.toInt → x.toInt < 2 ^ (bits - 1) → r = x)) := by
  have hpos : (0 : ℤ) < 2 ^ bits := by positivity
  have hcast : ((2 ^ bits : ℕ) : ℤ) = 2 ^ bits := by push_cast; rfl
  refine ⟨(ensures_asUintN hx bits).imp fun r hr => ⟨hr.1, ?_⟩,
    (ensures_asIntN hx bits).imp fun r hr => ⟨hr.1, ?_, ?_, fun hb hlo hhi => ?_⟩⟩
  · rw [hr.2]
    exact ⟨mod_modEq _ _, emod_nonneg _ hpos.ne', emod_lt_of_pos _ hpos⟩
  · rw [hr.2, ModEq, ← hcast, bmod_emod]
  · rw [hr.2]
    split
    next h => simp [h]
    next h =>
      have hhalf : (2 : ℤ) ^ bits = 2 * 2 ^ (bits - 1) := by rw [← pow_succ']; congr 1; omega
      have hlo := le_bmod (x := x.toInt) (m := 2 ^ bits) (by positivity)
      have hhi := bmod_lt (x := x.toInt) (m := 2 ^ bits) (by positivity)
      rw [hcast, hhalf] at hlo hhi
      exact ⟨by omega, by omega⟩
  · exact hr.1.toInt_injective hx (hr.2.trans (bmod_two_pow_eq_self hb hlo hhi))

/-- The least number of 33 bits, at a digit boundary and as long as the width. -/
theorem asN_correct_least : ∃ r heap', asIntN (W := .bits32) ⟨true, [0#32, 1#32]⟩ 33 (.infallible 5#32) .init =
        .ok (r, heap') ∧ r = ⟨true, [0#32, 1#32]⟩ := by
  have hrun : asIntN (W := .bits32) ⟨true, [0#32, 1#32]⟩ 33 (.infallible 5#32) .init =
      .ok (⟨true, [0#32, 1#32]⟩, ⟨2, false⟩) := by decide
  have hspec := ((asN_correct (W := .bits32) (x := ⟨true, [0#32, 1#32]⟩) (by decide) 33).2).of_ok
    hrun
  exact ⟨_, _, hrun, hspec.2.2.2 (by decide) (by decide) (by decide)⟩

end BigInt

end SpiderMonkey
