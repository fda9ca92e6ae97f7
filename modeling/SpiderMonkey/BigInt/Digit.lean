import SpiderMonkey.Lib.Radix
import Mathlib.Data.Nat.Bitwise

/-!
# Digit arithmetic and the digit loops of BigInt

The one-digit operations of `vm/BigIntType.h` and the loops over digits that the arithmetic in
`vm/BigIntType.cpp` is made of.  Everything here is generic in the digit width `w`; a loop is a
recursion over the digits it visits, least significant first, that returns the digits it writes
together with the carry or borrow it leaves behind.

Each operation comes with one equation between natural numbers.  For the loops the equation is
about `Radix.val`, so that no later proof looks at single digits again:

* `addLoop_spec`, `subLoop_spec`: addition and subtraction with carry and borrow;
* `carryLoop_spec`, `borrowLoop_spec`: propagation of a carry or a borrow alone;
* `multiplyAddLoop_spec`: multiplication by one digit;
* `leftShiftLoop_spec`, `rightShiftLoop_spec`: shifts by less than a digit.
-/

namespace SpiderMonkey

open Radix BitVec Nat

variable {w : ℕ}

/-! ## One digit -/

/-- `a + b`, incrementing `carry` if the addition overflows. -/
def digitAdd (a b carry : BitVec w) : BitVec w × BitVec w :=
  let result := a + b
  (result, carry + if result < a then 1#w else 0#w)

/-- `left - right`, incrementing `borrow` if the subtraction underflows. -/
def digitSub (left right borrow : BitVec w) : BitVec w × BitVec w :=
  let result := left - right
  (result, borrow + if result > left then 1#w else 0#w)

/-- The low and the high half of `a * b`, which `TwoDigit` holds. -/
def digitMul (a b : BitVec w) : BitVec w × BitVec w :=
  let result := a.toNat * b.toNat
  (BitVec.ofNat w result, BitVec.ofNat w (result / 2 ^ w))

/-- `(high << DigitBits) + low` divided by `divisor`, as the `div` instruction does it: the
quotient and the remainder, for `high < divisor`. -/
def digitDiv (high low divisor : BitVec w) : BitVec w × BitVec w :=
  let dividend := high.toNat * 2 ^ w + low.toNat
  (BitVec.ofNat w (dividend / divisor.toNat), BitVec.ofNat w (dividend % divisor.toNat))

/-- Whether `factor1 * factor2 > (high << DigitBits) + low`. -/
def productGreaterThan (factor1 factor2 high low : BitVec w) : Bool :=
  let (resultLow, resultHigh) := digitMul factor1 factor2
  resultHigh > high || (resultHigh == high && resultLow > low)

def digitLeadingZeroes (x : BitVec w) : ℕ := if x = 0#w then w else w - 1 - x.toNat.log2

lemma toNat_one (hw : 1 < w) : (1#w).toNat = 1 := by
  rw [BitVec.toNat_ofNat, Nat.mod_eq_of_lt (Nat.one_lt_two_pow (by omega))]

lemma two_lt_two_pow (hw : 1 < w) : 2 < 2 ^ w := by
  calc 2 < 2 ^ 2 := by norm_num
    _ ≤ 2 ^ w := Nat.pow_le_pow_right (by norm_num) hw

lemma digitAdd_spec (hw : 1 < w) (a b carry : BitVec w) (hc : carry.toNat + 1 < 2 ^ w) :
    (digitAdd a b carry).1.toNat + 2 ^ w * (digitAdd a b carry).2.toNat = a.toNat + b.toNat + 2 ^ w * carry.toNat := by
  have hone := toNat_one hw
  unfold digitAdd
  rcases Nat.lt_or_ge (a.toNat + b.toNat) (2 ^ w) with h | h
  · have hsum : (a + b).toNat = a.toNat + b.toNat := by
      simp [Nat.mod_eq_of_lt h]
    have hno : ¬ a + b < a := by rw [BitVec.lt_def, hsum]; omega
    simp [hno, hsum]
  · have hsum : (a + b).toNat = a.toNat + b.toNat - 2 ^ w := by
      rw [BitVec.toNat_add, Nat.mod_eq_sub_mod h, Nat.mod_eq_of_lt (by omega)]
    have hyes : a + b < a := by rw [BitVec.lt_def, hsum]; omega
    simp only [if_pos hyes, BitVec.toNat_add carry, hone, Nat.mod_eq_of_lt hc, hsum, Nat.mul_add, Nat.mul_one]
    omega

lemma digitSub_spec (hw : 1 < w) (left right borrow : BitVec w) (hc : borrow.toNat + 1 < 2 ^ w) :
    (digitSub left right borrow).1.toNat + right.toNat + 2 ^ w * borrow.toNat =
      left.toNat + 2 ^ w * (digitSub left right borrow).2.toNat := by
  have hone := toNat_one hw
  unfold digitSub
  rcases Nat.lt_or_ge left.toNat right.toNat with h | h
  · have hdiff : (left - right).toNat = 2 ^ w - right.toNat + left.toNat := by
      rw [BitVec.toNat_sub, Nat.mod_eq_of_lt (by omega)]
    have hyes : left - right > left := by rw [gt_iff_lt, BitVec.lt_def, hdiff]; omega
    simp only [if_pos hyes, BitVec.toNat_add borrow, hone, Nat.mod_eq_of_lt hc, hdiff, Nat.mul_add, Nat.mul_one]
    omega
  · have hdiff : (left - right).toNat = left.toNat - right.toNat := by
      rw [BitVec.toNat_sub, show 2 ^ w - right.toNat + left.toNat =
        2 ^ w + (left.toNat - right.toNat) by omega, Nat.add_mod_left, Nat.mod_eq_of_lt (by omega)]
    have hno : ¬ left - right > left := by rw [gt_iff_lt, BitVec.lt_def, hdiff]; omega
    simp only [if_neg hno, BitVec.add_zero, hdiff]
    omega

lemma digitMul_spec (a b : BitVec w) : (digitMul a b).1.toNat + 2 ^ w * (digitMul a b).2.toNat = a.toNat * b.toNat := by
  have hhigh : a.toNat * b.toNat / 2 ^ w < 2 ^ w := Nat.div_lt_of_lt_mul (Nat.mul_lt_mul'' a.isLt b.isLt)
  simp only [digitMul, BitVec.toNat_ofNat, Nat.mod_eq_of_lt hhigh]
  exact Nat.mod_add_div _ _

lemma digitDiv_spec {high divisor : BitVec w} (low : BitVec w) (h : high.toNat < divisor.toNat) :
    (digitDiv high low divisor).1.toNat * divisor.toNat + (digitDiv high low divisor).2.toNat =
      high.toNat * 2 ^ w + low.toNat ∧ (digitDiv high low divisor).2.toNat < divisor.toNat := by
  have hpos : 0 < divisor.toNat := by omega
  have hquot : (high.toNat * 2 ^ w + low.toNat) / divisor.toNat < 2 ^ w := by
    apply Nat.div_lt_of_lt_mul
    calc high.toNat * 2 ^ w + low.toNat < (high.toNat + 1) * 2 ^ w := by
          rw [Nat.add_mul, Nat.one_mul]; exact Nat.add_lt_add_left low.isLt _
      _ ≤ divisor.toNat * 2 ^ w := Nat.mul_le_mul_right _ h
  have hrem := Nat.mod_lt (high.toNat * 2 ^ w + low.toNat) hpos
  simp only [digitDiv, BitVec.toNat_ofNat, Nat.mod_eq_of_lt hquot, Nat.mod_eq_of_lt (hrem.trans divisor.isLt)]
  exact ⟨Nat.div_add_mod' _ _, hrem⟩

lemma productGreaterThan_iff {factor1 factor2 high low : BitVec w} :
    productGreaterThan factor1 factor2 high low = true ↔
      high.toNat * 2 ^ w + low.toNat < factor1.toNat * factor2.toNat := by
  have hspec := digitMul_spec factor1 factor2
  simp only [productGreaterThan, Bool.or_eq_true, Bool.and_eq_true, decide_eq_true_eq, beq_iff_eq,
    BitVec.lt_def, gt_iff_lt, ← BitVec.toNat_inj]
  rw [← hspec, Nat.mul_comm high.toNat]
  generalize (digitMul factor1 factor2).2.toNat = h at *
  constructor
  · rintro (hlt | ⟨heq, hlt⟩)
    · have : 2 ^ w * (high.toNat + 1) ≤ 2 ^ w * h := Nat.mul_le_mul_left _ hlt
      rw [Nat.mul_add] at this
      omega
    · rw [heq]; omega
  · intro hlt
    rcases Nat.lt_trichotomy high.toNat h with h' | h' | h'
    · exact Or.inl h'
    · subst h'; exact Or.inr ⟨rfl, by omega⟩
    · have : 2 ^ w * (h + 1) ≤ 2 ^ w * high.toNat := Nat.mul_le_mul_left _ h'
      rw [Nat.mul_add] at this
      omega

lemma digitLeadingZeroes_lt {x : BitVec w} (hx : x ≠ 0#w) : digitLeadingZeroes x < w := by
  have hx0 : x.toNat ≠ 0 := fun h => hx (eq_of_toNat_eq (by simpa using h))
  have hlog : x.toNat.log2 < w := (log2_lt hx0).mpr x.isLt
  rw [digitLeadingZeroes, if_neg hx]
  omega

/-- A nonzero digit has `w - digitLeadingZeroes` significant bits. -/
lemma digitLeadingZeroes_spec {x : BitVec w} (hx : x ≠ 0#w) :
    2 ^ (w - digitLeadingZeroes x - 1) ≤ x.toNat ∧ x.toNat < 2 ^ (w - digitLeadingZeroes x) := by
  have hx0 : x.toNat ≠ 0 := fun h => hx (BitVec.eq_of_toNat_eq (by simpa using h))
  have hlog : x.toNat.log2 < w := (Nat.log2_lt hx0).mpr x.isLt
  have hbits : w - digitLeadingZeroes x = x.toNat.log2 + 1 := by
    rw [digitLeadingZeroes, if_neg hx]; omega
  rw [hbits, Nat.add_sub_cancel]
  exact ⟨Nat.log2_self_le hx0, Nat.lt_log2_self⟩

/-! ## Masks -/

lemma toNat_one_shiftLeft {k : ℕ} (hw : 1 < w) (hk : k < w) : (1#w <<< k).toNat = 2 ^ k := by
  rw [BitVec.toNat_shiftLeft, toNat_one hw, Nat.shiftLeft_eq, Nat.one_mul,
    Nat.mod_eq_of_lt (Nat.pow_lt_pow_right (by norm_num) hk)]

lemma toNat_and_mask {k : ℕ} (hw : 1 < w) (hk : k < w) (d : BitVec w) :
    (d &&& (1#w <<< k) - 1#w).toNat = d.toNat % 2 ^ k := by
  have hpow : 2 ^ k < 2 ^ w := Nat.pow_lt_pow_right (by norm_num) hk
  have hmask : ((1#w <<< k) - 1#w).toNat = 2 ^ k - 1 := by
    have : 0 < 2 ^ k := by positivity
    rw [BitVec.toNat_sub, toNat_one_shiftLeft hw hk, toNat_one hw,
      show 2 ^ w - 1 + 2 ^ k = 2 ^ w + (2 ^ k - 1) by omega, Nat.add_mod_left,
      Nat.mod_eq_of_lt (by omega)]
  simp [hmask]

lemma toNat_and_allOnes_shiftRight {k : ℕ} (hk : k ≤ w) (d : BitVec w) :
    (d &&& BitVec.allOnes w >>> (w - k)).toNat = d.toNat % 2 ^ k := by
  have hpow : 2 ^ w = 2 ^ k * 2 ^ (w - k) := by rw [← pow_add]; congr 1; omega
  have h1 : 0 < 2 ^ (w - k) := by positivity
  have h2 : 0 < 2 ^ k := by positivity
  have hmask : (BitVec.allOnes w >>> (w - k)).toNat = 2 ^ k - 1 := by
    rw [BitVec.toNat_ushiftRight, BitVec.toNat_allOnes, Nat.shiftRight_eq_div_pow, hpow]
    apply Nat.div_eq_of_lt_le
    · rw [Nat.sub_mul]; omega
    · rw [Nat.sub_add_cancel h2]
      have := Nat.mul_pos h2 h1
      omega
  simp [hmask]

/-- `d & (1 << k)` tests bit `k`. -/
lemma and_one_shiftLeft_ne_zero {k : ℕ} (hw : 1 < w) (hk : k < w) (d : BitVec w) :
    d &&& (1#w <<< k) ≠ 0#w ↔ d.toNat.testBit k = true := by
  have h : (d &&& (1#w <<< k)).toNat = (d.toNat.testBit k).toNat * 2 ^ k := by
    simp [toNat_one_shiftLeft hw hk, and_two_pow]
  rw [ne_eq, ← toNat_inj, h]
  cases d.toNat.testBit k <;> simp

lemma toNat_shiftLeft_shiftRight {k : ℕ} (hk : k ≤ w) (d : BitVec w) :
    ((d <<< (w - k)) >>> (w - k)).toNat = d.toNat % 2 ^ k := by
  have hpow : 2 ^ w = 2 ^ k * 2 ^ (w - k) := by rw [← pow_add]; congr 1; omega
  rw [BitVec.toNat_ushiftRight, BitVec.toNat_shiftLeft, Nat.shiftLeft_eq,
    Nat.shiftRight_eq_div_pow, hpow, Nat.mul_mod_mul_right, Nat.mul_div_cancel _ (by positivity)]

/-! ## Addition and subtraction -/

/-- The digits of `this` from the start index on, with `summand` added digit by digit. -/
def addLoop : List (BitVec w) → List (BitVec w) → BitVec w → List (BitVec w) × BitVec w
  | this, [], carry => (this, carry)
  | [], _ :: _, carry => ([], carry)
  | d :: this, s :: summand, carry =>
    let (sum, newCarry) := digitAdd d s 0#w
    let (sum, newCarry) := digitAdd sum carry newCarry
    let (rest, carry) := addLoop this summand newCarry
    (sum :: rest, carry)

/-- The digits of `this` from the start index on, with `subtrahend` subtracted digit by digit. -/
def subLoop : List (BitVec w) → List (BitVec w) → BitVec w → List (BitVec w) × BitVec w
  | this, [], borrow => (this, borrow)
  | [], _ :: _, borrow => ([], borrow)
  | d :: this, s :: subtrahend, borrow =>
    let (difference, newBorrow) := digitSub d s 0#w
    let (difference, newBorrow) := digitSub difference borrow newBorrow
    let (rest, borrow) := subLoop this subtrahend newBorrow
    (difference :: rest, borrow)

lemma digitAdd_digitAdd (hw : 1 < w) (d s carry : BitVec w) (hc : carry.toNat ≤ 1) :
    let p := digitAdd d s 0#w
    let q := digitAdd p.1 carry p.2
    q.1.toNat + 2 ^ w * q.2.toNat = d.toNat + s.toNat + carry.toNat ∧ q.2.toNat ≤ 1 := by
  intro p q
  have hB := two_lt_two_pow hw
  have hp : p.1.toNat + 2 ^ w * p.2.toNat = d.toNat + s.toNat := by
    simpa using digitAdd_spec hw d s 0#w (by simp; omega)
  have hp2 : p.2.toNat ≤ 1 := by
    by_contra h
    have : 2 ^ w * 2 ≤ 2 ^ w * p.2.toNat := mul_le_mul_left _ (by omega)
    omega
  have hq := digitAdd_spec hw p.1 carry p.2 (by omega)
  have hsum : q.1.toNat + 2 ^ w * q.2.toNat = d.toNat + s.toNat + carry.toNat := by
    change q.1.toNat + 2 ^ w * q.2.toNat = _ at hq
    omega
  refine ⟨hsum, ?_⟩
  by_contra h
  have : 2 ^ w * 2 ≤ 2 ^ w * q.2.toNat := mul_le_mul_left _ (by omega)
  omega

lemma digitSub_digitSub (hw : 1 < w) (d s borrow : BitVec w) (hc : borrow.toNat ≤ 1) :
    let p := digitSub d s 0#w
    let q := digitSub p.1 borrow p.2
    q.1.toNat + s.toNat + borrow.toNat = d.toNat + 2 ^ w * q.2.toNat ∧ q.2.toNat ≤ 1 := by
  intro p q
  have hB := two_lt_two_pow hw
  have hp : p.1.toNat + s.toNat = d.toNat + 2 ^ w * p.2.toNat := by
    simpa using digitSub_spec hw d s 0#w (by simp; omega)
  have hp2 : p.2.toNat ≤ 1 := by
    by_contra h
    have : 2 ^ w * 2 ≤ 2 ^ w * p.2.toNat := mul_le_mul_left _ (by omega)
    omega
  have hq := digitSub_spec hw p.1 borrow p.2 (by omega)
  have hdiff : q.1.toNat + s.toNat + borrow.toNat = d.toNat + 2 ^ w * q.2.toNat := by
    change q.1.toNat + borrow.toNat + 2 ^ w * p.2.toNat = p.1.toNat + 2 ^ w * q.2.toNat at hq
    omega
  refine ⟨hdiff, ?_⟩
  by_contra h
  have : 2 ^ w * 2 ≤ 2 ^ w * q.2.toNat := mul_le_mul_left _ (by omega)
  omega

/-- Addition with carry: the loop's equation, its carry bit and the length it keeps. -/
lemma addLoop_spec (hw : 1 < w) : ∀ (this summand : List (BitVec w)) (carry : BitVec w),
    summand.length ≤ this.length → carry.toNat ≤ 1 →
    val (addLoop this summand carry).1 + (2 ^ w) ^ summand.length * (addLoop this summand carry).2.toNat =
      val this + val summand + carry.toNat ∧
    (addLoop this summand carry).2.toNat ≤ 1 ∧
    (addLoop this summand carry).1.length = this.length
  | this, [], carry, _, hc => by simp [addLoop, hc]
  | [], _ :: _, _, hlen, _ => by simp at hlen
  | d :: this, s :: summand, carry, hlen, hc => by
    obtain ⟨hround, hround1⟩ := digitAdd_digitAdd hw d s carry hc
    obtain ⟨ih, ih1, ihlen⟩ := addLoop_spec hw this summand _ (by simpa using hlen) hround1
    refine ⟨?_, ih1, by simpa [addLoop] using ihlen⟩
    simp only [addLoop, val_cons, List.length_cons, pow_succ']
    generalize (digitAdd (digitAdd d s 0#w).1 carry (digitAdd d s 0#w).2) = q at *
    linear_combination 2 ^ w * ih + hround

/-- Subtraction with borrow: the loop's equation, its borrow bit and the length it keeps. -/
lemma subLoop_spec (hw : 1 < w) : ∀ (this subtrahend : List (BitVec w)) (borrow : BitVec w),
    subtrahend.length ≤ this.length → borrow.toNat ≤ 1 →
    val (subLoop this subtrahend borrow).1 + val subtrahend + borrow.toNat =
      val this + (2 ^ w) ^ subtrahend.length * (subLoop this subtrahend borrow).2.toNat ∧
    (subLoop this subtrahend borrow).2.toNat ≤ 1 ∧
    (subLoop this subtrahend borrow).1.length = this.length
  | this, [], borrow, _, hc => by simp [subLoop, hc]
  | [], _ :: _, _, hlen, _ => by simp at hlen
  | d :: this, s :: subtrahend, borrow, hlen, hc => by
    obtain ⟨hround, hround1⟩ := digitSub_digitSub hw d s borrow hc
    obtain ⟨ih, ih1, ihlen⟩ := subLoop_spec hw this subtrahend _ (by simpa using hlen) hround1
    refine ⟨?_, ih1, by simpa [subLoop] using ihlen⟩
    simp only [subLoop, val_cons, List.length_cons, pow_succ']
    generalize (digitSub (digitSub d s 0#w).1 borrow (digitSub d s 0#w).2) = q at *
    linear_combination 2 ^ w * ih + hround

/-! ## Propagation of a carry or a borrow -/

/-- `digits` with a carry added at the bottom. -/
def carryLoop : List (BitVec w) → BitVec w → List (BitVec w) × BitVec w
  | [], carry => ([], carry)
  | d :: digits, carry =>
    let (sum, newCarry) := digitAdd d carry 0#w
    let (rest, carry) := carryLoop digits newCarry
    (sum :: rest, carry)

/-- `digits` with a borrow subtracted at the bottom. -/
def borrowLoop : List (BitVec w) → BitVec w → List (BitVec w) × BitVec w
  | [], borrow => ([], borrow)
  | d :: digits, borrow =>
    let (difference, newBorrow) := digitSub d borrow 0#w
    let (rest, borrow) := borrowLoop digits newBorrow
    (difference :: rest, borrow)

lemma carryLoop_spec (hw : 1 < w) : ∀ (digits : List (BitVec w)) (carry : BitVec w), carry.toNat ≤ 1 →
    val (carryLoop digits carry).1 + (2 ^ w) ^ digits.length * (carryLoop digits carry).2.toNat =
      val digits + carry.toNat ∧
    (carryLoop digits carry).2.toNat ≤ 1 ∧
    (carryLoop digits carry).1.length = digits.length
  | [], carry, hc => by simp [carryLoop, hc]
  | d :: digits, carry, hc => by
    have hround : (digitAdd d carry 0#w).1.toNat + 2 ^ w * (digitAdd d carry 0#w).2.toNat = d.toNat + carry.toNat := by
      simpa using digitAdd_spec hw d carry 0#w (by have := two_lt_two_pow hw; simp; omega)
    have hround1 : (digitAdd d carry 0#w).2.toNat ≤ 1 := by
      by_contra h
      have : 2 ^ w * 2 ≤ 2 ^ w * (digitAdd d carry 0#w).2.toNat := mul_le_mul_left _ (by omega)
      omega
    obtain ⟨ih, ih1, ihlen⟩ := carryLoop_spec hw digits _ hround1
    refine ⟨?_, ih1, by simpa [carryLoop] using ihlen⟩
    simp only [carryLoop, val_cons, List.length_cons, pow_succ']
    linear_combination 2 ^ w * ih + hround

lemma borrowLoop_spec (hw : 1 < w) : ∀ (digits : List (BitVec w)) (borrow : BitVec w), borrow.toNat ≤ 1 →
    val (borrowLoop digits borrow).1 + borrow.toNat =
      val digits + (2 ^ w) ^ digits.length * (borrowLoop digits borrow).2.toNat ∧
    (borrowLoop digits borrow).2.toNat ≤ 1 ∧
    (borrowLoop digits borrow).1.length = digits.length
  | [], borrow, hc => by simp [borrowLoop, hc]
  | d :: digits, borrow, hc => by
    have hround : (digitSub d borrow 0#w).1.toNat + borrow.toNat =
        d.toNat + 2 ^ w * (digitSub d borrow 0#w).2.toNat := by
      simpa using digitSub_spec hw d borrow 0#w (by have := two_lt_two_pow hw; simp; omega)
    have hround1 : (digitSub d borrow 0#w).2.toNat ≤ 1 := by
      by_contra h
      have : 2 ^ w * 2 ≤ 2 ^ w * (digitSub d borrow 0#w).2.toNat := mul_le_mul_left _ (by omega)
      omega
    obtain ⟨ih, ih1, ihlen⟩ := borrowLoop_spec hw digits _ hround1
    refine ⟨?_, ih1, by simpa [borrowLoop] using ihlen⟩
    simp only [borrowLoop, val_cons, List.length_cons, pow_succ']
    linear_combination 2 ^ w * ih + hround

/-! ## Multiplication by a digit -/

/-- `source` times `factor`, with `high` and `carry` of the round before added in: the digits,
the last high half and the last carry. -/
def multiplyAddLoop (factor : BitVec w) : List (BitVec w) → BitVec w → BitVec w → List (BitVec w) × BitVec w × BitVec w
  | [], high, carry => ([], high, carry)
  | d :: source, high, carry =>
    let (current, newHigh) := digitMul d factor
    let (current, newCarry) := digitAdd current high 0#w
    let (current, newCarry) := digitAdd current carry newCarry
    let (rest, last) := multiplyAddLoop factor source newHigh newCarry
    (current :: rest, last)

lemma multiplyAddLoop_spec (hw : 1 < w) (factor : BitVec w) : ∀ (source : List (BitVec w)) (high carry : BitVec w),
    val (multiplyAddLoop factor source high carry).1 +
        (2 ^ w) ^ source.length * ((multiplyAddLoop factor source high carry).2.1.toNat +
          (multiplyAddLoop factor source high carry).2.2.toNat) =
      val source * factor.toNat + high.toNat + carry.toNat ∧
    (multiplyAddLoop factor source high carry).1.length = source.length
  | [], high, carry => by simp [multiplyAddLoop]
  | d :: source, high, carry => by
    have hB := two_lt_two_pow hw
    have hmul := digitMul_spec d factor
    set p := digitMul d factor
    have h₁ := digitAdd_spec hw p.1 high 0#w (by simp; omega)
    set q := digitAdd p.1 high 0#w
    have hq1 : q.2.toNat ≤ 1 := by
      by_contra h
      have : 2 ^ w * 2 ≤ 2 ^ w * q.2.toNat := mul_le_mul_left _ (by omega)
      simp only [toNat_ofNat, zero_mod, mul_zero, add_zero] at h₁
      omega
    have h₂ := digitAdd_spec hw q.1 carry q.2 (by omega)
    set r := digitAdd q.1 carry q.2
    obtain ⟨ih, ihlen⟩ := multiplyAddLoop_spec hw factor source p.2 r.2
    refine ⟨?_, by simpa [multiplyAddLoop] using ihlen⟩
    simp only [toNat_ofNat, zero_mod, mul_zero, add_zero] at h₁
    simp only [multiplyAddLoop, val_cons, List.length_cons, pow_succ']
    linear_combination 2 ^ w * ih + hmul + h₁ + h₂

/-- `internalMultiplyAdd` into a result of `n + 1` digits: the product and its last carry. -/
def multiplyAdd (source : List (BitVec w)) (factor summand : BitVec w) : List (BitVec w) :=
  let (digits, high, carry) := multiplyAddLoop factor source 0#w summand
  digits ++ [carry + high]

/-- The last carry of a product of `n` digits fits into one digit. -/
lemma multiplyAddLoop_last_lt (hw : 1 < w) (factor summand : BitVec w) (source : List (BitVec w)) :
    (multiplyAddLoop factor source 0#w summand).2.1.toNat +
      (multiplyAddLoop factor source 0#w summand).2.2.toNat < 2 ^ w := by
  obtain ⟨h, -⟩ := multiplyAddLoop_spec hw factor source 0#w summand
  have hval := val_lt source
  by_contra hle
  have h₁ : (2 ^ w) ^ source.length * 2 ^ w ≤ _ := Nat.mul_le_mul_left _ (Nat.le_of_not_lt hle)
  have h₂ : val source * factor.toNat + summand.toNat < (2 ^ w) ^ source.length * 2 ^ w := by
    calc val source * factor.toNat + summand.toNat
        ≤ val source * (2 ^ w - 1) + (2 ^ w - 1) := Nat.add_le_add (Nat.mul_le_mul_left _ (by omega)) (by omega)
      _ = (val source + 1) * (2 ^ w - 1) := by rw [Nat.add_mul, Nat.one_mul]
      _ ≤ (2 ^ w) ^ source.length * (2 ^ w - 1) := Nat.mul_le_mul_right _ hval
      _ < (2 ^ w) ^ source.length * 2 ^ w :=
          Nat.mul_lt_mul_of_pos_left (by omega) (by positivity)
  simp only [BitVec.toNat_ofNat, Nat.zero_mod, Nat.add_zero] at h
  omega

lemma multiplyAdd_spec (hw : 1 < w) (source : List (BitVec w)) (factor summand : BitVec w) :
    val (multiplyAdd source factor summand) = val source * factor.toNat + summand.toNat ∧
    (multiplyAdd source factor summand).length = source.length + 1 := by
  obtain ⟨h, hlen⟩ := multiplyAddLoop_spec hw factor source 0#w summand
  have hlast := multiplyAddLoop_last_lt hw factor summand source
  rcases hloop : multiplyAddLoop factor source 0#w summand with ⟨digits, high, carry⟩
  simp only [hloop] at h hlen hlast
  refine ⟨?_, by simp [multiplyAdd, hloop, hlen]⟩
  simp only [multiplyAdd, hloop, val_concat, hlen, toNat_add]
  rw [mod_eq_of_lt (by omega), add_comm carry.toNat, h]
  simp

/-! ## Shifts by less than a digit -/

/-- `(d << k) | low` below and `d >> (DigitBits - k)` above are `d * 2^k + low`. -/
lemma toNat_shiftLeft_or {k : ℕ} (hk : k ≤ w) (d low : BitVec w) (hlow : low.toNat < 2 ^ k) :
    (d <<< k ||| low).toNat + 2 ^ w * (d.toNat / 2 ^ (w - k)) = d.toNat * 2 ^ k + low.toNat := by
  have hpow : 2 ^ w = 2 ^ k * 2 ^ (w - k) := by rw [← pow_add]; congr 1; omega
  have hshift : (d <<< k).toNat = 2 ^ k * (d.toNat % 2 ^ (w - k)) := by
    rw [BitVec.toNat_shiftLeft, Nat.shiftLeft_eq, hpow, Nat.mul_comm d.toNat, Nat.mul_mod_mul_left]
  rw [BitVec.toNat_or, hshift, ← Nat.two_pow_add_eq_or_of_lt hlow, hpow]
  have := Nat.mod_add_div d.toNat (2 ^ (w - k))
  linear_combination 2 ^ k * this

/-- The loop of `absoluteLeftShiftAlwaysCopy` and `lshByAbsolute`. -/
def leftShiftLoop (shift : ℕ) : List (BitVec w) → BitVec w → List (BitVec w) × BitVec w
  | [], carry => ([], carry)
  | d :: digits, carry =>
    let (rest, last) := leftShiftLoop shift digits (d >>> (w - shift))
    ((d <<< shift ||| carry) :: rest, last)

lemma leftShiftLoop_spec {shift : ℕ} (hshift : shift ≤ w) :
    ∀ (digits : List (BitVec w)) (carry : BitVec w), carry.toNat < 2 ^ shift →
    val (leftShiftLoop shift digits carry).1 + (2 ^ w) ^ digits.length * (leftShiftLoop shift digits carry).2.toNat =
      val digits * 2 ^ shift + carry.toNat ∧
    (leftShiftLoop shift digits carry).1.length = digits.length
  | [], carry, _ => by simp [leftShiftLoop]
  | d :: digits, carry, hc => by
    have hnext : (d >>> (w - shift)).toNat = d.toNat / 2 ^ (w - shift) := by
      simp [Nat.shiftRight_eq_div_pow]
    have hnext1 : (d >>> (w - shift)).toNat < 2 ^ shift := by
      rw [hnext]
      apply Nat.div_lt_of_lt_mul
      rw [← pow_add, Nat.sub_add_cancel hshift]
      exact d.isLt
    obtain ⟨ih, ihlen⟩ := leftShiftLoop_spec hshift digits _ hnext1
    refine ⟨?_, by simpa [leftShiftLoop] using ihlen⟩
    have hround := toNat_shiftLeft_or hshift d carry hc
    rw [← hnext] at hround
    simp only [leftShiftLoop, val_cons, List.length_cons, pow_succ']
    linear_combination 2 ^ w * ih + hround

/-- The digits shifted left by less than a digit, and what is shifted out at the top. -/
def shiftDigitsLeft (shift : ℕ) (digits : List (BitVec w)) : List (BitVec w) × BitVec w :=
  if shift = 0 then (digits, 0#w) else leftShiftLoop shift digits 0#w

lemma shiftDigitsLeft_spec {shift : ℕ} (hshift : shift ≤ w) (digits : List (BitVec w)) :
    val (shiftDigitsLeft shift digits).1 + (2 ^ w) ^ digits.length * (shiftDigitsLeft shift digits).2.toNat =
      val digits * 2 ^ shift ∧
    (shiftDigitsLeft shift digits).1.length = digits.length := by
  unfold shiftDigitsLeft
  split
  next h => simp [h]
  next => simpa using leftShiftLoop_spec hshift digits 0#w (by simp)

/-- What is shifted out comes from the top digit alone. -/
lemma leftShiftLoop_carry (shift : ℕ) : ∀ (digits : List (BitVec w)) (d carry : BitVec w),
    (leftShiftLoop shift (digits ++ [d]) carry).2 = d >>> (w - shift)
  | [], _, _ => rfl
  | _ :: digits, d, _ => leftShiftLoop_carry shift digits d _

/-- The loop of `inplaceRightShiftLowZeroBits` and `rshByAbsolute`: `carry` holds the digit
shifted before. -/
def rightShiftLoop (shift : ℕ) : BitVec w → List (BitVec w) → List (BitVec w)
  | carry, [] => [carry]
  | carry, d :: digits =>
    (d <<< (w - shift) ||| carry) :: rightShiftLoop shift (d >>> shift) digits

@[simp] lemma length_rightShiftLoop (shift : ℕ) : ∀ (carry : BitVec w) (digits : List (BitVec w)),
    (rightShiftLoop shift carry digits).length = digits.length + 1
  | _, [] => rfl
  | _, _ :: digits => by simp [rightShiftLoop, length_rightShiftLoop shift _ digits]

lemma rightShiftLoop_spec {shift : ℕ} (hshift : shift ≤ w) :
    ∀ (carry : BitVec w) (digits : List (BitVec w)), carry.toNat < 2 ^ (w - shift) →
    val (rightShiftLoop shift carry digits) = carry.toNat + 2 ^ (w - shift) * val digits
  | carry, [], _ => by simp [rightShiftLoop]
  | carry, d :: digits, hc => by
    have ih := rightShiftLoop_spec hshift (d >>> shift) digits (BitVec.toNat_ushiftRight_lt d shift hshift)
    have hround := toNat_shiftLeft_or (Nat.sub_le w shift) d carry hc
    rw [Nat.sub_sub_self hshift] at hround
    have hpow : 2 ^ w = 2 ^ shift * 2 ^ (w - shift) := by
      rw [← pow_add]; congr 1; omega
    rw [BitVec.toNat_ushiftRight, Nat.shiftRight_eq_div_pow] at ih
    simp only [rightShiftLoop, val_cons]
    linear_combination 2 ^ w * ih + hround

lemma val_rightShiftLoop {shift : ℕ} (hshift : shift ≤ w) (d : BitVec w) (digits : List (BitVec w)) :
    val (rightShiftLoop shift (d >>> shift) digits) = val (d :: digits) / 2 ^ shift := by
  have hpow : 2 ^ w = 2 ^ shift * 2 ^ (w - shift) := by rw [← pow_add]; congr 1; omega
  rw [rightShiftLoop_spec hshift _ _ (toNat_ushiftRight_lt d shift hshift), val_cons, hpow,
    mul_assoc, add_mul_div_left _ _ (by positivity), toNat_ushiftRight,
    shiftRight_eq_div_pow]

/-- The digits shifted right by less than a digit. -/
def shiftDigitsRight (shift : ℕ) : List (BitVec w) → List (BitVec w)
  | [] => []
  | d :: digits => if shift = 0 then d :: digits else rightShiftLoop shift (d >>> shift) digits

@[simp] lemma length_shiftDigitsRight (shift : ℕ) (digits : List (BitVec w)) :
    (shiftDigitsRight shift digits).length = digits.length := by
  cases digits with
  | nil => rfl
  | cons d digits =>
    simp only [shiftDigitsRight]
    split
    next => rfl
    next => simp

lemma val_shiftDigitsRight {shift : ℕ} (hshift : shift ≤ w) (digits : List (BitVec w)) :
    val (shiftDigitsRight shift digits) = val digits / 2 ^ shift := by
  cases digits with
  | nil => simp [shiftDigitsRight]
  | cons d digits =>
    simp only [shiftDigitsRight]
    split
    next h => simp [h]
    next => exact val_rightShiftLoop hshift d digits

end SpiderMonkey
