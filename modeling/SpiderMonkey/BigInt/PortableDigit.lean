import SpiderMonkey.BigInt.Basic
import SpiderMonkey.BigInt.Digit
import SpiderMonkey.Lib.QuotientEstimate

/-!
# Digit multiplication and division without a two-digit type

Where the compiler offers neither a two-digit integer nor a `div` instruction,
`BigInt::digitMul` and `BigInt::digitDiv` work on half digits.  All of it is wrapping arithmetic
on words of one digit.  Division normalises the divisor, guesses one half of the quotient after
the other from the leading half of the divisor, and lowers each guess in a loop;
`correctHalfDigit_spec` says that the loop stops at the true half quotient.
-/

namespace SpiderMonkey

open QuotientEstimate BitVec

variable {w h : ℕ}

/-! ## The code -/

def halfDigitBits (w : ℕ) : ℕ := w / 2

def halfDigitBase (w : ℕ) : BitVec w := 1#w <<< halfDigitBits w

def halfDigitMask (w : ℕ) : BitVec w := (1#w <<< halfDigitBits w) - 1#w

/-- `digitMul` in half digits: the low and the high word of the product. -/
def digitMulPortable (a b : BitVec w) : BitVec w × BitVec w :=
  let aLow := a &&& halfDigitMask w
  let aHigh := a >>> halfDigitBits w
  let bLow := b &&& halfDigitMask w
  let bHigh := b >>> halfDigitBits w
  let rLow := aLow * bLow
  let rMid1 := aLow * bHigh
  let rMid2 := aHigh * bLow
  let rHigh := aHigh * bHigh
  let (low, carry) := digitAdd rLow (rMid1 <<< halfDigitBits w) 0#w
  let (low, carry) := digitAdd low (rMid2 <<< halfDigitBits w) carry
  (low, (rMid1 >>> halfDigitBits w) + (rMid2 >>> halfDigitBits w) + rHigh + carry)

/-- The correction loop for one half of the quotient.  Each round lowers `q`, and at zero the
test fails, so `q` rounds are enough. -/
def correctHalfDigit (vn1 vn0 un : BitVec w) : ℕ → BitVec w → BitVec w → BitVec w
  | 0, q, _ => q
  | rounds + 1, q, rhat =>
    if q ≥ halfDigitBase w ∨ q * vn0 > rhat * halfDigitBase w + un then
      let q := q - 1#w
      let rhat := rhat + vn1
      if rhat ≥ halfDigitBase w then q else correctHalfDigit vn1 vn0 un rounds q rhat
    else q

/-- One half of the quotient: of `u` followed by the half digit `un`, by the normalised
divisor. -/
def halfQuotient (divisor u un : BitVec w) : BitVec w :=
  let vn1 := divisor >>> halfDigitBits w
  let vn0 := divisor &&& halfDigitMask w
  let q := u / vn1
  let rhat := u - q * vn1
  correctHalfDigit vn1 vn0 un q.toNat q rhat

/-- What the half digit division leaves of `u` followed by `un`. -/
def halfRemainder (divisor u un q : BitVec w) : BitVec w := u * halfDigitBase w + un - q * divisor

/-- 0 if `s == 0` and all 1-bits otherwise. -/
def sZeroMask (w s : ℕ) : BitVec w := (-(BitVec.ofNat w s)).sshiftRight (w - 1)

/-- The leading digit of the dividend, shifted by the `s` places that normalise the divisor. -/
def shiftedHigh (high low : BitVec w) (s : ℕ) : BitVec w :=
  (high <<< s) ||| ((low >>> ((w - s) &&& (w - 1))) &&& sZeroMask w s)

/-- `digitDiv` in half digits: the quotient and the remainder. -/
def digitDivPortable (high low divisor : BitVec w) : BitVec w × BitVec w :=
  let s := digitLeadingZeroes divisor
  let divisor := divisor <<< s
  let un32 := shiftedHigh high low s
  let un10 := low <<< s
  let un1 := un10 >>> halfDigitBits w
  let un0 := un10 &&& halfDigitMask w
  let q1 := halfQuotient divisor un32 un1
  let un21 := halfRemainder divisor un32 un1 q1
  let q0 := halfQuotient divisor un21 un0
  (q1 * halfDigitBase w + q0, halfRemainder divisor un21 un0 q0 >>> s)

/-! ## Half digits -/

section

variable (hw : w = h + h)
include hw

lemma halfDigitBits_eq : halfDigitBits w = h := by
  simp only [halfDigitBits]
  omega

lemma two_pow_eq_sq : 2 ^ w = 2 ^ h * 2 ^ h := by rw [hw, pow_add]

lemma toNat_shiftRight_half (d : BitVec w) : (d >>> halfDigitBits w).toNat = d.toNat / 2 ^ h := by
  rw [halfDigitBits_eq hw, toNat_ushiftRight, Nat.shiftRight_eq_div_pow]

lemma toNat_shiftLeft_half (d : BitVec w) : (d <<< halfDigitBits w).toNat = 2 ^ h * (d.toNat % 2 ^ h) := by
  rw [halfDigitBits_eq hw, toNat_shiftLeft, Nat.shiftLeft_eq, two_pow_eq_sq hw,
    Nat.mul_comm, Nat.mul_mod_mul_left]

lemma toNat_mul_half {a b : BitVec w} (ha : a.toNat < 2 ^ h) (hb : b.toNat < 2 ^ h) :
    (a * b).toNat = a.toNat * b.toNat := by
  rw [toNat_mul, Nat.mod_eq_of_lt]
  rw [two_pow_eq_sq hw]
  exact Nat.mul_lt_mul'' ha hb

lemma shiftRight_half_lt (d : BitVec w) : (d >>> halfDigitBits w).toNat < 2 ^ h := by
  rw [toNat_shiftRight_half hw]
  exact Nat.div_lt_of_lt_mul (two_pow_eq_sq hw ▸ d.isLt)

variable (hh : 0 < h)
include hh

lemma toNat_halfDigitBase : (halfDigitBase w).toNat = 2 ^ h := by
  rw [halfDigitBase, halfDigitBits_eq hw]
  exact toNat_one_shiftLeft (by omega) (by omega)

lemma toNat_and_halfDigitMask (d : BitVec w) : (d &&& halfDigitMask w).toNat = d.toNat % 2 ^ h := by
  rw [halfDigitMask, halfDigitBits_eq hw]
  exact toNat_and_mask (by omega) (by omega) d

lemma and_halfDigitMask_lt (d : BitVec w) : (d &&& halfDigitMask w).toNat < 2 ^ h := by
  rw [toNat_and_halfDigitMask hw hh]
  exact Nat.mod_lt _ (by positivity)

lemma toNat_eq_halves (d : BitVec w) :
    d.toNat = (d >>> halfDigitBits w).toNat * 2 ^ h + (d &&& halfDigitMask w).toNat := by
  rw [toNat_and_halfDigitMask hw hh, toNat_shiftRight_half hw, Nat.div_add_mod']

/-! ## Multiplication -/

/-- The columns of the product add up, and no carry is lost between them. -/
lemma digitMulPortable_spec (a b : BitVec w) :
    (digitMulPortable a b).1.toNat + 2 ^ w * (digitMulPortable a b).2.toNat = a.toNat * b.toNat := by
  have hsq := two_pow_eq_sq hw
  have ha := toNat_eq_halves hw hh a
  have hb := toNat_eq_halves hw hh b
  have hlow := and_halfDigitMask_lt hw hh
  have hhigh := shiftRight_half_lt hw
  have hLow := toNat_mul_half hw (hlow a) (hlow b)
  have hMid1 := toNat_mul_half hw (hlow a) (hhigh b)
  have hMid2 := toNat_mul_half hw (hhigh a) (hlow b)
  have hHigh := toNat_mul_half hw (hhigh a) (hhigh b)
  simp only [digitMulPortable]
  generalize hrLow : (a &&& halfDigitMask w) * (b &&& halfDigitMask w) = rLow at *
  generalize hrMid1 : (a &&& halfDigitMask w) * (b >>> halfDigitBits w) = rMid1 at *
  generalize hrMid2 : (a >>> halfDigitBits w) * (b &&& halfDigitMask w) = rMid2 at *
  generalize hrHigh : (a >>> halfDigitBits w) * (b >>> halfDigitBits w) = rHigh at *
  have hbig := two_lt_two_pow (w := w) (by omega)
  have hp := digitAdd_spec (by omega) rLow (rMid1 <<< halfDigitBits w) 0#w (by simp; omega)
  generalize digitAdd rLow (rMid1 <<< halfDigitBits w) 0#w = p at *
  have hshift := toNat_shiftLeft_half hw
  have hp2 : p.2.toNat ≤ 1 := by
    by_contra hlt
    have : 2 ^ w * 2 ≤ 2 ^ w * p.2.toNat := Nat.mul_le_mul_left _ (by omega)
    have := rLow.isLt
    have := (rMid1 <<< halfDigitBits w).isLt
    simp only [toNat_zero, Nat.mul_zero] at hp
    omega
  have hq := digitAdd_spec (by omega) p.1 (rMid2 <<< halfDigitBits w) p.2 (by omega)
  generalize digitAdd p.1 (rMid2 <<< halfDigitBits w) p.2 = q at *
  have hcols : q.1.toNat + 2 ^ w * (rMid1.toNat / 2 ^ h + rMid2.toNat / 2 ^ h + rHigh.toNat +
      q.2.toNat) = a.toNat * b.toNat := by
    have h1 := Nat.div_add_mod rMid1.toNat (2 ^ h)
    have h2 := Nat.div_add_mod rMid2.toNat (2 ^ h)
    simp only [hshift, toNat_zero] at hp hq
    rw [ha, hb, hsq] at *
    linear_combination hp + hq + hLow + 2 ^ h * hMid1 + 2 ^ h * hMid2 + 2 ^ h * 2 ^ h * hHigh + 2 ^ h * h1 + 2 ^ h * h2
  have hfit : rMid1.toNat / 2 ^ h + rMid2.toNat / 2 ^ h + rHigh.toNat + q.2.toNat < 2 ^ w := by
    by_contra hlt
    have h1 : a.toNat * b.toNat < 2 ^ w * 2 ^ w := Nat.mul_lt_mul'' a.isLt b.isLt
    have h2 := Nat.mul_le_mul_left (2 ^ w) (Nat.not_lt.mp hlt)
    omega
  rw [← hcols]
  simp [toNat_shiftRight_half hw, Nat.mod_eq_of_lt hfit]

lemma digitMulPortable_eq (a b : BitVec w) : digitMulPortable a b = digitMul a b := by
  have heq := (digitMulPortable_spec hw hh a b).trans (digitMul_spec a b).symm
  have h1 := (digitMulPortable a b).1.isLt
  have h2 := (digitMul a b).1.isLt
  have hpos : 0 < 2 ^ w := by positivity
  have hfst : (digitMulPortable a b).1.toNat = (digitMul a b).1.toNat := by
    rw [← Nat.mod_eq_of_lt h1, ← Nat.mod_eq_of_lt h2, ← Nat.add_mul_mod_self_left _ (2 ^ w), heq,
      Nat.add_mul_mod_self_left]
  rw [hfst, Nat.add_left_cancel_iff, Nat.mul_right_inj hpos.ne'] at heq
  exact Prod.ext (eq_of_toNat_eq hfst) (eq_of_toNat_eq heq)

/-! ## Division -/

/-- The test of the correction loop, for a guess whose rest is below half a digit: the guess
times the divisor exceeds the dividend. -/
lemma halfDigitTest_iff {vn1 vn0 un q rhat : BitVec w} {D u : ℕ}
    (hD : D = vn1.toNat * 2 ^ h + vn0.toNat) (hvn0 : vn0.toNat < 2 ^ h) (hun : un.toNat < 2 ^ h)
    (hu : u < D) (hrhat : rhat.toNat < 2 ^ h) (hdiv : q.toNat * vn1.toNat + rhat.toNat = u) :
    (q ≥ halfDigitBase w ∨ q * vn0 > rhat * halfDigitBase w + un) ↔ u * 2 ^ h + un.toNat < q.toNat * D := by
  have hbase := toNat_halfDigitBase hw hh
  have hqD : q.toNat * D + rhat.toNat * 2 ^ h = u * 2 ^ h + q.toNat * vn0.toNat := by
    rw [hD, ← hdiv]
    ring
  by_cases hq : 2 ^ h ≤ q.toNat
  · have hlt : u * 2 ^ h + un.toNat < q.toNat * D := by
      calc u * 2 ^ h + un.toNat < (u + 1) * 2 ^ h := by rw [Nat.add_mul, Nat.one_mul]; omega
        _ ≤ D * 2 ^ h := Nat.mul_le_mul_right _ hu
        _ ≤ q.toNat * D := by rw [Nat.mul_comm]; exact Nat.mul_le_mul_right _ hq
    simp [hlt, le_def, hbase, hq]
  · have hprod := toNat_mul_half hw (Nat.not_le.mp hq) hvn0
    have hrest : (rhat * halfDigitBase w + un).toNat = rhat.toNat * 2 ^ h + un.toNat := by
      have : rhat.toNat * 2 ^ h + un.toNat < 2 ^ w := by
        calc rhat.toNat * 2 ^ h + un.toNat < (rhat.toNat + 1) * 2 ^ h := by
              rw [Nat.add_mul, Nat.one_mul]; omega
          _ ≤ 2 ^ w := by rw [two_pow_eq_sq hw]; exact Nat.mul_le_mul_right _ hrhat
      simp [hbase, Nat.mod_eq_of_lt this]
    simp only [ge_iff_le, gt_iff_lt, le_def, lt_def, hbase, hq, hprod, hrest, false_or]
    omega

/-- The loop stops at the true half quotient if it starts from a guess that is not too small and
exceeds the half digits by at most one. -/
lemma correctHalfDigit_spec {vn1 vn0 un : BitVec w} {D u : ℕ}
    (hD : D = vn1.toNat * 2 ^ h + vn0.toNat) (hvn1 : vn1.toNat < 2 ^ h) (hvn0 : vn0.toNat < 2 ^ h)
    (hun : un.toNat < 2 ^ h) (hu : u < D) {Q : ℕ} (hQ : (u * 2 ^ h + un.toNat) / D = Q) :
    ∀ (rounds : ℕ) (q rhat : BitVec w), q.toNat ≤ rounds → q.toNat ≤ 2 ^ h + 1 →
    rhat.toNat < 2 ^ h → q.toNat * vn1.toNat + rhat.toNat = u → Q ≤ q.toNat →
    (correctHalfDigit vn1 vn0 un rounds q rhat).toNat = Q
  | 0, q, _, hrounds, _, _, _, hq => by
    simp only [correctHalfDigit]
    omega
  | rounds + 1, q, rhat, hrounds, hqB, hrhat, hdiv, hq => by
    have htest := halfDigitTest_iff hw hh hD hvn0 hun hu hrhat hdiv
    have hexact (n : ℕ) (hle : Q ≤ n) (hmul : n * D ≤ u * 2 ^ h + un.toNat) : n = Q :=
      Nat.le_antisymm (hQ ▸ (Nat.le_div_iff_mul_le (by omega)).mpr hmul) hle
    rw [correctHalfDigit]
    by_cases hlt : u * 2 ^ h + un.toNat < q.toNat * D
    · rw [if_pos (htest.mpr hlt)]
      have hpred : Q < q.toNat := hQ ▸ (Nat.div_lt_iff_lt_mul (by omega)).mpr hlt
      have hbig : 2 ^ h * 2 ≤ 2 ^ w := by
        rw [two_pow_eq_sq hw]
        exact Nat.mul_le_mul_left _ (Nat.le_self_pow hh.ne' 2)
      have hqsub : (q - 1#w).toNat = q.toNat - 1 := by
        have hone := toNat_one (w := w) (by omega)
        rw [toNat_sub_of_le (by rw [le_def]; omega), hone]
      have hrhat' : (rhat + vn1).toNat = rhat.toNat + vn1.toNat := by
        rw [toNat_add, Nat.mod_eq_of_lt (by omega)]
      have hdiv' : (q.toNat - 1) * vn1.toNat + (rhat.toNat + vn1.toNat) = u := by
        rw [Nat.sub_mul, Nat.one_mul, ← hdiv]
        have := Nat.le_mul_of_pos_left vn1.toNat (show 0 < q.toNat by omega)
        omega
      by_cases hbreak : 2 ^ h ≤ rhat.toNat + vn1.toNat
      · simp only [ge_iff_le, le_def, toNat_halfDigitBase hw hh, hrhat', if_pos hbreak, hqsub]
        -- The rest no longer fits into half a digit, and the lower half of the divisor cannot
        -- use it up.
        refine hexact _ (by omega) ?_
        calc (q.toNat - 1) * D = (q.toNat - 1) * vn1.toNat * 2 ^ h + (q.toNat - 1) * vn0.toNat := by
              rw [hD]; ring
          _ ≤ (q.toNat - 1) * vn1.toNat * 2 ^ h + (rhat.toNat + vn1.toNat) * 2 ^ h :=
              Nat.add_le_add_left ((Nat.mul_le_mul (by omega) hvn0.le).trans
                (Nat.mul_le_mul_right _ hbreak)) _
          _ = u * 2 ^ h := by rw [← Nat.add_mul, hdiv']
          _ ≤ u * 2 ^ h + un.toNat := Nat.le_add_right _ _
      · simp only [ge_iff_le, le_def, toNat_halfDigitBase hw hh, hrhat', if_neg hbreak]
        exact correctHalfDigit_spec hD hvn1 hvn0 hun hu hQ rounds _ _ (by omega) (by omega)
          (by omega) (by rw [hqsub, hrhat', hdiv']) (by omega)
    · rw [if_neg (htest.not.mpr hlt)]
      exact hexact _ hq (Nat.not_lt.mp hlt)

lemma toNat_halfQuotient {divisor u un : BitVec w} (hnorm : 2 ^ w ≤ 2 * divisor.toNat)
    (hu : u.toNat < divisor.toNat) (hun : un.toNat < 2 ^ h) :
    (halfQuotient divisor u un).toNat = (u.toNat * 2 ^ h + un.toNat) / divisor.toNat := by
  have hD := toNat_eq_halves hw hh divisor
  have hvn1 := shiftRight_half_lt hw divisor
  have hvn0 := and_halfDigitMask_lt hw hh divisor
  simp only [halfQuotient]
  generalize divisor >>> halfDigitBits w = vn1 at *
  generalize divisor &&& halfDigitMask w = vn0 at *
  have hsq := two_pow_eq_sq hw
  have hlead : 2 ^ h ≤ 2 * vn1.toNat := by
    by_contra hlt
    have heven : 2 ^ h = 2 * 2 ^ (h - 1) := by rw [← pow_succ', Nat.sub_add_cancel hh]
    have : (vn1.toNat * 2 + 2) * 2 ^ h ≤ 2 ^ h * 2 ^ h := Nat.mul_le_mul_right _ (by omega)
    rw [Nat.add_mul, Nat.mul_right_comm] at this
    omega
  have hq : (u / vn1).toNat * vn1.toNat + u.toNat % vn1.toNat = u.toNat := by
    rw [toNat_udiv]
    exact Nat.div_add_mod' _ _
  have hrhat : (u - u / vn1 * vn1).toNat = u.toNat % vn1.toNat := by
    have hmul : (u / vn1 * vn1).toNat = (u / vn1).toNat * vn1.toNat := by
      rw [toNat_mul, Nat.mod_eq_of_lt (by have := u.isLt; omega)]
    rw [toNat_sub_of_le (by rw [le_def]; omega)]
    omega
  have hmod : u.toNat % vn1.toNat < vn1.toNat := Nat.mod_lt _ (by have := Nat.two_pow_pos h; omega)
  refine correctHalfDigit_spec hw hh hD hvn1 hvn0 hun hu rfl _ _ _ le_rfl ?_ (by omega) (by omega) ?_
  · by_contra hlt
    have : (2 ^ h + 2) * vn1.toNat ≤ (u / vn1).toNat * vn1.toNat := Nat.mul_le_mul_right _ (by omega)
    rw [Nat.add_mul, Nat.mul_comm] at this
    omega
  · exact quotient_le_of_divMod (mul_le_of_quotient rfl hun hD) hq hmod

lemma toNat_halfRemainder {divisor u un q : BitVec w}
    (hq : q.toNat = (u.toNat * 2 ^ h + un.toNat) / divisor.toNat) (hd : 0 < divisor.toNat) :
    (halfRemainder divisor u un q).toNat = (u.toNat * 2 ^ h + un.toNat) % divisor.toNat := by
  have hdvd := Nat.div_add_mod' (u.toNat * 2 ^ h + un.toNat) divisor.toNat
  have hval : u * halfDigitBase w + un =
      q * divisor + BitVec.ofNat w ((u.toNat * 2 ^ h + un.toNat) % divisor.toNat) := by
    apply eq_of_toNat_eq
    simp [toNat_halfDigitBase hw hh, hq, hdvd]
  rw [halfRemainder, hval, BitVec.add_comm, BitVec.add_sub_cancel, toNat_ofNat,
    Nat.mod_eq_of_lt ((Nat.mod_lt _ hd).trans divisor.isLt)]

end

/-! ## Normalisation -/

lemma sZeroMask_eq (W : DigitWidth) {s : ℕ} (hs : s < W.bits) :
    sZeroMask W.bits s = if s = 0 then 0#W.bits else allOnes W.bits := by
  cases W with
  | bits32 => revert s; decide
  | bits64 => revert s; decide

lemma shiftMask_eq (W : DigitWidth) (n : ℕ) : n &&& (W.bits - 1) = n % W.bits := by
  cases W with
  | bits32 => exact Nat.and_two_pow_sub_one_eq_mod n 5
  | bits64 => exact Nat.and_two_pow_sub_one_eq_mod n 6

lemma shiftedHigh_spec (W : DigitWidth) {s : ℕ} (hs : s < W.bits) {high low : Digit W}
    (hhigh : high.toNat < 2 ^ (W.bits - s)) :
    (shiftedHigh high low s).toNat * 2 ^ W.bits + (low <<< s).toNat =
      (high.toNat * 2 ^ W.bits + low.toNat) * 2 ^ s := by
  have hpow : 2 ^ W.bits = 2 ^ s * 2 ^ (W.bits - s) := by rw [← pow_add]; congr 1; omega
  have hlow : low.toNat / 2 ^ (W.bits - s) < 2 ^ s := Nat.div_lt_of_lt_mul (by
    rw [Nat.mul_comm, ← hpow]
    exact low.isLt)
  have htop : (low >>> ((W.bits - s) &&& (W.bits - 1)) &&& sZeroMask W.bits s).toNat =
      low.toNat / 2 ^ (W.bits - s) := by
    rw [sZeroMask_eq W hs, shiftMask_eq]
    by_cases h0 : s = 0
    · simp [h0, Nat.div_eq_of_lt low.isLt]
    · rw [Nat.mod_eq_of_lt (by omega)]
      simp [h0, Nat.shiftRight_eq_div_pow]
  have hor := toNat_shiftLeft_or hs.le high _ (htop ▸ hlow)
  rw [Nat.div_eq_of_lt hhigh, Nat.mul_zero, Nat.add_zero, htop] at hor
  have hmod : low.toNat * 2 ^ s % 2 ^ W.bits = 2 ^ s * (low.toNat % 2 ^ (W.bits - s)) := by
    rw [hpow, Nat.mul_comm, Nat.mul_mod_mul_left]
  rw [shiftedHigh, hor, toNat_shiftLeft, Nat.shiftLeft_eq, hmod]
  have := Nat.div_add_mod low.toNat (2 ^ (W.bits - s))
  linear_combination 2 ^ s * this + low.toNat / 2 ^ (W.bits - s) * hpow

lemma div_two_steps {u a b B D : ℕ} (hD : 0 < D) :
    (u * B + a) / D * B + ((u * B + a) % D * B + b) / D = ((u * B + a) * B + b) / D ∧
    ((u * B + a) % D * B + b) % D = ((u * B + a) * B + b) % D := by
  have hsplit : (u * B + a) * B + b = (u * B + a) % D * B + b + D * ((u * B + a) / D * B) := by
    linear_combination B * (Nat.div_add_mod (u * B + a) D).symm
  rw [hsplit, Nat.add_mul_div_left _ _ hD, Nat.add_mul_mod_self_left, Nat.add_comm]
  exact ⟨rfl, rfl⟩

section

variable {W : DigitWidth} {high low divisor : Digit W} (hlt : high.toNat < divisor.toNat)
include hlt

lemma normalised_digits :
    let s := digitLeadingZeroes divisor
    s < W.bits ∧ (divisor <<< s).toNat = divisor.toNat * 2 ^ s ∧ 2 ^ W.bits ≤ 2 * (divisor <<< s).toNat ∧
    (shiftedHigh high low s).toNat < (divisor <<< s).toNat ∧
    (shiftedHigh high low s).toNat * 2 ^ W.bits + (low <<< s).toNat =
      (high.toNat * 2 ^ W.bits + low.toNat) * 2 ^ s := by
  intro s
  have hd : divisor ≠ 0#W.bits := fun h0 => by simp [h0] at hlt
  have hs : s < W.bits := digitLeadingZeroes_lt hd
  obtain ⟨hge, hdlt⟩ := digitLeadingZeroes_spec hd
  have hpow : 2 ^ W.bits = 2 ^ (W.bits - s) * 2 ^ s := by rw [← pow_add]; congr 1; omega
  have hD : (divisor <<< s).toNat = divisor.toNat * 2 ^ s := by
    rw [toNat_shiftLeft, Nat.shiftLeft_eq, Nat.mod_eq_of_lt]
    rw [hpow]
    exact Nat.mul_lt_mul_of_pos_right hdlt (by positivity)
  have hhigh := @shiftedHigh_spec W s hs high low (hlt.trans hdlt)
  refine ⟨hs, hD, ?_, ?_, hhigh⟩
  · have hhalf : 2 ^ (W.bits - s) = 2 * 2 ^ (W.bits - s - 1) := by
      rw [← pow_succ', Nat.sub_add_cancel (by omega)]
    rw [hD, hpow, hhalf, ← Nat.mul_assoc]
    exact Nat.mul_le_mul_right _ (Nat.mul_le_mul_left _ hge)
  · rw [hD]
    refine Nat.lt_of_mul_lt_mul_right (a := 2 ^ W.bits) ?_
    calc (shiftedHigh high low s).toNat * 2 ^ W.bits
        ≤ (high.toNat * 2 ^ W.bits + low.toNat) * 2 ^ s := hhigh ▸ Nat.le_add_right _ _
      _ < (high.toNat + 1) * 2 ^ W.bits * 2 ^ s := by
          refine Nat.mul_lt_mul_of_pos_right ?_ (by positivity)
          rw [Nat.add_mul, Nat.one_mul]
          exact Nat.add_lt_add_left low.isLt _
      _ ≤ divisor.toNat * 2 ^ W.bits * 2 ^ s := Nat.mul_le_mul_right _ (Nat.mul_le_mul_right _ hlt)
      _ = divisor.toNat * 2 ^ s * 2 ^ W.bits := Nat.mul_right_comm _ _ _

end

/-- Every variant of `digitMul` and `digitDiv` computes the same digits.  The portable product is
exact; both correction loops of the portable division end with the exact half quotient, and its
quotient and remainder are exact. -/
theorem portable_digits_exact (W : DigitWidth) : (∀ a b : Digit W, digitMulPortable a b = digitMul a b ∧
      (digitMulPortable a b).1.toNat + 2 ^ W.bits * (digitMulPortable a b).2.toNat = a.toNat * b.toNat) ∧
    ∀ high low divisor : Digit W, high.toNat < divisor.toNat → (let s := digitLeadingZeroes divisor
       let D := divisor <<< s
       let B := 2 ^ halfDigitBits W.bits
       let un32 := shiftedHigh high low s
       let un1 := (low <<< s) >>> halfDigitBits W.bits
       let un0 := (low <<< s) &&& halfDigitMask W.bits
       let q1 := halfQuotient D un32 un1
       let un21 := halfRemainder D un32 un1 q1
       q1.toNat = (un32.toNat * B + un1.toNat) / D.toNat ∧
       un21.toNat = (un32.toNat * B + un1.toNat) % D.toNat ∧
       (halfQuotient D un21 un0).toNat = (un21.toNat * B + un0.toNat) / D.toNat) ∧
      (digitDivPortable high low divisor).1.toNat = (high.toNat * 2 ^ W.bits + low.toNat) / divisor.toNat ∧
      (digitDivPortable high low divisor).2.toNat = (high.toNat * 2 ^ W.bits + low.toNat) % divisor.toNat ∧
      digitDivPortable high low divisor = digitDiv high low divisor := by
  obtain ⟨h, hw, hh⟩ : ∃ h, W.bits = h + h ∧ 0 < h := by
    cases W with
    | bits32 => exact ⟨16, rfl, by norm_num⟩
    | bits64 => exact ⟨32, rfl, by norm_num⟩
  constructor
  · exact fun a b => ⟨digitMulPortable_eq hw hh a b, digitMulPortable_spec hw hh a b⟩
  · intro high low divisor hlt
    have hhalf := halfDigitBits_eq hw
    obtain ⟨hs, hD, hnorm, hu32, hval⟩ := @normalised_digits W high low divisor hlt
    have hun1 := shiftRight_half_lt hw (low <<< digitLeadingZeroes divisor)
    have hun0 := and_halfDigitMask_lt hw hh (low <<< digitLeadingZeroes divisor)
    have hlow := toNat_eq_halves hw hh (low <<< digitLeadingZeroes divisor)
    have hq1 := toNat_halfQuotient hw hh hnorm hu32 hun1
    have hun21 := toNat_halfRemainder hw hh hq1 (by omega)
    have hq0 := toNat_halfQuotient hw hh hnorm (hun21 ▸ Nat.mod_lt _ (by omega)) hun0
    have hrem := toNat_halfRemainder hw hh hq0 (by omega)
    -- The two half steps together divide the shifted dividend by the shifted divisor.
    have htwo := div_two_steps (u := (shiftedHigh high low (digitLeadingZeroes divisor)).toNat)
      (a := ((low <<< digitLeadingZeroes divisor) >>> halfDigitBits W.bits).toNat)
      (b := ((low <<< digitLeadingZeroes divisor) &&& halfDigitMask W.bits).toNat) (B := 2 ^ h)
      (show 0 < (divisor <<< digitLeadingZeroes divisor).toNat by omega)
    have hwhole : (digitDivPortable high low divisor) = digitDiv high low divisor := by
      rw [← hun21, ← hq1, ← hq0, ← hrem, Nat.add_mul, Nat.mul_assoc, ← two_pow_eq_sq hw, Nat.add_assoc,
        ← hlow, hval, hD, Nat.mul_div_mul_right _ _ (by positivity), Nat.mul_mod_mul_right] at htwo
      apply Prod.ext <;> apply eq_of_toNat_eq
      · simp [digitDivPortable, digitDiv, toNat_halfDigitBase hw hh, ← htwo.1]
      · simp only [digitDivPortable, digitDiv, toNat_ushiftRight, htwo.2, Nat.shiftRight_eq_div_pow,
          toNat_ofNat]
        rw [Nat.mul_div_cancel _ (by positivity)]
        exact (Nat.mod_eq_of_lt ((Nat.mod_lt _ (by omega)).trans divisor.isLt)).symm
    obtain ⟨hquot, hrest⟩ := (Nat.div_mod_unique (by omega)).mpr
      ⟨(Nat.add_comm _ _).trans (Nat.mul_comm _ divisor.toNat ▸ (digitDiv_spec low hlt).1), (digitDiv_spec low hlt).2⟩
    simp only [hhalf, hwhole]
    simp only [hhalf] at hq1 hun21 hq0
    exact ⟨⟨hq1, hun21, hq0⟩, hquot.symm, hrest.symm, trivial⟩

/-- A divisor that is already normalised, with a first guess that is lowered twice. -/
theorem portable_digits_exact_shift_zero : digitDivPortable 0x8000000000000000#64 0#64 0x80000000ffffffff#64 =
      digitDiv 0x8000000000000000#64 0#64 0x80000000ffffffff#64 :=
  ((portable_digits_exact .bits64).2 0x8000000000000000#64 0#64 0x80000000ffffffff#64 (by decide)).2.2.2

end SpiderMonkey
