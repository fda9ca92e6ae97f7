import SpiderMonkey.BigInt.Digit
import SpiderMonkey.Lib.QuotientEstimate

/-!
# Division of digit vectors

The two division loops of BigInt on bare digit vectors: by one digit (`divDigitLoop`, the loop
of `absoluteDivWithDigitDivisor`) and by two or more (`divLoop`, steps D2 to D4 of Knuth's
Algorithm D as `absoluteDivWithBigIntDivisor` runs them).

The argument for the second has three layers.  `correctQhat_spec` is about the correction loop
alone: it never goes below the true quotient digit, and what it leaves passes the test on the
leading digits.  `estimateQhat_spec` concludes that the estimate is the true digit or one more,
and `divStep_spec` that after the at most one add-back digit and remainder are exact.
`divLoop_spec` is the induction over the positions: it keeps the dividend equal to the digits
found so far times the divisor plus what is left.
-/

namespace SpiderMonkey

open Radix List Nat QuotientEstimate

variable {w : ℕ}

/-! ## One-digit divisors -/

/-- The quotient digits and the remainder of a division by one digit, from the top digit
down. -/
def divDigitLoop (divisor : BitVec w) : List (BitVec w) → List (BitVec w) × BitVec w
  | [] => ([], 0#w)
  | d :: digits =>
    let (quotient, remainder) := divDigitLoop divisor digits
    let (q, remainder) := digitDiv remainder d divisor
    (q :: quotient, remainder)

lemma divDigitLoop_spec {divisor : BitVec w} (hd : 0 < divisor.toNat) : ∀ digits : List (BitVec w),
    val (divDigitLoop divisor digits).1 * divisor.toNat + (divDigitLoop divisor digits).2.toNat = val digits ∧
    (divDigitLoop divisor digits).2.toNat < divisor.toNat ∧
    (divDigitLoop divisor digits).1.length = digits.length
  | [] => by simpa [divDigitLoop] using hd
  | d :: digits => by
    obtain ⟨ih, ihlt, ihlen⟩ := divDigitLoop_spec hd digits
    obtain ⟨hdiv, hlt⟩ := digitDiv_spec d ihlt
    refine ⟨?_, hlt, by simpa [divDigitLoop] using ihlen⟩
    simp only [divDigitLoop, val_cons]
    linear_combination 2 ^ w * ih + hdiv

lemma divDigitLoop_divMod {divisor : BitVec w} (hd : 0 < divisor.toNat) (digits : List (BitVec w)) :
    val (divDigitLoop divisor digits).1 = val digits / divisor.toNat ∧
    (divDigitLoop divisor digits).2.toNat = val digits % divisor.toNat ∧
    (divDigitLoop divisor digits).1.length = digits.length := by
  obtain ⟨hval, hlt, hlen⟩ := divDigitLoop_spec hd digits
  obtain ⟨hquot, hrem⟩ := (Nat.div_mod_unique hd).mpr
    ⟨(by rw [Nat.mul_comm, Nat.add_comm, hval] :
      (divDigitLoop divisor digits).2.toNat + divisor.toNat * val (divDigitLoop divisor digits).1 = val digits), hlt⟩
  omega

/-! ## Estimating a quotient digit (D3) -/

/-- The loop that lowers the estimate while it fails the test on the second digit of the
divisor.  It stops at the latest when the estimate is zero, so `qhat` rounds are enough. -/
def correctQhat (vn1 vn2 ujn2 : BitVec w) : ℕ → BitVec w → BitVec w → BitVec w
  | 0, qhat, _ => qhat
  | rounds + 1, qhat, rhat =>
    if productGreaterThan qhat vn2 rhat ujn2 then
      let qhat := qhat - 1#w
      let prevRhat := rhat
      let rhat := rhat + vn1
      -- `v[n-1] >= 0`, so this tests for overflow.
      if rhat < prevRhat then qhat else correctQhat vn1 vn2 ujn2 rounds qhat rhat
    else qhat

/-- The estimate of the quotient digit for the remaining dividend, whose digit `n` is the most
significant one left. -/
def estimateQhat (v remaining : List (BitVec w)) : BitVec w :=
  let n := v.length
  let vn1 := v.getD (n - 1) 0#w
  let ujn := remaining.getD n 0#w
  if ujn = vn1 then BitVec.allOnes w
  else
    let (qhat, rhat) := digitDiv ujn (remaining.getD (n - 1) 0#w) vn1
    correctQhat vn1 (v.getD (n - 2) 0#w) (remaining.getD (n - 2) 0#w) qhat.toNat qhat rhat

/-- The correction loop keeps the estimate at or above the true digit, and what it leaves
passes the test on the leading digits. -/
lemma correctQhat_spec (hw : 1 < w) {vn1 vn2 ujn2 : BitVec w} {u v P ur vr top : ℕ}
    (hu : u = (top * 2 ^ w + ujn2.toNat) * P + ur) (hur : ur < P)
    (hv : v = (vn1.toNat * 2 ^ w + vn2.toNat) * P + vr) :
    ∀ (rounds : ℕ) (qhat rhat : BitVec w), qhat.toNat ≤ rounds →
    qhat.toNat * vn1.toNat + rhat.toNat = top → u / v ≤ qhat.toNat →
    u / v ≤ (correctQhat vn1 vn2 ujn2 rounds qhat rhat).toNat ∧
    (correctQhat vn1 vn2 ujn2 rounds qhat rhat).toNat * (vn1.toNat * 2 ^ w + vn2.toNat) ≤ top * 2 ^ w + ujn2.toNat
  | 0, qhat, rhat, hrounds, _, hq => by
    have h0 : qhat.toNat = 0 := le_zero.mp hrounds
    exact ⟨hq, by simp [correctQhat, h0]⟩
  | rounds + 1, qhat, rhat, hrounds, htop, hq => by
    have hone := toNat_one hw
    have hqlt := qhat.isLt
    rw [correctQhat]
    split_ifs with htest
    · rw [productGreaterThan_iff] at htest
      have hq0 : 0 < qhat.toNat := by
        by_contra h
        rw [le_zero.mp (Nat.le_of_not_lt h), Nat.zero_mul] at htest
        exact Nat.not_lt_zero _ htest
      have hpred : (qhat - 1#w).toNat = qhat.toNat - 1 := by
        rw [BitVec.toNat_sub, hone, show 2 ^ w - 1 + qhat.toNat = 2 ^ w + (qhat.toNat - 1) by omega,
          add_mod_left, mod_eq_of_lt (by omega)]
      obtain ⟨k, hk⟩ : ∃ k, qhat.toNat = k + 1 := ⟨qhat.toNat - 1, by omega⟩
      -- The estimate fails the test on the two leading digits, so it exceeds the true digit.
      have hfail : top * 2 ^ w + ujn2.toNat < qhat.toNat * (vn1.toNat * 2 ^ w + vn2.toNat) := by
        rw [← htop]
        linarith
      have hq' : u / v ≤ qhat.toNat - 1 := quotient_le_pred hu hur hv hq hfail
      have htop' : k * vn1.toNat + (rhat.toNat + vn1.toNat) = top := by
        rw [← htop, hk]; ring
      by_cases hover : rhat + vn1 < rhat
      · -- `rhat` has reached the base, so the lowered estimate passes the test.
        simp only [if_pos hover, hpred]
        refine ⟨hq', ?_⟩
        have hbase : 2 ^ w ≤ rhat.toNat + vn1.toNat := by
          by_contra h
          rw [BitVec.lt_def, BitVec.toNat_add, mod_eq_of_lt (by omega)] at hover
          omega
        have hsmall : k * vn2.toNat ≤ 2 ^ w * 2 ^ w := Nat.mul_le_mul (by omega) vn2.isLt.le
        have hlarge : 2 ^ w * 2 ^ w ≤ (rhat.toNat + vn1.toNat) * 2 ^ w := Nat.mul_le_mul_right _ hbase
        rw [hk, Nat.add_sub_cancel, ← htop']
        linarith
      · simp only [if_neg hover]
        have hsum : (rhat + vn1).toNat = rhat.toNat + vn1.toNat := by
          rcases Nat.lt_or_ge (rhat.toNat + vn1.toNat) (2 ^ w) with h | h
          · simp [mod_eq_of_lt h]
          · refine absurd ?_ hover
            rw [BitVec.lt_def, BitVec.toNat_add, mod_eq_sub_mod h, mod_eq_of_lt (by omega)]
            omega
        apply correctQhat_spec hw hu hur hv rounds
        · omega
        · simp [hpred, hsum, hk, htop']
        · rw [hpred]; exact hq'
    · refine ⟨hq, ?_⟩
      rw [productGreaterThan_iff, Nat.not_lt] at htest
      rw [← htop]
      linarith

lemma exists_append_of_length {ds : List (BitVec w)} {a b : ℕ} (h : ds.length = a + b) :
    ∃ lo hi, ds = lo ++ hi ∧ lo.length = a ∧ hi.length = b :=
  ⟨ds.take a, ds.drop a, (take_append_drop a ds).symm, by simp [h], by simp [h]⟩

lemma getD_append_add (lo hi : List (BitVec w)) (i : ℕ) : (lo ++ hi).getD (lo.length + i) 0#w = hi.getD i 0#w := by
  rw [getD_append_right _ _ _ _ (Nat.le_add_right _ _), Nat.add_sub_cancel_left]

section Leading

variable {vr ur : List (BitVec w)} {v1 v2 u0 u1 u2 : BitVec w}

/-- The estimate reads the two leading digits of the divisor and the three of the dividend. -/
lemma estimateQhat_append (hlen : ur.length = vr.length) :
    estimateQhat (vr ++ [v2, v1]) (ur ++ [u2, u1, u0]) = if u0 = v1 then BitVec.allOnes w
      else correctQhat v1 v2 u2 (digitDiv u0 u1 v1).1.toNat (digitDiv u0 u1 v1).1
        (digitDiv u0 u1 v1).2 := by
  have hv : ∀ i, (vr ++ [v2, v1]).getD (vr.length + i) 0#w = [v2, v1].getD i 0#w := getD_append_add vr _
  have hu : ∀ i, (ur ++ [u2, u1, u0]).getD (vr.length + i) 0#w = [u2, u1, u0].getD i 0#w := by
    rw [← hlen]; exact getD_append_add ur _
  have hlast : (vr ++ [v2, v1]).length - 1 = vr.length + 1 := by simp
  have hsnd : (vr ++ [v2, v1]).length - 2 = vr.length + 0 := by simp
  have hn : (vr ++ [v2, v1]).length = vr.length + 2 := by simp
  simp only [estimateQhat, hlast, hsnd]
  rw [hn, hv, hv, hu, hu, hu]
  rfl

lemma val_append_two (vr : List (BitVec w)) (v2 v1 : BitVec w) :
    val (vr ++ [v2, v1]) = (v1.toNat * 2 ^ w + v2.toNat) * (2 ^ w) ^ vr.length + val vr := by
  simp only [val_append, val_cons, val_nil]; ring

lemma val_append_three (ur : List (BitVec w)) (u2 u1 u0 : BitVec w) :
    val (ur ++ [u2, u1, u0]) = ((u0.toNat * 2 ^ w + u1.toNat) * 2 ^ w + u2.toNat) * (2 ^ w) ^ ur.length + val ur := by
  simp only [val_append, val_cons, val_nil]; ring

/-- A digit vector weighs less than its leading digit plus one. -/
lemma val_append_two_lt (vr : List (BitVec w)) (v2 v1 : BitVec w) :
    val (vr ++ [v2, v1]) < (v1.toNat + 1) * (2 ^ w * (2 ^ w) ^ vr.length) := by
  have hlow := val_lt (vr ++ [v2])
  rw [show vr ++ [v2, v1] = (vr ++ [v2]) ++ [v1] by simp, val_concat]
  simp only [List.length_append, length_singleton, pow_succ'] at hlow ⊢
  linarith

lemma le_val_append_two (vr : List (BitVec w)) (v2 v1 : BitVec w) :
    v1.toNat * (2 ^ w * (2 ^ w) ^ vr.length) ≤ val (vr ++ [v2, v1]) := by
  rw [show vr ++ [v2, v1] = (vr ++ [v2]) ++ [v1] by simp, val_concat]
  simp only [List.length_append, length_singleton, pow_succ']
  linarith

lemma le_val_append_three (ur : List (BitVec w)) (u2 u1 u0 : BitVec w) :
    u0.toNat * (2 ^ w * (2 ^ w * (2 ^ w) ^ ur.length)) ≤ val (ur ++ [u2, u1, u0]) := by
  rw [show ur ++ [u2, u1, u0] = (ur ++ [u2, u1]) ++ [u0] by simp, val_concat]
  simp only [List.length_append, length_cons, length_nil, pow_succ']
  linarith

lemma correctQhat_digitDiv (hw : 1 < w) (hlen : ur.length = vr.length) (hu0 : u0.toNat < v1.toNat) :
    let q := val (ur ++ [u2, u1, u0]) / val (vr ++ [v2, v1])
    let qhat := correctQhat v1 v2 u2 (digitDiv u0 u1 v1).1.toNat (digitDiv u0 u1 v1).1
      (digitDiv u0 u1 v1).2
    q ≤ qhat.toNat ∧ qhat.toNat ≤ q + 1 := by
  intro q qhat
  have hP : 0 < 2 ^ w * (2 ^ w) ^ vr.length := by positivity
  have hvle := le_val_append_two vr v2 v1
  have hv := val_append_two vr v2 v1
  have hu := val_append_three ur u2 u1 u0
  have hur := val_lt ur
  rw [hlen] at hu hur
  obtain ⟨hdiv, hrem⟩ := digitDiv_spec u1 hu0
  -- The uncorrected estimate is not too small.
  have hcut : q * v1.toNat ≤ u0.toNat * 2 ^ w + u1.toNat := by
    have hcutu : val (ur ++ [u2, u1, u0]) = (u0.toNat * 2 ^ w + u1.toNat) *
        (2 ^ w * (2 ^ w) ^ vr.length) + val (ur ++ [u2]) := by
      rw [hu, val_concat, hlen]; ring
    have hcutv : val (vr ++ [v2, v1]) = v1.toNat * (2 ^ w * (2 ^ w) ^ vr.length) + val (vr ++ [v2]) := by
      rw [hv, val_concat]; ring
    refine mul_le_of_quotient hcutu ?_ hcutv
    simpa [pow_succ', hlen] using val_lt (ur ++ [u2])
  have hstart := quotient_le_of_divMod hcut hdiv hrem
  obtain ⟨hge, htest⟩ := correctQhat_spec hw hu hur hv _ _ _ le_rfl hdiv hstart
  have hbase : 2 ^ w * (2 ^ w) ^ vr.length ≤ val (vr ++ [v2, v1]) := (Nat.le_mul_of_pos_left _ (by omega)).trans hvle
  exact ⟨hge, le_quotient_succ hu hv (val_lt vr) hbase (hP.trans_le hbase)
    (BitVec.isLt _).le htest⟩

end Leading

lemma estimateQhat_spec (hw : 1 < w) {v remaining : List (BitVec w)} (hn : 2 ≤ v.length)
    (hlen : remaining.length = v.length + 1)
    (hnorm : 2 ^ (w - 1) ≤ (v.getD (v.length - 1) 0#w).toNat)
    (hlt : val remaining < val v * 2 ^ w) :
    val remaining / val v ≤ (estimateQhat v remaining).toNat ∧
    (estimateQhat v remaining).toNat ≤ val remaining / val v + 1 := by
  obtain ⟨k, hk⟩ : ∃ k, v.length = k + 2 := ⟨v.length - 2, by omega⟩
  obtain ⟨vr, vt, rfl, rfl, hvt⟩ := exists_append_of_length hk
  obtain ⟨ur, ut, rfl, hur, hut⟩ := exists_append_of_length
    (show remaining.length = vr.length + 3 by omega)
  obtain ⟨v2, v1, rfl⟩ := length_eq_two.mp hvt
  obtain ⟨u2, u1, u0, rfl⟩ := length_eq_three.mp hut
  have hv1 : (vr ++ [v2, v1]).getD ((vr ++ [v2, v1]).length - 1) 0#w = v1 := by
    rw [hk]; exact getD_append_add vr [v2, v1] 1
  rw [hv1] at hnorm
  have hbase : 2 ^ w = 2 * 2 ^ (w - 1) := by rw [← pow_succ']; congr 1; omega
  have hvlt := val_append_two_lt vr v2 v1
  have hule := le_val_append_three ur u2 u1 u0
  rw [hur] at hule
  have hv0 : 0 < val (vr ++ [v2, v1]) :=
    lt_of_lt_of_le (Nat.mul_pos (lt_of_lt_of_le (by positivity) hnorm) (by positivity))
      (le_val_append_two vr v2 v1)
  rw [estimateQhat_append hur]
  split_ifs with heq
  · rw [BitVec.toNat_allOnes]
    have hq := Nat.div_lt_of_lt_mul hlt
    exact ⟨by omega, base_sub_two_le_quotient (heq ▸ hule) hvlt hv0 (by omega)⟩
  · have hle := leading_le hule hvlt hlt
    have hne : u0.toNat ≠ v1.toNat := fun h => heq (BitVec.eq_of_toNat_eq h)
    exact correctQhat_digitDiv hw hur (by omega)

/-! ## One quotient digit (D4) -/

/-- `this.absoluteInplaceAdd(summand, startIndex)`: the digits of `this` and the carry. -/
def absoluteInplaceAdd (this summand : List (BitVec w)) (startIndex : ℕ) : List (BitVec w) × BitVec w :=
  let (digits, carry) := addLoop (this.drop startIndex) summand 0#w
  (this.take startIndex ++ digits, carry)

/-- `this.absoluteInplaceSub(subtrahend, startIndex)`: the digits of `this` and the borrow. -/
def absoluteInplaceSub (this subtrahend : List (BitVec w)) (startIndex : ℕ) : List (BitVec w) × BitVec w :=
  let (digits, borrow) := subLoop (this.drop startIndex) subtrahend 0#w
  (this.take startIndex ++ digits, borrow)

/-- The body of the loop over `j`: what is left of the dividend `u`, and the quotient digit. -/
def divStep (v : List (BitVec w)) (j : ℕ) (u : List (BitVec w)) : List (BitVec w) × BitVec w :=
  let n := v.length
  let qhat := estimateQhat v (u.drop j)
  let qhatv := multiplyAdd v qhat 0#w
  let (u, c) := absoluteInplaceSub u qhatv j
  if c ≠ 0#w then
    -- There was a borrow: the digit was one too high, so one subtraction of `v` is undone.
    let (u, c) := absoluteInplaceAdd u v j
    (u.set (j + n) (u.getD (j + n) 0#w + c), qhat - 1#w)
  else (u, qhat)

lemma addLoop_append (hw : 1 < w) : ∀ (this rest summand : List (BitVec w)) (carry : BitVec w),
    summand.length = this.length →
    addLoop (this ++ rest) summand carry = ((addLoop this summand carry).1 ++ rest, (addLoop this summand carry).2)
  | [], rest, [], carry, _ => by cases rest <;> simp [addLoop]
  | d :: this, rest, s :: summand, carry, h => by
    simp [addLoop, addLoop_append hw this rest summand _ (by simpa using h)]

lemma subLoop_append (hw : 1 < w) : ∀ (this rest subtrahend : List (BitVec w)) (borrow : BitVec w),
    subtrahend.length = this.length →
    subLoop (this ++ rest) subtrahend borrow =
      ((subLoop this subtrahend borrow).1 ++ rest, (subLoop this subtrahend borrow).2)
  | [], rest, [], borrow, _ => by cases rest <;> simp [subLoop]
  | d :: this, rest, s :: subtrahend, borrow, h => by
    simp [subLoop, subLoop_append hw this rest subtrahend _ (by simpa using h)]

lemma estimateQhat_append_right {v window : List (BitVec w)} (hn : 2 ≤ v.length)
    (hlen : window.length = v.length + 1) (high : List (BitVec w)) :
    estimateQhat v (window ++ high) = estimateQhat v window := by
  have hget : ∀ i, i < v.length + 1 → (window ++ high).getD i 0#w = window.getD i 0#w :=
    fun i hi => getD_append _ _ _ _ (by omega)
  simp only [estimateQhat]
  rw [hget _ (by omega), hget _ (by omega), hget _ (by omega)]

/-- **One quotient digit.**  On a window of `n + 1` digits below `v * 2^w` the body of the loop
finds the exact quotient digit and leaves the exact remainder, touching no digit outside the
window. -/
lemma divStep_spec (hw : 1 < w) {v : List (BitVec w)} (hn : 2 ≤ v.length)
    (hnorm : 2 ^ (w - 1) ≤ (v.getD (v.length - 1) 0#w).toNat) (low high : List (BitVec w))
    {window : List (BitVec w)} (hlen : window.length = v.length + 1) (hlt : val window < val v * 2 ^ w) :
    ∃ window' : List (BitVec w), (divStep v low.length (low ++ window ++ high)).1 = low ++ window' ++ high ∧
      window'.length = v.length + 1 ∧
      val window' = val window % val v ∧
      (divStep v low.length (low ++ window ++ high)).2.toNat = val window / val v := by
  have hone := toNat_one hw
  have hB := two_lt_two_pow hw
  obtain ⟨hge, hle⟩ := estimateQhat_spec hw hn hlen hnorm hlt
  set q := val window / val v
  have hdm : val v * q + val window % val v = val window := div_add_mod _ _
  have hv0 : 0 < val v := Nat.pos_of_ne_zero fun h => by simp [h] at hlt
  have hmod := mod_lt (val window) hv0
  have hest : estimateQhat v (window ++ high) = estimateQhat v window := estimateQhat_append_right hn hlen high
  set qhat := estimateQhat v window
  obtain ⟨hmul, hmullen⟩ := multiplyAdd_spec hw v qhat 0#w
  set qhatv := multiplyAdd v qhat 0#w with hqhatv
  obtain ⟨hsub, hc1, hsublen⟩ := subLoop_spec hw window qhatv 0#w (by omega) (by simp)
  have hsubstep : absoluteInplaceSub (low ++ window ++ high) qhatv low.length =
      (low ++ (subLoop window qhatv 0#w).1 ++ high, (subLoop window qhatv 0#w).2) := by
    simp [absoluteInplaceSub, subLoop_append hw window high qhatv 0#w (by omega)]
  have hdrop : (low ++ window ++ high).drop low.length = window ++ high := by simp
  simp only [divStep, hdrop, hest, ← hqhatv, hsubstep]
  rcases hloop : subLoop window qhatv 0#w with ⟨diff, c⟩
  simp only [hloop] at hsub hc1 hsublen ⊢
  simp only [BitVec.toNat_ofNat, zero_mod, Nat.add_zero, hmullen] at hsub hmul
  have hdiff := val_lt diff
  rw [hsublen, hlen] at hdiff
  by_cases hc : c = 0#w
  · -- No borrow: the estimate was the true digit.
    simp only [hc, ne_eq, not_true_eq_false, if_false]
    have hsub' : val diff + val v * qhat.toNat = val window := by
      rw [← hmul]; simpa [hc] using hsub
    have hqq : qhat.toNat = q := by
      by_contra hne
      have : qhat.toNat = q + 1 := by omega
      rw [this, Nat.mul_add] at hsub'
      omega
    rw [hqq] at hsub'
    exact ⟨diff, rfl, hsublen.trans hlen, by omega, hqq⟩
  · -- A borrow: the estimate was one too large, and `v` is added back.
    have hc' : c.toNat = 1 := by
      have : c.toNat ≠ 0 := fun h => hc (BitVec.eq_of_toNat_eq (by simpa using h))
      omega
    have hsub' : val diff + val v * qhat.toNat = val window + (2 ^ w) ^ (v.length + 1) := by
      rw [← hmul]; simpa [hc'] using hsub
    have hqq : qhat.toNat = q + 1 := by
      by_contra hne
      have : qhat.toNat = q := by omega
      rw [this] at hsub'
      omega
    rw [hqq, Nat.mul_add, Nat.mul_one] at hsub'
    obtain ⟨lower, top, rfl, hlower, htop⟩ := exists_append_of_length (hsublen.trans hlen)
    obtain ⟨t, rfl⟩ := length_eq_one_iff.mp htop
    obtain ⟨hadd, hc2, haddlen⟩ := addLoop_spec hw lower v 0#w (by omega) (by simp)
    have haddstep : absoluteInplaceAdd (low ++ (lower ++ [t]) ++ high) v low.length =
        (low ++ ((addLoop lower v 0#w).1 ++ [t]) ++ high, (addLoop lower v 0#w).2) := by
      simp [absoluteInplaceAdd, addLoop_append hw lower (t :: high) v 0#w (by omega)]
    simp only [ne_eq, hc, not_false_eq_true, if_true, haddstep]
    rcases hloop' : addLoop lower v 0#w with ⟨sum, c2⟩
    simp only [hloop'] at hadd hc2 haddlen ⊢
    simp only [BitVec.toNat_ofNat, zero_mod, Nat.add_zero] at hadd
    have hget : (low ++ (sum ++ [t]) ++ high).getD (low.length + v.length) 0#w = t := by
      rw [append_assoc, getD_append_add, append_assoc]
      have := getD_append_add sum ([t] ++ high) 0
      rwa [haddlen, hlower] at this
    have hset : (low ++ (sum ++ [t]) ++ high).set (low.length + v.length) (t + c2) =
        low ++ (sum ++ [t + c2]) ++ high := by
      simp [haddlen, hlower]
    have hpred : (qhat - 1#w).toNat = q := by
      rw [BitVec.toNat_sub, hone, hqq, show 2 ^ w - 1 + (q + 1) = 2 ^ w + q by omega, add_mod_left,
        mod_eq_of_lt (by omega)]
    rw [hget, hset]
    refine ⟨sum ++ [t + c2], rfl, by simp [haddlen, hlower], ?_, hpred⟩
    -- The addition back overflows the window, which cancels the borrow.
    have hsum := val_lt sum
    rw [haddlen, hlower] at hsum
    rw [val_concat, hlower] at hsub'
    rw [val_concat, haddlen, hlower, BitVec.toNat_add]
    have htotal : val sum + (2 ^ w) ^ v.length * (t.toNat + c2.toNat) =
        val window % val v + (2 ^ w) ^ v.length * 2 ^ w := by
      rw [pow_succ] at hsub'
      rw [Nat.mul_add]
      omega
    have htc : t.toNat + c2.toNat = 2 ^ w := by
      rcases Nat.lt_trichotomy (t.toNat + c2.toNat) (2 ^ w) with h | h | h
      · have := Nat.mul_le_mul_left ((2 ^ w) ^ v.length) (succ_le_of_lt h)
        rw [mul_succ] at this
        omega
      · exact h
      · have := Nat.mul_le_mul_left ((2 ^ w) ^ v.length) (succ_le_of_lt h)
        omega
    rw [htc] at htotal ⊢
    rw [mod_self, Nat.mul_zero]
    omega

/-! ## The loop over the positions (D2) -/

/-- The iterations `j = k - 1, …, 0`: what is left of the dividend, and the quotient with the
digits found so far on top. -/
def divLoop (v : List (BitVec w)) : ℕ → List (BitVec w) → List (BitVec w) → List (BitVec w) × List (BitVec w)
  | 0, u, q => (u, q)
  | j + 1, u, q =>
    let (u, qhat) := divStep v j u
    divLoop v j u (qhat :: q)

/-- The dividend is, throughout, the quotient digits times the divisor plus what is left. -/
lemma divLoop_spec (hw : 1 < w) {v : List (BitVec w)} (hn : 2 ≤ v.length)
    (hnorm : 2 ^ (w - 1) ≤ (v.getD (v.length - 1) 0#w).toNat) :
    ∀ (k : ℕ) (low rest high q : List (BitVec w)), low.length = k → rest.length = v.length →
    val high = 0 → val rest < val v →
    ∃ u' qs : List (BitVec w), divLoop v k (low ++ rest ++ high) q = (u', qs ++ q) ∧
      qs.length = k ∧ u'.length = k + v.length + high.length ∧
      val low + (2 ^ w) ^ k * val rest = val qs * val v + val u' ∧ val u' < val v
  | 0, low, rest, high, q, hlow, hrest, hhigh, hlt => by
    obtain rfl := length_eq_zero_iff.mp hlow
    refine ⟨rest ++ high, [], by simp [divLoop], rfl, by simp [hrest], ?_, ?_⟩ <;>
      simp [val_append, hhigh, hlt]
  | k + 1, low, rest, high, q, hlow, hrest, hhigh, hlt => by
    obtain ⟨low, top, rfl, hlow', htop⟩ := exists_append_of_length hlow
    obtain ⟨d, rfl⟩ := length_eq_one_iff.mp htop
    have hwindow : val (d :: rest) < val v * 2 ^ w := by
      calc d.toNat + 2 ^ w * val rest < 2 ^ w * (val rest + 1) := by
            rw [Nat.mul_add, Nat.mul_one]; have := d.isLt; omega
        _ ≤ 2 ^ w * val v := Nat.mul_le_mul_left _ hlt
        _ = val v * 2 ^ w := Nat.mul_comm _ _
    obtain ⟨window', hstep, hlen', hrem, hquot⟩ := divStep_spec hw hn hnorm low high
      (show (d :: rest).length = v.length + 1 by simp [hrest]) hwindow
    have hv0 : 0 < val v := by omega
    have hmod : val window' < val v := hrem ▸ mod_lt _ hv0
    -- The top digit of the remainder is zero, so it joins the digits that are done.
    obtain ⟨rest', top', rfl, hrest', htop'⟩ := exists_append_of_length hlen'
    obtain ⟨t, rfl⟩ := length_eq_one_iff.mp htop'
    have ht : t.toNat = 0 := by
      by_contra h
      have hv := val_lt v
      have := Nat.mul_le_mul_left ((2 ^ w) ^ v.length) (one_le_iff_ne_zero.mpr h)
      rw [val_concat, hrest'] at hmod
      omega
    have hval : val (rest' ++ [t]) = val rest' := by rw [val_concat, ht]; simp
    rw [hval] at hrem hmod
    have happ : low ++ [d] ++ rest ++ high = low ++ (d :: rest) ++ high := by simp
    rw [happ, divLoop]
    rcases hds : divStep v k (low ++ (d :: rest) ++ high) with ⟨u, qhat⟩
    rw [hlow', hds] at hstep hquot
    simp only at hstep hquot
    obtain ⟨u', qs, hloop, hqs, hulen, heq, hlt'⟩ := divLoop_spec hw hn hnorm k low rest'
      (t :: high) (qhat :: q) hlow' hrest' (by simp [hhigh, ht]) hmod
    refine ⟨u', qs ++ [qhat], ?_, by simp [hqs], by rw [hulen]; simp; omega, ?_, hlt'⟩
    · simp only [hstep]
      rw [show low ++ (rest' ++ [t]) ++ high = low ++ rest' ++ t :: high by simp, hloop]
      simp
    · have hdm := div_add_mod (val (d :: rest)) (val v)
      rw [← hrem, ← hquot, val_cons] at hdm
      rw [val_concat, val_concat, hqs, hlow', hquot, pow_succ]
      rw [hquot] at hdm
      linear_combination heq - (2 ^ w) ^ k * hdm

/-! ## Normalised operands (D1) -/

/-- Shifting out the leading zeroes of the top digit keeps the length and sets the top bit. -/
lemma normalize_bounds (hw : 1 < w) {y : List (BitVec w)} (hy : NoHighZero y) (hne : y ≠ []) :
    let shift := digitLeadingZeroes (y.getD (y.length - 1) 0#w)
    shift < w ∧ val y * 2 ^ shift < (2 ^ w) ^ y.length ∧
    2 ^ (w - 1) * (2 ^ w) ^ (y.length - 1) ≤ val y * 2 ^ shift := by
  intro shift
  obtain ⟨low, d, rfl⟩ : ∃ low d, y = low ++ [d] := ⟨_, _, (dropLast_append_getLast hne).symm⟩
  have hd : d ≠ 0#w := (noHighZero_concat low d).mp hy
  have htop : (low ++ [d]).getD ((low ++ [d]).length - 1) 0#w = d := by
    simp
  have hshift : shift < w := by simp only [shift, htop]; exact digitLeadingZeroes_lt hd
  obtain ⟨hlo, hhi⟩ := digitLeadingZeroes_spec hd
  have hs : shift = digitLeadingZeroes d := by simp only [shift, htop]
  rw [← hs] at hlo hhi
  have hlow := val_lt low
  have hlen : (low ++ [d]).length = low.length + 1 := by simp
  refine ⟨hshift, ?_, ?_⟩
  · calc val (low ++ [d]) * 2 ^ shift
        < (d.toNat + 1) * (2 ^ w) ^ low.length * 2 ^ shift := by
          refine Nat.mul_lt_mul_of_pos_right ?_ (by positivity)
          rw [val_concat, Nat.add_mul]; linarith
      _ ≤ 2 ^ (w - shift) * (2 ^ w) ^ low.length * 2 ^ shift :=
          Nat.mul_le_mul_right _ (Nat.mul_le_mul_right _ hhi)
      _ = 2 ^ (w - shift) * 2 ^ shift * (2 ^ w) ^ low.length := by ring
      _ = (2 ^ w) ^ (low ++ [d]).length := by
          rw [← pow_add, Nat.sub_add_cancel hshift.le, hlen, pow_succ']
  · calc 2 ^ (w - 1) * (2 ^ w) ^ ((low ++ [d]).length - 1)
        = 2 ^ (w - shift - 1) * (2 ^ w) ^ low.length * 2 ^ shift := by
          rw [hlen, Nat.add_sub_cancel, show w - 1 = (w - shift - 1) + shift by omega, pow_add]
          ring
      _ ≤ d.toNat * (2 ^ w) ^ low.length * 2 ^ shift :=
          Nat.mul_le_mul_right _ (Nat.mul_le_mul_right _ hlo)
      _ ≤ val (low ++ [d]) * 2 ^ shift := by
          refine Nat.mul_le_mul_right _ ?_
          rw [val_concat]; linarith [Nat.zero_le (val low)]

/-- A numeral of `n` digits with the top bit set has it in its top digit. -/
lemma le_top_of_le_val {v : List (BitVec w)} (hv : v ≠ []) (h : 2 ^ (w - 1) * (2 ^ w) ^ (v.length - 1) ≤ val v) :
    2 ^ (w - 1) ≤ (v.getD (v.length - 1) 0#w).toNat := by
  have hlen : v.length = v.length - 1 + 1 := by
    have := length_pos_iff.mpr hv; omega
  have hlt : val v / (2 ^ w) ^ (v.length - 1) < 2 ^ w := by
    apply Nat.div_lt_of_lt_mul
    rw [← pow_succ, ← hlen]
    exact val_lt v
  rw [toNat_getD, mod_eq_of_lt hlt]
  exact (Nat.le_div_iff_mul_le (by positivity)).mpr h

/-- **Algorithm D.**  On operands scaled by `2 ^ s` the loop finds the quotient of the
unscaled operands, and what it leaves is their remainder, scaled. -/
theorem divLoop_scaled (hw : 1 < w) {v u : List (BitVec w)} {a b s m : ℕ}
    (hn : 2 ≤ v.length) (hnorm : 2 ^ (w - 1) ≤ (v.getD (v.length - 1) 0#w).toNat)
    (hlen : u.length = m + 1 + v.length) (hv : val v = b * 2 ^ s)
    (hu : val u = a * 2 ^ s) (hab : a < (2 ^ w) ^ (m + 1) * b) :
    (divLoop v (m + 1) u []).2.length = m + 1 ∧
    val (divLoop v (m + 1) u []).2 = a / b ∧
    (divLoop v (m + 1) u []).1.length = u.length ∧
    val (divLoop v (m + 1) u []).1 / 2 ^ s = a % b := by
  obtain ⟨low, rest, rfl, hlow, hrest⟩ := exists_append_of_length hlen
  have hs : 0 < 2 ^ s := by positivity
  rw [val_append, hlow] at hu
  have htop : val rest < val v := by
    by_contra h
    have h₁ := Nat.mul_le_mul_left ((2 ^ w) ^ (m + 1)) (Nat.le_of_not_lt h)
    have h₂ := Nat.mul_lt_mul_of_pos_right hab hs
    rw [hv] at h₁
    linarith [Nat.zero_le (val low)]
  obtain ⟨u', qs, hloop, hqs, hulen, heq, hlt⟩ := divLoop_spec hw hn hnorm (m + 1) low rest []
    [] hlow hrest rfl htop
  rw [append_nil, append_nil] at hloop
  rw [hloop]
  have hval : a * 2 ^ s = val qs * b * 2 ^ s + val u' := by
    rw [← hu, heq, hv]; ring
  -- Both sides are multiples of the scale, and so is what is left.
  obtain ⟨r, hr⟩ : 2 ^ s ∣ val u' := (Nat.dvd_add_right (Dvd.intro_left _ rfl)).mp (hval ▸ Dvd.intro_left _ rfl)
  have ha : a = val qs * b + r := by
    apply eq_of_mul_eq_mul_right hs
    rw [hval, hr]; ring
  have hrb : r < b := by
    rw [hr, hv, Nat.mul_comm] at hlt
    exact Nat.lt_of_mul_lt_mul_right hlt
  refine ⟨hqs, ?_, by simp [hulen, hlow, hrest], ?_⟩
  · rw [ha, Nat.mul_comm, mul_add_div (by omega), div_eq_of_lt hrb, Nat.add_zero]
  · simp [hr, Nat.mul_div_cancel_left _ hs, ha, mod_eq_of_lt hrb]

end SpiderMonkey
