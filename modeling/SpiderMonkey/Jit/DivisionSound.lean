import SpiderMonkey.Jit.DivisionCode

/-!
# Division by constants is right

The constants and the instruction sequences compute the quotient or the remainder, or they bail out if it is not
an int32.
-/

namespace SpiderMonkey

open Checked

namespace DivisionCode

open Int

/-! ## The results of divisions -/

variable {a b : ℤ}

lemma den_eq_one_iff (hb : b ≠ 0) : ((a : ℚ) / b).den = 1 ↔ b ∣ a := Rat.den_div_intCast_eq_one_iff a b hb

lemma num_eq (hb : b ≠ 0) (h : b ∣ a) : ((a : ℚ) / b).num = a / b := by
  obtain ⟨c, rfl⟩ := h
  have hb' : (b : ℚ) ≠ 0 := by exact_mod_cast hb
  simp [mul_div_cancel_left₀ _ hb', mul_ediv_cancel_left _ hb]

lemma tdiv_num_den (hb : b ≠ 0) : ((a : ℚ) / b).num.tdiv ((a : ℚ) / b).den = a.tdiv b := by
  obtain ⟨c, ha, hb'⟩ := Rat.exists_eq_mul_div_num_and_eq_mul_div_den a hb
  generalize ((a : ℚ) / b).num = x at *
  generalize (((a : ℚ) / b).den : ℤ) = y at *
  have hc : c ≠ 0 := by
    rintro rfl
    omega
  rw [ha, hb']
  obtain hneg | hpos := lt_or_gt_of_ne hc
  · rw [← Int.neg_tdiv_neg (c * x), ← neg_mul, ← neg_mul, mul_tdiv_mul_of_pos _ _ (by omega)]
  · simp [hpos]

lemma quotient_truncate (hb : b ≠ 0) : (quotient a b).truncate = BitVec.ofInt 32 (a.tdiv b) := by
  unfold quotient
  rw [if_neg hb]
  split_ifs with h
  · rw [h.1, Int.zero_tdiv]
    rfl
  · rw [Untruncated.truncate, tdiv_num_den hb]

lemma remainder_truncate (hb : b ≠ 0) : (remainder a b).truncate = BitVec.ofInt 32 (a.tmod b) := by
  unfold remainder
  rw [if_neg hb]
  split_ifs with h
  · rw [tmod_eq_zero_of_dvd h.2]
    rfl
  · simp [Untruncated.truncate]

lemma quotient_int32? (hb : b ≠ 0) : (quotient a b).int32? =
    if b ∣ a ∧ ¬(a = 0 ∧ b < 0) ∧ -2 ^ 31 ≤ a / b ∧ a / b < 2 ^ 31 then some (a / b) else none := by
  unfold quotient
  rw [if_neg hb]
  by_cases hzero : a = 0 ∧ b < 0
  · rw [if_pos hzero, if_neg (by tauto)]
    rfl
  · rw [if_neg hzero, Untruncated.int32?]
    by_cases hdvd : b ∣ a
    · simp [den_eq_one_iff hb, num_eq hb hdvd, hdvd, hzero]
    · simp [den_eq_one_iff hb, hdvd]

lemma remainder_int32? (hb : b ≠ 0) : (remainder a b).int32? =
    if ¬(a < 0 ∧ b ∣ a) ∧ -2 ^ 31 ≤ a.tmod b ∧ a.tmod b < 2 ^ 31 then some (a.tmod b) else none := by
  unfold remainder
  rw [if_neg hb]
  by_cases hzero : a < 0 ∧ b ∣ a
  · rw [if_pos hzero, if_neg (by tauto)]
    rfl
  · simp [hzero, Untruncated.int32?]

variable {mir : MBinaryArith} {isDiv : Bool}

lemma expected_truncated (hmir : mir.isTruncated = true) (hb : b ≠ 0)
    (htrap : mir.trapOnError = true → isDiv = true → ¬(a = -2 ^ 31 ∧ b = -1)) :
    expected mir isDiv a b = .value (BitVec.ofInt 32 (if isDiv = true then a.tdiv b else a.tmod b)) := by
  unfold expected
  rw [if_pos hmir, if_neg (by tauto)]
  cases isDiv with
  | true => simp [quotient_truncate hb]
  | false => simp [remainder_truncate hb]

lemma expected_quotient (hmir : mir.isTruncated = false) (hb : b ≠ 0) : expected mir true a b =
    if b ∣ a ∧ ¬(a = 0 ∧ b < 0) ∧ -2 ^ 31 ≤ a / b ∧ a / b < 2 ^ 31 then .value (BitVec.ofInt 32 (a / b))
    else .bailout := by
  unfold expected
  simp only [hmir, Bool.false_eq_true, if_false, if_true, quotient_int32? hb]
  split_ifs <;> rfl

lemma expected_remainder (hmir : mir.isTruncated = false) (hb : b ≠ 0) : expected mir false a b =
    if ¬(a < 0 ∧ b ∣ a) ∧ -2 ^ 31 ≤ a.tmod b ∧ a.tmod b < 2 ^ 31 then .value (BitVec.ofInt 32 (a.tmod b))
    else .bailout := by
  unfold expected
  simp only [hmir, Bool.false_eq_true, if_false, remainder_int32? hb]
  split_ifs <;> rfl

/-! ## Instructions -/

variable {x y d lhs : Register}

lemma ofInt_eq_of_toInt {v : ℤ} (h : x.toInt = v) : x = BitVec.ofInt 32 v := by
  simp [← h]

lemma ofInt_eq_of_toNat {v : ℕ} (h : x.toNat = v) : x = BitVec.ofInt 32 v := by
  simp [← h]

lemma toInt_bounds (x : Register) : -2 ^ 31 ≤ x.toInt ∧ x.toInt < 2 ^ 31 := ⟨BitVec.le_toInt x, BitVec.toInt_lt⟩

lemma toInt_ofInt_of_bounds {v : ℤ} (hlo : -2 ^ 31 ≤ v) (hhi : v < 2 ^ 31) : (BitVec.ofInt 32 v).toInt = v := by
  rw [BitVec.toInt_ofInt]
  exact bmod_eq_of_le (by norm_num; exact hlo) (by norm_num; exact hhi)

lemma shrl_eq {n : ℕ} (h : n < 32) : shrl n x = .ok (x >>> n) := by
  simp [shrl, ensure, h]
  rfl

lemma sarl_eq {n : ℕ} (h : n < 32) : sarl n x = .ok (x.sshiftRight n) := by
  simp [sarl, ensure, h]
  rfl

lemma toNat_shr (n : ℕ) : (x >>> n).toNat = x.toNat / 2 ^ n := by
  simp [Nat.shiftRight_eq_div_pow]

lemma toInt_sar (n : ℕ) : (x.sshiftRight n).toInt = x.toInt / 2 ^ n := by
  rw [BitVec.toInt_sshiftRight, shiftRight_eq_div_pow]
  norm_cast

lemma toInt_sar_sign : (x.sshiftRight 31).toInt = if x.toInt < 0 then -1 else 0 := by
  have hbounds := toInt_bounds x
  rw [toInt_sar]
  split_ifs with h <;> omega

/-! ## Unsigned division -/

lemma umull_shr {M n s : ℕ} (hM : M < 2 ^ 32) (hn : n < 2 ^ 32) :
    (umull (BitVec.ofNat 32 M) (BitVec.ofNat 32 n) >>> s).toNat = M * n / 2 ^ (32 + s) := by
  have hlt : M * n / 2 ^ 32 < 2 ^ 32 := by
    apply Nat.div_lt_of_lt_mul
    exact Nat.mul_lt_mul'' hM hn
  rw [toNat_shr, umull, BitVec.toNat_ofNat, BitVec.toNat_ofNat, BitVec.toNat_ofNat, Nat.mod_eq_of_lt hM,
    Nat.mod_eq_of_lt hn, Nat.mod_eq_of_lt hlt, pow_add, Nat.div_div_eq_div_mul]

/-- A multiplier with one more bit: the sum of the numerator and the high word would overflow, so the high word is
added to half the difference. -/
lemma average_shr {h n s : ℕ} (hh : h ≤ n) (hn : n < 2 ^ 32) (hs : 0 < s) :
    ((BitVec.ofNat 32 h + (BitVec.ofNat 32 n - BitVec.ofNat 32 h) >>> 1) >>> (s - 1)).toNat = (n + h) / 2 ^ s := by
  have hsub : ((BitVec.ofNat 32 n - BitVec.ofNat 32 h) >>> 1).toNat = (n - h) / 2 := by
    rw [toNat_shr, BitVec.toNat_sub_of_le (by simpa [BitVec.le_def] using by omega), BitVec.toNat_ofNat,
      BitVec.toNat_ofNat, Nat.mod_eq_of_lt hn, Nat.mod_eq_of_lt (by omega), pow_one]
  rw [toNat_shr, BitVec.toNat_add_of_lt, hsub, BitVec.toNat_ofNat, Nat.mod_eq_of_lt (by omega)]
  · obtain ⟨t, rfl⟩ := Nat.exists_eq_succ_of_ne_zero hs.ne'
    rw [Nat.succ_sub_one, Nat.pow_succ', ← Nat.div_div_eq_div_mul]
    congr 1
    omega
  · rw [hsub, BitVec.toNat_ofNat, Nat.mod_eq_of_lt (by omega)]
    omega

/-- The high word of the product with the multiplier less `2 ^ 32`. -/
lemma high_add {M n : ℕ} (hM : 2 ^ 32 ≤ M) : n + (M - 2 ^ 32) * n / 2 ^ 32 = M * n / 2 ^ 32 := by
  obtain ⟨k, rfl⟩ := Nat.exists_eq_add_of_le hM
  rw [Nat.add_sub_cancel_left, add_mul, Nat.mul_add_div (by norm_num)]

lemma udivByConstant_spec (hd : d.toNat &&& (d.toNat - 1) ≠ 0) :
    Returns (udivByConstant d lhs) fun edx => edx.toNat = lhs.toNat / d.toNat := by
  have hpos : 0 < d.toNat := by
    by_contra hzero
    simp [Nat.eq_zero_of_not_pos hzero] at hd
  have hn := lhs.isLt
  unfold udivByConstant
  refine .bind (.ensure hd) fun _ _ => ?_
  refine .bind (DivisionConstants.computeDivisionConstants_spec (by norm_num) le_rfl hpos d.isLt hd) ?_
  intro rmc hrmc
  have hshift : 32 + rmc.shiftAmount ≤ 64 := hrmc.shift_le
  have hmul : rmc.multiplier < 2 ^ 33 := hrmc.multiplier_lt
  have hquot : rmc.multiplier * lhs.toNat / 2 ^ (32 + rmc.shiftAmount) = lhs.toNat / d.toNat := by
    exact_mod_cast hrmc.reciprocal.ediv_of_nonneg (n := lhs.toNat) (by positivity) (by exact_mod_cast hn)
  have hlhs : BitVec.ofNat 32 lhs.toNat = lhs := by simp
  dsimp only
  split_ifs with hlarge
  · have hlarge' : 2 ^ 32 ≤ rmc.multiplier := by unfold UINT32_MAX at hlarge; omega
    have hs := hrmc.large hlarge'
    refine .bind (.ensure hs) fun _ _ => .bind (.ensure hmul) fun _ _ => ?_
    rw [shrl_eq (by norm_num)]
    refine .bind (Q := fun eax => eax = (lhs - umull (BitVec.ofNat 32 rmc.multiplier) lhs) >>> 1) ⟨_, rfl, rfl⟩ ?_
    rintro _ rfl
    rw [shrl_eq (by omega)]
    have hword : umull (BitVec.ofNat 32 rmc.multiplier) lhs =
        BitVec.ofNat 32 ((rmc.multiplier - 2 ^ 32) * lhs.toNat / 2 ^ 32) := by
      rw [umull, BitVec.toNat_ofNat, Nat.mod_eq_sub_mod hlarge', Nat.mod_eq_of_lt (by omega)]
    have hle : (rmc.multiplier - 2 ^ 32) * lhs.toNat / 2 ^ 32 ≤ lhs.toNat := by
      apply Nat.div_le_of_le_mul
      exact Nat.mul_le_mul_right _ (by omega)
    have haverage := average_shr hle hn hs
    rw [hlhs, high_add hlarge', Nat.div_div_eq_div_mul, ← pow_add, hquot] at haverage
    rw [hword]
    exact ⟨_, rfl, haverage⟩
  · have hsmall : rmc.multiplier < 2 ^ 32 := by unfold UINT32_MAX at hlarge; omega
    -- a shift by a whole word would need a larger multiplier
    have hlt : rmc.shiftAmount < 32 := by
      by_contra hge
      have habove := hrmc.reciprocal.above
      have hprod : d.toNat * rmc.multiplier < 2 ^ 32 * 2 ^ 32 := Nat.mul_lt_mul'' d.isLt hsmall
      rw [show rmc.shiftAmount = 32 by omega] at habove
      omega
    have hproduct := umull_shr (s := rmc.shiftAmount) hsmall hn
    rw [hlhs, hquot] at hproduct
    rw [shrl_eq hlt]
    exact ⟨_, rfl, hproduct⟩

/-- What was multiplied back, and what is left. -/
lemma toNat_mul_quotient (hx : x.toNat = lhs.toNat / d.toNat) : (x * d).toNat = lhs.toNat / d.toNat * d.toNat := by
  rw [BitVec.toNat_mul, hx]
  exact Nat.mod_eq_of_lt ((Nat.div_mul_le_self _ _).trans_lt lhs.isLt)

lemma toNat_sub_mul_quotient (hx : x.toNat = lhs.toNat / d.toNat) : (lhs - x * d).toNat = lhs.toNat % d.toNat := by
  have hle := Nat.div_mul_le_self lhs.toNat d.toNat
  rw [BitVec.toNat_sub_of_le (by rw [BitVec.le_def, toNat_mul_quotient hx]; exact hle), toNat_mul_quotient hx]
  have := Nat.mod_add_div' lhs.toNat d.toNat
  omega

lemma expected_zero : expected mir isDiv a 0 =
    if mir.isTruncated = true then if mir.trapOnError = true then .wasmTrap else .value 0 else .bailout := by
  have hquotient : (quotient a 0).truncate = 0 ∧ (quotient a 0).int32? = none := by
    unfold quotient
    rw [if_pos rfl]
    split_ifs <;> exact ⟨rfl, rfl⟩
  have hremainder : (remainder a 0).truncate = 0 ∧ (remainder a 0).int32? = none := ⟨rfl, rfl⟩
  unfold expected
  cases isDiv with
  | true => simp [hquotient]
  | false => simp [hremainder]

/-- Unsigned quotients and remainders by zero and by other numbers than powers of two. -/
theorem visitUDivOrModConstant_spec (hd : d = 0 ∨ d.toNat &&& (d.toNat - 1) ≠ 0) :
    Returns (visitUDivOrModConstant mir isDiv d lhs) (· = expected mir isDiv (operand true lhs) (operand true d)) := by
  unfold visitUDivOrModConstant
  by_cases hzero : d = 0
  · subst hzero
    rw [if_pos rfl, show operand true 0 = 0 from rfl, expected_zero]
    split_ifs <;> exact .pure rfl
  · have hd' := hd.resolve_left hzero
    have hthree : 3 ≤ d.toNat := by
      by_contra hsmall
      obtain h | h | h : d.toNat = 0 ∨ d.toNat = 1 ∨ d.toNat = 2 := by omega
      all_goals simp [h] at hd'
    have hb : (d.toNat : ℤ) ≠ 0 := by omega
    have hn := lhs.isLt
    have hdiv : lhs.toNat / d.toNat < 2 ^ 31 := Nat.div_lt_of_lt_mul (by omega)
    rw [if_neg hzero, operand, operand, if_pos rfl, if_pos rfl]
    apply (udivByConstant_spec hd').bind
    intro edx hedx
    cases isDiv with
    | false =>
      have heax := toNat_sub_mul_quotient hedx
      have htmod : (lhs.toNat : ℤ).tmod d.toNat = (lhs.toNat % d.toNat : ℕ) := by
        rw [tmod_eq_emod_of_nonneg (by positivity)]
        rfl
      have hvalue : lhs - edx * d = BitVec.ofInt 32 ((lhs.toNat : ℤ).tmod d.toNat) := by
        rw [htmod]
        exact ofInt_eq_of_toNat heax
      dsimp only
      rw [if_pos rfl]
      cases hmir : mir.isTruncated with
      | true =>
        rw [if_neg (by simp), expected_truncated hmir hb (by simp), hvalue]
        exact .pure rfl
      | false =>
        have hsign : (lhs - edx * d).msb = true ↔ 2 ^ 31 ≤ lhs.toNat % d.toNat := by
          rw [BitVec.msb_eq_decide, heax, decide_eq_true_iff]
        rw [expected_remainder hmir hb, htmod]
        by_cases hlarge : 2 ^ 31 ≤ lhs.toNat % d.toNat
        · rw [if_pos ⟨rfl, hsign.2 hlarge⟩, if_neg (by omega)]
          exact .pure rfl
        · rw [if_neg fun h => hlarge (hsign.1 h.2), if_pos (by omega), hvalue, htmod]
          exact .pure rfl
    | true =>
      have hproduct := toNat_mul_quotient hedx
      have hquot : (lhs.toNat : ℤ) / d.toNat = (lhs.toNat / d.toNat : ℕ) := by norm_cast
      have hvalue : edx = BitVec.ofInt 32 ((lhs.toNat : ℤ) / d.toNat) := by
        rw [hquot]
        exact ofInt_eq_of_toNat hedx
      rw [if_neg (by simp)]
      cases hmir : mir.isTruncated with
      | true =>
        rw [if_neg (by simp), expected_truncated hmir hb (by omega), if_pos rfl,
          tdiv_eq_ediv_of_nonneg (by positivity), ← hvalue]
        exact .pure rfl
      | false =>
        have hexact : edx * d = lhs ↔ (d.toNat : ℤ) ∣ lhs.toNat := by
          rw [← BitVec.toNat_inj, hproduct, natCast_dvd_natCast, Nat.dvd_iff_div_mul_eq]
        rw [expected_quotient hmir hb]
        by_cases hdvd : (d.toNat : ℤ) ∣ lhs.toNat
        · rw [if_neg fun h => h.2 (hexact.2 hdvd), if_pos ⟨hdvd, by omega, by omega, by omega⟩, ← hvalue]
          exact .pure rfl
        · rw [if_pos ⟨rfl, fun h => hdvd (hexact.1 h)⟩, if_neg (by tauto)]
          exact .pure rfl

/-! ## Signed division -/

lemma toInt_ofNat_word {M : ℕ} (hM : M < 2 ^ 32) :
    (BitVec.ofNat 32 M).toInt = if INT32_MAX < M then (M : ℤ) - 2 ^ 32 else (M : ℤ) := by
  rw [BitVec.toInt_ofNat']
  unfold INT32_MAX
  split_ifs with h
  · rw [bmod_def, if_neg (by omega)]
    omega
  · exact bmod_eq_of_le (by omega) (by omega)

/-- The high word of the product with a multiplier of 32 bits, which is corrected if the multiplier is negative as
an int32. -/
lemma imull_eq {M : ℕ} (hM : M < 2 ^ 32) :
    (if INT32_MAX < M then imull (BitVec.ofNat 32 M) lhs + lhs else imull (BitVec.ofNat 32 M) lhs) =
      BitVec.ofInt 32 (M * lhs.toInt / 2 ^ 32) := by
  unfold imull
  rw [toInt_ofNat_word hM]
  split_ifs with h
  · have hsplit : ((M : ℤ) - 2 ^ 32) * lhs.toInt = M * lhs.toInt + 2 ^ 32 * -lhs.toInt := by ring
    rw [hsplit, add_mul_ediv_left _ _ (by norm_num), BitVec.ofInt_add, BitVec.ofInt_neg, BitVec.ofInt_toInt,
      BitVec.add_assoc, BitVec.add_comm (-lhs), ← BitVec.sub_eq_add_neg, BitVec.sub_self, BitVec.add_zero]
  · rfl

lemma product_bounds {M : ℕ} (hM : M < 2 ^ 32) :
    -2 ^ 31 ≤ M * lhs.toInt / 2 ^ 32 ∧ M * lhs.toInt / 2 ^ 32 < 2 ^ 31 := by
  obtain ⟨hlo, hhi⟩ := toInt_bounds lhs
  constructor
  · apply (Int.le_ediv_iff_mul_le (by norm_num)).2
    nlinarith
  · apply Int.ediv_lt_of_lt_mul (by norm_num)
    nlinarith

lemma divByConstant_spec (hd : d.toInt.natAbs &&& (d.toInt.natAbs - 1) ≠ 0)
    (hneg : mir.canBeNegativeDividend = false → 0 ≤ lhs.toInt) :
    Returns (divByConstant mir d lhs) (· = BitVec.ofInt 32 (lhs.toInt.tdiv d.toInt)) := by
  obtain ⟨hlo, hhi⟩ := toInt_bounds lhs
  have hpos : 0 < d.toInt.natAbs := by
    by_contra hzero
    simp [Nat.eq_zero_of_not_pos hzero] at hd
  have hlt : d.toInt.natAbs < 2 ^ 31 := by
    have hbounds := toInt_bounds d
    by_contra hge
    rw [show d.toInt.natAbs = 2 ^ 31 by omega] at hd
    exact hd (by decide)
  unfold divByConstant
  refine .bind (.ensure hd) fun _ _ => ?_
  refine .bind (DivisionConstants.computeDivisionConstants_spec le_rfl (by norm_num) hpos hlt hd) ?_
  intro rmc hrmc
  have hshift : 32 + rmc.shiftAmount ≤ 62 := hrmc.shift_le
  have hmul : rmc.multiplier < 2 ^ 32 := hrmc.multiplier_lt
  dsimp only
  refine .bind (.ensure fun _ => hmul) fun _ _ => ?_
  rw [imull_eq hmul, sarl_eq (by omega), sarl_eq (by norm_num)]
  refine ⟨_, rfl, ?_⟩
  have hhigh : ((BitVec.ofInt 32 (rmc.multiplier * lhs.toInt / 2 ^ 32)).sshiftRight rmc.shiftAmount) =
      BitVec.ofInt 32 (rmc.multiplier * lhs.toInt / 2 ^ (32 + rmc.shiftAmount)) := by
    apply ofInt_eq_of_toInt
    rw [toInt_sar, toInt_ofInt_of_bounds (product_bounds hmul).1 (product_bounds hmul).2,
      ediv_ediv_of_nonneg (by norm_num), ← pow_add]
  have hsign : lhs.sshiftRight 31 = BitVec.ofInt 32 (if lhs.toInt < 0 then -1 else 0) :=
    ofInt_eq_of_toInt toInt_sar_sign
  have htdiv := hrmc.reciprocal.ediv_add_eq_tdiv (n := lhs.toInt) hhi hlo
  -- the quotient by the magnitude of the divisor
  have hquot : (if mir.canBeNegativeDividend = true then
      BitVec.ofInt 32 (rmc.multiplier * lhs.toInt / 2 ^ (32 + rmc.shiftAmount)) - lhs.sshiftRight 31
      else BitVec.ofInt 32 (rmc.multiplier * lhs.toInt / 2 ^ (32 + rmc.shiftAmount))) =
      BitVec.ofInt 32 (lhs.toInt.tdiv d.toInt.natAbs) := by
    rw [← htdiv, hsign, BitVec.sub_eq_add_neg, ← BitVec.ofInt_neg, ← BitVec.ofInt_add]
    split_ifs with hflag hsmall hsmall
    · simp
    · simp
    · exact absurd (hneg (by simpa using hflag)) (not_le.2 hsmall)
    · simp
  rw [hhigh, hquot]
  split_ifs with hdneg
  · rw [← BitVec.ofInt_neg, ← Int.tdiv_neg, show -(d.toInt.natAbs : ℤ) = d.toInt by omega]
  · rw [show (d.toInt.natAbs : ℤ) = d.toInt by omega]

/-- The remainder lies between zero and the dividend, and it is smaller than the divisor. -/
lemma tmod_bounds (hb : b ≠ 0) : (0 ≤ a.tmod b ∧ a.tmod b ≤ a ∨ a ≤ a.tmod b ∧ a.tmod b ≤ 0) ∧
    (a.tmod b).natAbs < b.natAbs := by
  have habs := natAbs_tmod a b
  have hle := Nat.mod_le a.natAbs b.natAbs
  have hlt := Nat.mod_lt a.natAbs (natAbs_pos.2 hb)
  refine ⟨?_, by omega⟩
  obtain ha | ha := le_total 0 a
  · have := tmod_nonneg b ha
    omega
  · have := tmod_nonneg b (neg_nonneg.2 ha)
    rw [neg_tmod] at this
    omega

lemma eq_zero_iff : x = 0 ↔ x.toInt = 0 := by
  constructor
  · rintro rfl
    rfl
  · exact fun h => BitVec.eq_of_toInt_eq (h.trans rfl)

lemma ofInt_eq_iff {v : ℤ} (hlo : -2 ^ 31 ≤ v) (hhi : v < 2 ^ 31) : BitVec.ofInt 32 v = x ↔ v = x.toInt := by
  rw [← BitVec.toInt_inj, toInt_ofInt_of_bounds hlo hhi]

/-- A divisor that divides an integer in a register and is greater than one has an int32 as the quotient. -/
lemma ediv_bounds (ha : a.natAbs < 2 ^ 32) (hb : 2 ≤ b.natAbs) (h : b ∣ a) : -2 ^ 31 ≤ a / b ∧ a / b < 2 ^ 31 := by
  obtain ⟨c, rfl⟩ := h
  rw [mul_ediv_cancel_left _ (by omega)]
  have habs : 2 * c.natAbs ≤ (b * c).natAbs := by
    rw [natAbs_mul]
    exact Nat.mul_le_mul_right _ hb
  omega

/-- Signed quotients and remainders by other numbers than powers of two. -/
theorem visitDivOrModConstantI_spec (hd : d.toInt.natAbs &&& (d.toInt.natAbs - 1) ≠ 0)
    (hneg : mir.canBeNegativeDividend = false → 0 ≤ lhs.toInt) :
    Returns (visitDivOrModConstantI mir isDiv d lhs)
      (· = expected mir isDiv (operand false lhs) (operand false d)) := by
  obtain ⟨hlo, hhi⟩ := toInt_bounds lhs
  have hdbounds := toInt_bounds d
  have hthree : 3 ≤ d.toInt.natAbs := by
    by_contra hsmall
    obtain h | h | h : d.toInt.natAbs = 0 ∨ d.toInt.natAbs = 1 ∨ d.toInt.natAbs = 2 := by omega
    all_goals simp [h] at hd
  have hb : d.toInt ≠ 0 := by omega
  have hsplit := tmod_add_mul_tdiv lhs.toInt d.toInt
  obtain ⟨hbetween, hsmall⟩ := tmod_bounds (a := lhs.toInt) hb
  have hdvd := dvd_iff_tmod_eq_zero (a := d.toInt) (b := lhs.toInt)
  unfold visitDivOrModConstantI
  apply (divByConstant_spec hd hneg).bind
  rintro _ rfl
  rw [show operand false lhs = lhs.toInt from rfl, show operand false d = d.toInt from rfl]
  cases isDiv with
  | true =>
    have hproduct : BitVec.ofInt 32 (lhs.toInt.tdiv d.toInt) * d =
        BitVec.ofInt 32 (d.toInt * lhs.toInt.tdiv d.toInt) := by
      simp [mul_comm d.toInt, BitVec.ofInt_mul]
    have hexact : BitVec.ofInt 32 (lhs.toInt.tdiv d.toInt) * d = lhs ↔ d.toInt ∣ lhs.toInt := by
      rw [hproduct, ofInt_eq_iff (by omega) (by omega), hdvd]
      omega
    rw [if_pos rfl]
    cases hmir : mir.isTruncated with
    | true =>
      rw [if_neg (by simp), expected_truncated hmir hb (by omega)]
      exact .pure rfl
    | false =>
      rw [expected_quotient hmir hb]
      by_cases hok : d.toInt ∣ lhs.toInt ∧ ¬(lhs.toInt = 0 ∧ d.toInt < 0)
      · have hcode : ¬(BitVec.ofInt 32 (lhs.toInt.tdiv d.toInt) * d ≠ lhs ∨ d.toInt < 0 ∧ lhs = 0) := by
          rintro (h | h)
          · exact h (hexact.2 hok.1)
          · exact hok.2 ⟨eq_zero_iff.1 h.2, h.1⟩
        obtain ⟨hqlo, hqhi⟩ := ediv_bounds (by omega) (by omega) hok.1
        rw [if_neg fun h => hcode h.2, if_pos ⟨hok.1, hok.2, hqlo, hqhi⟩, tdiv_eq_ediv_of_dvd hok.1]
        exact .pure rfl
      · have hcode : BitVec.ofInt 32 (lhs.toInt.tdiv d.toInt) * d ≠ lhs ∨ d.toInt < 0 ∧ lhs = 0 := by
          by_cases h : d.toInt ∣ lhs.toInt
          · have hzero : lhs.toInt = 0 ∧ d.toInt < 0 := by tauto
            exact .inr ⟨hzero.2, eq_zero_iff.2 hzero.1⟩
          · exact .inl fun heq => h (hexact.1 heq)
        rw [if_pos ⟨rfl, hcode⟩, if_neg fun h => hok ⟨h.1, h.2.1⟩]
        exact .pure rfl
  | false =>
    have hrest : BitVec.ofInt 32 (lhs.toInt.tdiv d.toInt) * -d + lhs = BitVec.ofInt 32 (lhs.toInt.tmod d.toInt) := by
      rw [show lhs.toInt.tmod d.toInt = lhs.toInt.tdiv d.toInt * -d.toInt + lhs.toInt by linarith,
        BitVec.ofInt_add, BitVec.ofInt_mul, BitVec.ofInt_neg, BitVec.ofInt_toInt, BitVec.ofInt_toInt]
    have hzero : BitVec.ofInt 32 (lhs.toInt.tmod d.toInt) = 0 ↔ d.toInt ∣ lhs.toInt := by
      rw [ofInt_eq_iff (by omega) (by omega), hdvd]
      rfl
    rw [if_neg (by simp), hrest]
    cases hmir : mir.isTruncated with
    | true =>
      rw [if_neg (by simp), expected_truncated hmir hb (by simp)]
      exact .pure rfl
    | false =>
      rw [expected_remainder hmir hb]
      by_cases hbad : lhs.toInt < 0 ∧ d.toInt ∣ lhs.toInt
      · have hflag : mir.canBeNegativeDividend = true := by
          by_contra hflag
          have := hneg (by simpa using hflag)
          omega
        rw [if_pos ⟨rfl, hflag, hbad.1, hzero.2 hbad.2⟩, if_neg fun h => h.1 hbad]
        exact .pure rfl
      · rw [if_neg fun h => hbad ⟨h.2.2.1, hzero.1 h.2.2.2⟩, if_pos ⟨hbad, by omega, by omega⟩]
        exact .pure rfl

end DivisionCode

end SpiderMonkey
