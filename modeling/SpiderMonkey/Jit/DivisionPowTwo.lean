import SpiderMonkey.Jit.DivisionSound

/-!
# Division by powers of two is right

The shifts and the masks of `visitDivPowTwoI` and `visitModPowTwoI`, and the division by all constants.
-/

namespace SpiderMonkey

open Checked

namespace DivisionCode

open Int

variable {mir : MBinaryArith} {isDiv negativeDivisor : Bool} {shift : ℕ} {x lhs : Register} {a b : ℤ}

/-! ## Low bits -/

lemma shiftRight_UINT32_MAX (h : shift ≤ 32) : UINT32_MAX >>> (32 - shift) = 2 ^ shift - 1 := by
  have hsplit : 2 ^ 32 = 2 ^ shift * 2 ^ (32 - shift) := by rw [← pow_add, Nat.add_sub_cancel' h]
  have hpos : 0 < 2 ^ (32 - shift) := Nat.two_pow_pos _
  have hpos' : 0 < 2 ^ shift := Nat.two_pow_pos _
  rw [UINT32_MAX, Nat.shiftRight_eq_div_pow]
  apply Nat.div_eq_of_lt_le
  · rw [hsplit, Nat.sub_mul]
    omega
  · rw [Nat.sub_add_cancel hpos', ← hsplit]
    omega

lemma toNat_and_low (h : shift < 32) : (x &&& BitVec.ofNat 32 (2 ^ shift - 1)).toNat = x.toNat % 2 ^ shift := by
  have hlt : 2 ^ shift < 2 ^ 32 := Nat.pow_lt_pow_right (by norm_num) h
  rw [BitVec.toNat_and, BitVec.toNat_ofNat, Nat.mod_eq_of_lt (by omega), Nat.and_two_pow_sub_one_eq_mod]

lemma lowMask_eq (h : shift < 32) : lowMask shift = BitVec.ofNat 32 (2 ^ shift - 1) := by
  have hpos : 0 < 2 ^ shift := Nat.two_pow_pos _
  have hlt : 2 ^ shift < 2 ^ 32 := Nat.pow_lt_pow_right (by norm_num) h
  apply BitVec.eq_of_toNat_eq
  rw [lowMask, Nat.one_shiftLeft, BitVec.toNat_sub_of_le]
  · rw [BitVec.toNat_ofNat, BitVec.toNat_ofNat, Nat.mod_eq_of_lt hlt, Nat.mod_eq_of_lt (by omega)]
    rfl
  · rw [BitVec.le_def, BitVec.toNat_ofNat, Nat.mod_eq_of_lt hlt]
    exact hpos

lemma two_pow_dvd_iff (h : shift ≤ 32) : (2 : ℤ) ^ shift ∣ x.toInt ↔ 2 ^ shift ∣ x.toNat := by
  have hdvd : (2 : ℤ) ^ shift ∣ 2 ^ 32 := pow_dvd_pow 2 h
  rw [BitVec.toInt_eq_toNat_cond, ← natCast_dvd_natCast, Nat.cast_pow, Nat.cast_ofNat]
  split_ifs
  · rfl
  · exact dvd_sub_left (by exact_mod_cast hdvd)

lemma and_low_eq_zero_iff (h : shift < 32) :
    x &&& BitVec.ofNat 32 (UINT32_MAX >>> (32 - shift)) = 0 ↔ 2 ^ shift ∣ x.toNat := by
  rw [shiftRight_UINT32_MAX h.le, ← BitVec.toNat_inj, toNat_and_low h, Nat.dvd_iff_mod_eq_zero]
  rfl

/-! ## Rounding -/

/-- A negative numerator is moved up before it is shifted. -/
lemma ediv_round (a : ℤ) {m : ℤ} (hm : 0 < m) : (a + if a < 0 then m - 1 else 0) / m = a.tdiv m := by
  split_ifs with h
  · have htdiv : a.tdiv m = -(-a / m) := by
      rw [← tdiv_eq_ediv_of_nonneg (by omega), Int.neg_tdiv, neg_neg]
    have hsplit := emod_add_mul_ediv (-a) m
    have hlo := emod_nonneg (-a) hm.ne'
    have hhi := emod_lt_of_pos (-a) hm
    rw [htdiv, ediv_eq_iff_of_pos hm]
    constructor <;> nlinarith
  · rw [add_zero, tdiv_eq_ediv_of_nonneg (not_lt.1 h)]

lemma toNat_sign_shr (hpos : 0 < shift) (h : shift < 32) :
    ((if 1 < shift then lhs.sshiftRight 31 else lhs) >>> (32 - shift)).toNat =
      if lhs.toInt < 0 then 2 ^ shift - 1 else 0 := by
  rw [toNat_shr]
  split_ifs with hmany hneg hneg
  · have hones : (lhs.sshiftRight 31).toNat = UINT32_MAX := by
      have hsign := toInt_sar_sign (x := lhs)
      rw [if_pos hneg, BitVec.toInt_eq_toNat_cond] at hsign
      unfold UINT32_MAX
      split_ifs at hsign <;> omega
    rw [hones, ← shiftRight_UINT32_MAX h.le, Nat.shiftRight_eq_div_pow]
  · have hzero : (lhs.sshiftRight 31).toNat = 0 := by
      have hsign := toInt_sar_sign (x := lhs)
      rw [if_neg hneg, BitVec.toInt_eq_toNat_cond] at hsign
      split_ifs at hsign <;> omega
    simp [hzero]
  all_goals
    obtain rfl : shift = 1 := by omega
    have hn := lhs.isLt
    rw [BitVec.toInt_eq_toNat_cond] at hneg
    split_ifs at hneg <;> omega

lemma ofInt_add_eq (v : ℤ) : BitVec.ofInt 32 v + x = BitVec.ofInt 32 (x.toInt + v) := by
  simp [BitVec.ofInt_add, BitVec.add_comm]

/-- The numerator that is shifted: rounding is left out only where it makes no difference. -/
lemma roundNumerator_spec (hpos : 0 < shift) (h : shift < 32) (hneg : mir.canBeNegativeDividend = false → 0 ≤ lhs.toInt)
    (hexact : mir.isTruncated = false → (2 : ℤ) ^ shift ∣ lhs.toInt) :
    Returns (roundNumerator mir shift lhs) fun r => r.toInt / 2 ^ shift = lhs.toInt.tdiv (2 ^ shift) := by
  obtain ⟨hlo, hhi⟩ := toInt_bounds lhs
  have hpow : (2 : ℤ) ^ shift ≤ 2 ^ 31 := pow_le_pow_right₀ (by norm_num) (by omega)
  have hpow' : (1 : ℤ) ≤ 2 ^ shift := one_le_pow₀ (by norm_num)
  refine .ite (fun _ => ?_) fun hnone => .pure ?_
  · refine .bind (Q := fun sign => sign = if 1 < shift then lhs.sshiftRight 31 else lhs) ?_ ?_
    · refine .ite (fun hmany => ?_) fun hone => .pure (if_neg hone).symm
      simpa [hmany] using ⟨_, rfl, rfl⟩
    · rintro _ rfl
      rw [shrl_eq (by omega)]
      refine ⟨_, rfl, ?_⟩
      have hadjustment := ofInt_eq_of_toNat (@toNat_sign_shr shift lhs hpos h)
      have hcast : ((if lhs.toInt < 0 then 2 ^ shift - 1 else 0 : ℕ) : ℤ) =
          if lhs.toInt < 0 then 2 ^ shift - 1 else 0 := by
        split_ifs
        · rw [Nat.cast_sub Nat.one_le_two_pow]
          norm_num
        · rfl
      have hsum : ((if 1 < shift then lhs.sshiftRight 31 else lhs) >>> (32 - shift) + lhs).toInt =
          lhs.toInt + if lhs.toInt < 0 then 2 ^ shift - 1 else 0 := by
        rw [hadjustment, hcast, ofInt_add_eq]
        apply toInt_ofInt_of_bounds <;> split_ifs <;> omega
      dsimp only
      rw [hsum, ediv_round _ (by omega)]
  · cases hmir : mir.isTruncated with
    | true => exact (tdiv_eq_ediv_of_nonneg (hneg (by simpa [hmir] using hnone))).symm
    | false => exact (tdiv_eq_ediv_of_dvd (hexact hmir)).symm

/-! ## Division -/

def divisor (shift : ℕ) (negativeDivisor : Bool) : ℤ := if negativeDivisor = true then -2 ^ shift else 2 ^ shift

lemma divisor_natAbs : (divisor shift negativeDivisor).natAbs = 2 ^ shift := by
  unfold divisor
  split_ifs <;> simp

lemma divisor_ne_zero : divisor shift negativeDivisor ≠ 0 := by
  rw [← natAbs_pos, divisor_natAbs]
  simp

lemma divisor_dvd_iff : divisor shift negativeDivisor ∣ a ↔ (2 : ℤ) ^ shift ∣ a := by
  unfold divisor
  split_ifs
  · rw [neg_dvd]
  · rfl

lemma divisor_neg_iff : divisor shift negativeDivisor < 0 ↔ negativeDivisor = true := by
  have : (0 : ℤ) < 2 ^ shift := by positivity
  unfold divisor
  split_ifs with h <;> simp [h, this, this.le]

lemma tdiv_divisor : a.tdiv (divisor shift negativeDivisor) =
    if negativeDivisor = true then -(a.tdiv (2 ^ shift)) else a.tdiv (2 ^ shift) := by
  unfold divisor
  split_ifs
  · simp
  · rfl

/-- The shift of a numerator that was rounded, or that needs no rounding. -/
lemma sar_eq_tdiv {r : Register} (h : r.toInt / 2 ^ shift = lhs.toInt.tdiv (2 ^ shift)) :
    (if negativeDivisor = true then -r.sshiftRight shift else r.sshiftRight shift) =
      BitVec.ofInt 32 (lhs.toInt.tdiv (divisor shift negativeDivisor)) := by
  have hshift : r.sshiftRight shift = BitVec.ofInt 32 (lhs.toInt.tdiv (2 ^ shift)) :=
    ofInt_eq_of_toInt ((toInt_sar shift).trans h)
  rw [tdiv_divisor, hshift]
  split_ifs
  · rw [BitVec.ofInt_neg]
  · rfl

lemma visitDivPowTwoI_shift (hpos : 0 < shift) (h : shift < 32)
    (hunsigned : mir.isUnsigned = true → negativeDivisor = false)
    (hneg : mir.isUnsigned = false → mir.canBeNegativeDividend = false → 0 ≤ lhs.toInt) :
    Returns (visitDivPowTwoI mir shift negativeDivisor lhs)
      (· = expected mir true (operand mir.isUnsigned lhs) (divisor shift negativeDivisor)) := by
  obtain ⟨hlo, hhi⟩ := toInt_bounds lhs
  have hn := lhs.isLt
  have hb := @divisor_ne_zero negativeDivisor shift
  have hlarge : 2 ≤ (divisor shift negativeDivisor).natAbs := by
    rw [divisor_natAbs]
    exact Nat.pow_le_pow_right (n := 2) (by norm_num) hpos
  have hdvd : divisor shift negativeDivisor ∣ operand mir.isUnsigned lhs ↔ 2 ^ shift ∣ lhs.toNat := by
    rw [divisor_dvd_iff]
    unfold operand
    split_ifs
    · simp [← natCast_dvd_natCast]
    · exact two_pow_dvd_iff h.le
  have hzero : lhs = 0 ↔ operand mir.isUnsigned lhs = 0 := by
    unfold operand
    split_ifs
    · simp [← BitVec.toNat_inj]
    · exact eq_zero_iff
  have ha : (operand mir.isUnsigned lhs).natAbs < 2 ^ 32 := by
    unfold operand
    split_ifs <;> omega
  have hvalue : ∀ v : Register,
      (mir.isTruncated = false → 2 ^ shift ∣ lhs.toNat ∧ ¬(negativeDivisor = true ∧ lhs = 0)) →
      v = BitVec.ofInt 32 ((operand mir.isUnsigned lhs).tdiv (divisor shift negativeDivisor)) →
      .value v = expected mir true (operand mir.isUnsigned lhs) (divisor shift negativeDivisor) := by
    intro v hok hv
    cases hmir : mir.isTruncated with
    | true => rw [expected_truncated hmir hb (by omega), if_pos rfl, hv]
    | false =>
      obtain ⟨hd, hz⟩ := hok hmir
      obtain ⟨hqlo, hqhi⟩ := ediv_bounds ha hlarge (hdvd.2 hd)
      have hz' : ¬(operand mir.isUnsigned lhs = 0 ∧ divisor shift negativeDivisor < 0) :=
        fun hbad => hz ⟨divisor_neg_iff.1 hbad.2, hzero.2 hbad.1⟩
      rw [expected_quotient hmir hb, if_pos ⟨hdvd.2 hd, hz', hqlo, hqhi⟩, hv, tdiv_eq_ediv_of_dvd (hdvd.2 hd)]
  have hbailout : mir.isTruncated = false → ¬2 ^ shift ∣ lhs.toNat ∨ negativeDivisor = true ∧ lhs = 0 →
      .bailout = expected mir true (operand mir.isUnsigned lhs) (divisor shift negativeDivisor) := by
    intro hmir hbad
    rw [expected_quotient hmir hb, if_neg]
    rintro ⟨hd, hz, -⟩
    exact hbad.elim (fun h => h (hdvd.1 hd)) fun h => hz ⟨hzero.1 h.2, divisor_neg_iff.2 h.1⟩
  unfold visitDivPowTwoI
  refine .ite (fun hz => .pure (hbailout hz.1 (.inr hz.2))) fun hz => ?_
  rw [if_pos hpos.ne']
  have hmask := @and_low_eq_zero_iff shift lhs h
  refine .ite (fun hrest => .pure (hbailout hrest.1 (.inl fun hd => hrest.2 (hmask.2 hd)))) fun hrest => ?_
  have hok : mir.isTruncated = false → 2 ^ shift ∣ lhs.toNat ∧ ¬(negativeDivisor = true ∧ lhs = 0) := fun hmir =>
    ⟨by_contra fun hd => hrest ⟨hmir, fun hzero => hd (hmask.1 hzero)⟩, fun hbad => hz ⟨hmir, hbad⟩⟩
  refine .ite (fun hu => ?_) fun hu => ?_
  · rw [shrl_eq h]
    refine ⟨_, rfl, hvalue _ hok ?_⟩
    have hquot : (operand true lhs).tdiv (divisor shift false) = (lhs.toNat / 2 ^ shift : ℕ) := by
      rw [tdiv_divisor, if_neg (by simp), operand, if_pos rfl, tdiv_eq_ediv_of_nonneg (by positivity)]
      norm_cast
    rw [hu, hunsigned hu, hquot]
    exact ofInt_eq_of_toNat (toNat_shr shift)
  · have hsigned : mir.isUnsigned = false := by simpa using hu
    have hround := @roundNumerator_spec mir shift lhs hpos h (hneg hsigned) fun hmir =>
      (two_pow_dvd_iff h.le).2 (hok hmir).1
    apply hround.bind
    intro r hr
    rw [sarl_eq h]
    refine ⟨_, rfl, hvalue _ hok ?_⟩
    rw [hsigned]
    exact sar_eq_tdiv hr

lemma visitDivPowTwoI_negOne : Returns (visitDivPowTwoI mir 0 true lhs) (· = expected mir true lhs.toInt (-1)) := by
  obtain ⟨hlo, hhi⟩ := toInt_bounds lhs
  have hneg : -lhs = BitVec.ofInt 32 (-lhs.toInt) := by simp [BitVec.ofInt_neg]
  have hmin : lhs = BitVec.intMin 32 ↔ lhs.toInt = -2 ^ 31 := by
    rw [← BitVec.toInt_inj]
    rfl
  unfold visitDivPowTwoI
  rw [if_neg (c := (0 : ℕ) ≠ 0) (by simp), if_pos (c := true = true) rfl]
  cases hmir : mir.isTruncated with
  | true =>
    rw [if_neg (by simp), if_neg (c := true = false) (by simp)]
    by_cases htrap : lhs = BitVec.intMin 32 ∧ mir.trapOnError = true
    · rw [if_pos htrap.1, if_pos htrap.2]
      refine .pure ?_
      unfold expected
      rw [if_pos hmir, if_pos ⟨htrap.2, .inr ⟨rfl, hmin.1 htrap.1, rfl⟩⟩]
    · rw [expected_truncated hmir (by norm_num) fun hflag _ hleast => htrap ⟨hmin.2 hleast.1, hflag⟩, if_pos rfl,
        Int.tdiv_neg, Int.tdiv_one, ← hneg]
      split_ifs with hleast hflag
      · exact absurd ⟨hleast, hflag⟩ htrap
      · exact .pure rfl
      · exact .pure rfl
  | false =>
    rw [expected_quotient hmir (by norm_num), show lhs.toInt / -1 = -lhs.toInt by omega]
    by_cases hzero : lhs = 0
    · rw [if_pos ⟨rfl, rfl, hzero⟩, if_neg fun h => h.2.1 ⟨eq_zero_iff.1 hzero, by norm_num⟩]
      exact .pure rfl
    · have hne := fun h => hzero (eq_zero_iff.2 h)
      rw [if_neg fun h => hzero h.2.2, if_pos rfl]
      by_cases hleast : lhs = BitVec.intMin 32
      · have := hmin.1 hleast
        simpa [hleast] using .pure rfl
      · have hgreater : lhs.toInt ≠ -2 ^ 31 := fun h => hleast (hmin.2 h)
        have hfits : -2 ^ 31 ≤ -lhs.toInt ∧ -lhs.toInt < 2 ^ 31 := by omega
        rw [if_neg hleast, if_pos ⟨⟨-lhs.toInt, by ring⟩, fun h => hne h.1, hfits.1, hfits.2⟩, ← hneg]
        exact .pure rfl

lemma visitDivPowTwoI_one : Returns (visitDivPowTwoI mir 0 false lhs)
    (· = expected mir true (operand mir.isUnsigned lhs) 1) := by
  have hn := lhs.isLt
  obtain ⟨hlo, hhi⟩ := toInt_bounds lhs
  have hvalue : lhs = BitVec.ofInt 32 (operand mir.isUnsigned lhs) := by
    unfold operand
    split_ifs
    · exact ofInt_eq_of_toNat rfl
    · exact ofInt_eq_of_toInt rfl
  unfold visitDivPowTwoI
  rw [if_neg (by simp), if_neg (by simp), if_neg (by simp)]
  cases hmir : mir.isTruncated with
  | true =>
    rw [if_neg (by simp), expected_truncated hmir (by norm_num) (by omega), if_pos rfl, Int.tdiv_one, ← hvalue]
    exact .pure rfl
  | false =>
    rw [expected_quotient hmir (by norm_num), ediv_one]
    have hsign : lhs.msb = true ↔ 2 ^ 31 ≤ lhs.toNat := by simp [BitVec.msb_eq_decide]
    by_cases hlarge : mir.isUnsigned = true ∧ lhs.msb = true
    · have := hsign.1 hlarge.2
      have hoperand : operand mir.isUnsigned lhs = lhs.toNat := by rw [hlarge.1, operand, if_pos rfl]
      rw [if_pos ⟨hlarge.1, rfl, hlarge.2⟩, hoperand, if_neg (by omega)]
      exact .pure rfl
    · have hbounds : -2 ^ 31 ≤ operand mir.isUnsigned lhs ∧ operand mir.isUnsigned lhs < 2 ^ 31 := by
        unfold operand
        split_ifs with hu
        · have hsmall : ¬2 ^ 31 ≤ lhs.toNat := fun h => hlarge ⟨hu, hsign.2 h⟩
          omega
        · exact ⟨hlo, hhi⟩
      rw [if_neg fun h => hlarge ⟨h.1, h.2.2⟩, if_pos ⟨one_dvd _, by omega, hbounds.1, hbounds.2⟩, ← hvalue]
      exact .pure rfl

/-- The divisors that `visitDivPowTwoI` is used for: the powers of two that fit, and their negations. -/
def AcceptsPowTwo (isUnsigned : Bool) (shift : ℕ) (negativeDivisor : Bool) : Prop :=
  if isUnsigned = true then shift < 32 ∧ negativeDivisor = false
  else -2 ^ 31 ≤ divisor shift negativeDivisor ∧ divisor shift negativeDivisor < 2 ^ 31

lemma AcceptsPowTwo.shift_lt {isUnsigned : Bool} (h : AcceptsPowTwo isUnsigned shift negativeDivisor) : shift < 32 := by
  unfold AcceptsPowTwo at h
  split_ifs at h
  · exact h.1
  · have hle : (divisor shift negativeDivisor).natAbs ≤ 2 ^ 31 := by omega
    rw [divisor_natAbs] at hle
    have := (Nat.pow_le_pow_iff_right (by norm_num)).1 hle
    omega

theorem visitDivPowTwoI_spec (haccepts : AcceptsPowTwo mir.isUnsigned shift negativeDivisor)
    (hneg : mir.isUnsigned = false → mir.canBeNegativeDividend = false → 0 ≤ lhs.toInt) :
    Returns (visitDivPowTwoI mir shift negativeDivisor lhs)
      (· = expected mir true (operand mir.isUnsigned lhs) (divisor shift negativeDivisor)) := by
  have hunsigned : mir.isUnsigned = true → negativeDivisor = false := by
    intro hu
    unfold AcceptsPowTwo at haccepts
    rw [if_pos hu] at haccepts
    exact haccepts.2
  obtain rfl | hpos := Nat.eq_zero_or_pos shift
  · cases negativeDivisor with
    | true =>
      have hsigned : mir.isUnsigned = false := by
        by_contra hu
        exact Bool.noConfusion (hunsigned (by simpa using hu))
      rw [hsigned]
      exact visitDivPowTwoI_negOne
    | false => exact visitDivPowTwoI_one
  · exact visitDivPowTwoI_shift hpos haccepts.shift_lt hunsigned hneg

/-! ## Remainders -/

lemma tmod_divisor_of_nonneg (ha : 0 ≤ a) : a.tmod (divisor shift negativeDivisor) = (a.natAbs % 2 ^ shift : ℕ) := by
  have habs := natAbs_tmod a (divisor shift negativeDivisor)
  have hsign := tmod_nonneg (divisor shift negativeDivisor) ha
  rw [divisor_natAbs] at habs
  omega

lemma tmod_divisor_of_neg (ha : a < 0) : a.tmod (divisor shift negativeDivisor) = -(a.natAbs % 2 ^ shift : ℕ) := by
  have hpositive := @tmod_divisor_of_nonneg negativeDivisor shift (-a) (by omega)
  rw [neg_tmod, natAbs_neg] at hpositive
  omega

theorem visitModPowTwoI_spec (haccepts : AcceptsPowTwo mir.isUnsigned shift negativeDivisor)
    (hneg : mir.isUnsigned = false → mir.canBeNegativeDividend = false → 0 ≤ lhs.toInt) :
    visitModPowTwoI mir shift lhs =
      expected mir false (operand mir.isUnsigned lhs) (divisor shift negativeDivisor) := by
  have hlt := haccepts.shift_lt
  have hb := @divisor_ne_zero negativeDivisor shift
  have hpow : 2 ^ shift ≤ 2 ^ 31 := Nat.pow_le_pow_right (by norm_num) (by omega)
  have hpos : 0 < 2 ^ shift := Nat.two_pow_pos shift
  obtain ⟨hlo, hhi⟩ := toInt_bounds lhs
  have hmin : lhs.msb = true ↔ lhs.toInt < 0 := by
    simp [BitVec.msb_eq_toInt]
  unfold visitModPowTwoI
  rw [lowMask_eq hlt]
  by_cases hnegative : mir.isUnsigned = false ∧ lhs.toInt < 0
  · have hflag : mir.canBeNegativeDividend = true := by
      by_contra hflag
      have := hneg hnegative.1 (by simpa using hflag)
      omega
    have hoperand : operand mir.isUnsigned lhs = lhs.toInt := by simp [hnegative.1, operand]
    have hmagnitude : (-lhs).toNat = lhs.toInt.natAbs := by
      rw [BitVec.toNat_neg, BitVec.toInt_eq_toNat_cond] at *
      split_ifs at * <;> omega
    have hlow := toNat_and_low (x := -lhs) hlt
    rw [hmagnitude] at hlow
    have hvalue : -(-lhs &&& BitVec.ofNat 32 (2 ^ shift - 1)) =
        BitVec.ofInt 32 (lhs.toInt.tmod (divisor shift negativeDivisor)) := by
      rw [tmod_divisor_of_neg hnegative.2, BitVec.ofInt_neg, ← ofInt_eq_of_toNat hlow]
    obtain ⟨hbetween, -⟩ := tmod_bounds (a := lhs.toInt) hb
    have hzero : BitVec.ofInt 32 (lhs.toInt.tmod (divisor shift negativeDivisor)) = 0 ↔
        divisor shift negativeDivisor ∣ lhs.toInt := by
      rw [ofInt_eq_iff (by omega) (by omega), dvd_iff_tmod_eq_zero]
      rfl
    rw [if_pos ⟨hnegative.1, hflag, hmin.2 hnegative.2⟩, hoperand, hvalue]
    cases hmir : mir.isTruncated with
    | true => rw [expected_truncated hmir hb (by simp), if_neg (by simp), if_neg (by simp)]
    | false =>
      rw [expected_remainder hmir hb]
      by_cases hdvd : divisor shift negativeDivisor ∣ lhs.toInt
      · rw [if_pos ⟨rfl, hzero.2 hdvd⟩, if_neg fun h => h.1 ⟨hnegative.2, hdvd⟩]
      · rw [if_neg fun h => hdvd (hzero.1 h.2), if_pos ⟨fun h => hdvd h.2, by omega, by omega⟩]
  · have hcode : ¬(mir.isUnsigned = false ∧ mir.canBeNegativeDividend = true ∧ lhs.msb = true) :=
      fun h => hnegative ⟨h.1, hmin.1 h.2.2⟩
    have hoperand : operand mir.isUnsigned lhs = lhs.toNat := by
      unfold operand
      split_ifs with hu
      · rfl
      · have : ¬lhs.toInt < 0 := fun h => hnegative ⟨by simpa using hu, h⟩
        rw [BitVec.toInt_eq_toNat_cond] at this ⊢
        split_ifs at this ⊢ <;> omega
    have htmod : (lhs.toNat : ℤ).tmod (divisor shift negativeDivisor) = (lhs.toNat % 2 ^ shift : ℕ) :=
      tmod_divisor_of_nonneg (by positivity)
    have hvalue := ofInt_eq_of_toNat (toNat_and_low (x := lhs) hlt)
    rw [if_neg hcode, hoperand]
    cases hmir : mir.isTruncated with
    | true => rw [expected_truncated hmir hb (by simp), if_neg (by simp), htmod, hvalue]
    | false =>
      rw [expected_remainder hmir hb, htmod, if_pos ⟨by omega, by omega, by omega⟩, hvalue]

/-! ## All constants -/

lemma and_sub_one_ne_zero {d : ℕ} (hd : d ≠ 0) (h : ¬d.isPowerOfTwo) : d &&& (d - 1) ≠ 0 :=
  fun hzero => h ((Nat.and_sub_one_eq_zero_iff_isPowerOfTwo hd).1 hzero)

/-- What the constants are for. -/
lemma computeDivisionConstants_floor {d L : ℕ} (hL : L = 31 ∨ L = 32) (hd : 0 < d) (hlt : d < 2 ^ L)
    (hpow : ¬d.isPowerOfTwo) : Returns (DivisionConstants.computeDivisionConstants d L) fun rmc =>
      32 + rmc.shiftAmount ≤ 64 ∧ (∀ n : ℤ, 0 ≤ n → n < 2 ^ L →
          ⌊((rmc.multiplier * n : ℤ) / (2 ^ (32 + rmc.shiftAmount) : ℕ) : ℚ)⌋ = ⌊(n / d : ℚ)⌋) ∧
        ∀ n : ℤ, -2 ^ L ≤ n → n < 0 →
          ⌊((rmc.multiplier * n : ℤ) / (2 ^ (32 + rmc.shiftAmount) : ℕ) : ℚ)⌋ = ⌈(n / d : ℚ)⌉ - 1 := by
  have hcomputed := DivisionConstants.computeDivisionConstants_spec (L := L) (by omega) (by omega) hd hlt
    (and_sub_one_ne_zero hd.ne' hpow)
  refine hcomputed.imp fun rmc hrmc => ⟨?_, fun n hn hlt => ?_, fun n hle hn => ?_⟩
  · have := hrmc.shift_le
    omega
  · rw [Rat.floor_intCast_div_natCast, Rat.floor_intCast_div_natCast, Nat.cast_pow, Nat.cast_ofNat,
      hrmc.reciprocal.ediv_of_nonneg hn hlt]
  · rw [Rat.floor_intCast_div_natCast, Rat.ceil_intCast_div_natCast, Nat.cast_pow, Nat.cast_ofNat,
      hrmc.reciprocal.ediv_of_neg hn hle]

/-- Division by constants: the loop of `computeDivisionConstants` ends without an overflow, at constants that are
right, and the code of every division computes what is expected. -/
theorem divisionByConstants : (∀ d L : ℕ, L = 31 ∨ L = 32 → 0 < d → d < 2 ^ L → ¬d.isPowerOfTwo →
      Returns (DivisionConstants.computeDivisionConstants d L) fun rmc =>
        32 + rmc.shiftAmount ≤ 64 ∧ (∀ n : ℤ, 0 ≤ n → n < 2 ^ L →
            ⌊((rmc.multiplier * n : ℤ) / (2 ^ (32 + rmc.shiftAmount) : ℕ) : ℚ)⌋ = ⌊(n / d : ℚ)⌋) ∧
          ∀ n : ℤ, -2 ^ L ≤ n → n < 0 →
            ⌊((rmc.multiplier * n : ℤ) / (2 ^ (32 + rmc.shiftAmount) : ℕ) : ℚ)⌋ = ⌈(n / d : ℚ)⌉ - 1) ∧
    (∀ (mir : MBinaryArith) (isDiv : Bool) (d lhs : Register), ¬d.toNat.isPowerOfTwo →
      Returns (visitUDivOrModConstant mir isDiv d lhs)
        (· = expected mir isDiv (operand true lhs) (operand true d))) ∧
    (∀ (mir : MBinaryArith) (isDiv : Bool) (d lhs : Register), d ≠ 0 → ¬d.toInt.natAbs.isPowerOfTwo →
      (mir.canBeNegativeDividend = false → 0 ≤ lhs.toInt) →
      Returns (visitDivOrModConstantI mir isDiv d lhs)
        (· = expected mir isDiv (operand false lhs) (operand false d))) ∧
    (∀ (mir : MBinaryArith) (shift : ℕ) (negativeDivisor : Bool) (lhs : Register),
      AcceptsPowTwo mir.isUnsigned shift negativeDivisor →
      (mir.isUnsigned = false → mir.canBeNegativeDividend = false → 0 ≤ lhs.toInt) →
      Returns (visitDivPowTwoI mir shift negativeDivisor lhs)
        (· = expected mir true (operand mir.isUnsigned lhs) (divisor shift negativeDivisor)) ∧
      visitModPowTwoI mir shift lhs =
        expected mir false (operand mir.isUnsigned lhs) (divisor shift negativeDivisor)) := by
  refine ⟨fun d L hL hd hlt hpow => computeDivisionConstants_floor hL hd hlt hpow, fun mir isDiv d lhs hpow => ?_,
    fun mir isDiv d lhs hd hpow hneg => ?_, fun mir shift negativeDivisor lhs haccepts hneg =>
      ⟨visitDivPowTwoI_spec haccepts hneg, visitModPowTwoI_spec haccepts hneg⟩⟩
  · apply visitUDivOrModConstant_spec
    by_cases hzero : d = 0
    · exact .inl hzero
    · exact .inr (and_sub_one_ne_zero (fun h => hzero (BitVec.eq_of_toNat_eq h)) hpow)
  · refine visitDivOrModConstantI_spec (and_sub_one_ne_zero (fun h => hd ?_) hpow) hneg
    exact eq_zero_iff.2 (natAbs_eq_zero.1 h)

/-- Seven divided by minus three, where the remainder is asked for. -/
theorem divisionByConstants_seven : ¬(-3 : Register).toInt.natAbs.isPowerOfTwo ∧
      Returns (visitDivOrModConstantI ⟨false, false, false, true⟩ false (-3) 7) (· = .value 1) := by
  have hpow : ¬(-3 : Register).toInt.natAbs.isPowerOfTwo := by
    rintro ⟨k, hk⟩
    have hk' : 3 = 2 ^ k := hk
    obtain _ | _ | k := k
    · omega
    · omega
    · rw [pow_succ, pow_succ] at hk'
      omega
  refine ⟨hpow, (divisionByConstants.2.2.1 _ _ (-3) 7 (by decide) hpow (by simp)).imp fun r hr => ?_⟩
  rw [hr, expected_remainder rfl (by decide)]
  rfl

end DivisionCode

end SpiderMonkey
