import SpiderMonkey.Lib.Checked
import SpiderMonkey.Lib.Reciprocal

/-!
# The constants of a division

`CodeGeneratorShared::computeDivisionConstants`: the multiplier and the shift amount by which the division by a
constant is compiled.
-/

namespace SpiderMonkey

open Checked

/-- A multiplier and an amount by which the high word of the product is shifted. -/
structure ReciprocalMulConstants where
  multiplier : ℕ
  shiftAmount : ℕ

namespace DivisionConstants

open Nat

def UINT64_MAX : ℕ := 2 ^ 64 - 1

/-! ## Unsigned integers of 64 bits -/

/-- A sum that must not overflow. -/
def add64 (a b : ℕ) : Checked ℕ := do
  ensure (a + b < 2 ^ 64)
  return a + b

/-- Shifts, which are undefined for other amounts. -/
def shiftLeft64 (a : ℕ) (amount : ℤ) : Checked ℕ :=
  if 0 ≤ amount ∧ amount < 64 then return a <<< amount.toNat % 2 ^ 64 else throw .undefinedBehavior

def shiftRight64 (a : ℕ) (amount : ℤ) : Checked ℕ :=
  if 0 ≤ amount ∧ amount < 64 then return a >>> amount.toNat else throw .undefinedBehavior

/-! ## The loop -/

/-- The condition of the loop, with which `p` is too small. -/
def tooSmall (d : ℕ) (maxLog p : ℤ) : Checked Bool := do
  let power ← shiftLeft64 1 (p - maxLog)
  let all ← shiftRight64 UINT64_MAX (64 - p)
  let sum ← add64 power (all % d)
  let sum ← add64 sum 1
  return decide (sum < d)

lemma le_of_tooSmall {d : ℕ} {maxLog p : ℤ} {b : Bool} (h : tooSmall d maxLog p = .ok b) : p ≤ 64 := by
  by_contra hp
  unfold tooSmall shiftRight64 at h
  rw [if_neg (c := 0 ≤ 64 - p ∧ _) (by omega)] at h
  unfold shiftLeft64 at h
  split_ifs at h
  all_goals contradiction

/-- The least `p` from here on that is not too small. -/
def leastShift (d : ℕ) (maxLog p : ℤ) : Checked ℤ :=
  match _h : tooSmall d maxLog p with
  | .ok true => leastShift d maxLog (p + 1)
  | .ok false => return p
  | .error e => throw e
termination_by (65 - p).toNat
decreasing_by
  have := le_of_tooSmall _h
  omega

def computeDivisionConstants (d : ℕ) (maxLog : ℤ) : Checked ReciprocalMulConstants := do
  ensure (2 ≤ maxLog ∧ maxLog ≤ 32)
  ensure (d < 2 ^ maxLog.toNat ∧ d &&& (d - 1) ≠ 0)
  let p ← leastShift d maxLog 32
  let all ← shiftRight64 UINT64_MAX (64 - p)
  let multiplier ← add64 (all / d) 1
  return ⟨multiplier, (p - 32).toNat⟩

/-! ## The value of the condition -/

lemma shiftRight_max {p : ℕ} (hp : p ≤ 64) : UINT64_MAX >>> (64 - p) = 2 ^ p - 1 := by
  have hsplit : 2 ^ 64 = 2 ^ p * 2 ^ (64 - p) := by rw [← pow_add, Nat.add_sub_cancel' hp]
  have hpos : 0 < 2 ^ (64 - p) := Nat.two_pow_pos _
  have hpos' : 0 < 2 ^ p := Nat.two_pow_pos _
  rw [UINT64_MAX, shiftRight_eq_div_pow]
  apply Nat.div_eq_of_lt_le
  · rw [hsplit, Nat.sub_mul]
    omega
  · rw [Nat.sub_add_cancel hpos', ← hsplit]
    omega

lemma shiftRight64_eq {p : ℕ} (hpos : 0 < p) (hp : p ≤ 64) :
    shiftRight64 UINT64_MAX (64 - (p : ℤ)) = .ok (2 ^ p - 1) := by
  unfold shiftRight64
  rw [if_pos (by omega), show (64 - (p : ℤ)).toNat = 64 - p by omega, shiftRight_max hp]
  rfl

variable {d L p : ℕ}

lemma shiftLeft64_eq (hle : L ≤ p) (hlt : p - L < 64) : shiftLeft64 1 ((p : ℤ) - L) = .ok (2 ^ (p - L)) := by
  unfold shiftLeft64
  rw [if_pos (by omega), show ((p : ℤ) - L).toNat = p - L by omega, one_shiftLeft,
    mod_eq_of_lt (Nat.pow_lt_pow_right (by norm_num) hlt)]
  rfl

/-- No addition of the condition overflows while the power of two is not much more than the divisor. -/
lemma tooSmall_eq (hd : 0 < d) (hlt : d < 2 ^ L) (hL : L ≤ 32) (hle : L ≤ p) (hp : p ≤ 64) (hpos : 0 < p)
    (hpow : 2 ^ (p - L) < 2 * d) :
    tooSmall d L p = .ok (decide (2 ^ (p - L) + (2 ^ p - 1) % d + 1 < d)) := by
  have hbound : d < 2 ^ 32 := hlt.trans_le (Nat.pow_le_pow_right (by norm_num) hL)
  have hamount : p - L < 64 := by
    by_contra hge
    have := Nat.pow_le_pow_right (n := 2) (by norm_num) (not_lt.1 hge)
    omega
  have hmod := mod_lt (2 ^ p - 1) hd
  unfold tooSmall
  rw [shiftLeft64_eq hle hamount, shiftRight64_eq hpos hp]
  dsimp only [bind, Except.bind]
  unfold add64 ensure
  rw [if_pos (by omega)]
  dsimp only [bind, Except.bind, pure, Except.pure]
  rw [if_pos (by omega)]

/-! ## The result -/

/-- The condition of the loop says that the multiplier is too far from `2 ^ p / d`. -/
lemma isReciprocal (hd : 0 < d) (hle : L ≤ p) (hpow : ¬d ∣ 2 ^ p)
    (h : ¬2 ^ (p - L) + (2 ^ p - 1) % d + 1 < d) : IsReciprocal L p d ((2 ^ p - 1) / d + 1 : ℕ) := by
  have hpos : 0 < 2 ^ p := Nat.two_pow_pos p
  have hmod := mod_lt (2 ^ p - 1) hd
  have hdiv := mod_add_div (2 ^ p - 1) d
  have hne : (2 ^ p - 1) % d ≠ d - 1 := by
    intro hlast
    refine hpow ⟨(2 ^ p - 1) / d + 1, ?_⟩
    rw [mul_succ]
    omega
  have hprod : d * ((2 ^ p - 1) / d + 1) + ((2 ^ p - 1) % d + 1) = 2 ^ p + d := by
    rw [mul_succ]
    omega
  refine ⟨by exact_mod_cast hd, hle, ?_, ?_⟩
  · have : 2 ^ p < d * ((2 ^ p - 1) / d + 1) := by omega
    exact_mod_cast this
  · have : d * ((2 ^ p - 1) / d + 1) ≤ 2 ^ p + 2 ^ (p - L) := by omega
    exact_mod_cast this

/-- What is returned for a divisor of `L` bits. -/
structure Computed (d L : ℕ) (rmc : ReciprocalMulConstants) : Prop where
  reciprocal : IsReciprocal L (32 + rmc.shiftAmount) d rmc.multiplier
  shift_le : 32 + rmc.shiftAmount ≤ 2 * L
  multiplier_lt : rmc.multiplier < 2 ^ (L + 1)
  large : 2 ^ 32 ≤ rmc.multiplier → 0 < rmc.shiftAmount

lemma not_dvd_two_pow (h : d &&& (d - 1) ≠ 0) (p : ℕ) : ¬d ∣ 2 ^ p := by
  intro hdvd
  obtain ⟨k, -, rfl⟩ := (Nat.dvd_prime_pow prime_two).1 hdvd
  exact h ((and_sub_one_eq_zero_iff_isPowerOfTwo (Nat.two_pow_pos k).ne').2 ⟨k, rfl⟩)

/-- The multiplier has one bit more than the divisor at most. -/
lemma multiplier_lt_two_pow {M : ℕ} (h : IsReciprocal L p d M) (hlt : d < 2 ^ L)
    (hpow : 2 ^ (p - L) ≤ 2 * (d - 1)) : M < 2 ^ (L + 1) := by
  have hd : 0 < d := by exact_mod_cast h.pos
  have hbelow : d * M ≤ 2 ^ p + 2 ^ (p - L) := by exact_mod_cast h.below
  have hsplit : 2 ^ p = 2 ^ (p - L) * 2 ^ L := by rw [← pow_add, Nat.sub_add_cancel h.le]
  have hmul : 2 ^ (p - L) * (2 ^ L + 1) ≤ 2 * (d - 1) * (2 ^ L + 1) := Nat.mul_le_mul_right _ hpow
  have hlast : 2 * (d - 1) * (2 ^ L + 1) < d * 2 ^ (L + 1) := by
    obtain ⟨c, rfl⟩ := exists_eq_succ_of_ne_zero hd.ne'
    rw [pow_succ, succ_sub_one, succ_eq_add_one] at *
    nlinarith
  refine lt_of_mul_lt_mul_left ?_ hd.le
  linarith

/-- A power of two that is less than twice a number is at most twice the number before it. -/
lemma two_pow_le_of_lt {k : ℕ} (hd : 2 ≤ d) (h : 2 ^ k < 2 * d) : 2 ^ k ≤ 2 * (d - 1) := by
  cases k with
  | zero => omega
  | succ k =>
    omega

/-- The loop ends, at a shift that is not too large. -/
lemma leastShift_spec (hd : 3 ≤ d) (hlt : d < 2 ^ L) (hL : L ≤ 32) (n : ℕ) :
    ∀ p, n = 65 - p → 32 ≤ p → 2 ^ (p - L) < 2 * d →
      Returns (leastShift d L p) fun q => ∃ k : ℕ, q = k ∧ p ≤ k ∧ 2 ^ (k - L) < 2 * d ∧
        ¬2 ^ (k - L) + (2 ^ k - 1) % d + 1 < d := by
  induction n with
  | zero =>
    intro p hn hp hpow
    exfalso
    have hge := Nat.pow_le_pow_right (n := 2) (by norm_num) (show L + 1 ≤ p - L by omega)
    rw [pow_succ] at hge
    omega
  | succ n ih =>
    intro p hn hp hpow
    rw [leastShift.eq_def, tooSmall_eq (by omega) hlt hL (by omega) (by omega) (by omega) hpow]
    by_cases hsmall : 2 ^ (p - L) + (2 ^ p - 1) % d + 1 < d
    · have hnext : 2 ^ (p + 1 - L) < 2 * d := by
        rw [show p + 1 - L = p - L + 1 by omega, pow_succ]
        omega
      rw [decide_eq_true hsmall]
      obtain ⟨q, hq, k, hk, hle, hrest⟩ := ih (p + 1) (by omega) (by omega) hnext
      exact ⟨q, by exact_mod_cast hq, k, hk, by omega, hrest⟩
    · rw [decide_eq_false hsmall]
      exact .pure ⟨p, rfl, le_rfl, hpow, hsmall⟩

/-- The constants of a divisor that is no power of two. -/
theorem computeDivisionConstants_spec (hL : 31 ≤ L) (hL' : L ≤ 32) (hd : 0 < d) (hlt : d < 2 ^ L)
    (hpow : d &&& (d - 1) ≠ 0) : Returns (computeDivisionConstants d L) (Computed d L) := by
  have hthree : 3 ≤ d := by
    by_contra hsmall
    have hone : d = 1 ∨ d = 2 := by omega
    obtain rfl | rfl := hone <;> simp at hpow
  have hbound : d < 2 ^ 32 := hlt.trans_le (Nat.pow_le_pow_right (by norm_num) hL')
  have hstart : 2 ^ (32 - L) < 2 * d := by
    have := Nat.pow_le_pow_right (n := 2) (by norm_num) (show 32 - L ≤ 1 by omega)
    omega
  unfold computeDivisionConstants
  refine .bind (.ensure (by omega)) fun _ _ => .bind (.ensure ⟨by simpa using hlt, hpow⟩) fun _ _ => ?_
  refine .bind (leastShift_spec hthree hlt hL' _ 32 rfl le_rfl hstart) ?_
  rintro _ ⟨p, rfl, hp, hsmall, hdone⟩
  have hle : p ≤ 2 * L := by
    by_contra hge
    have hge := Nat.pow_le_pow_right (n := 2) (by norm_num) (show L + 1 ≤ p - L by omega)
    rw [pow_succ] at hge
    omega
  have hrec := isReciprocal hd (by omega) (not_dvd_two_pow hpow p) hdone
  have hmul := multiplier_lt_two_pow hrec hlt (two_pow_le_of_lt (by omega) hsmall)
  have hmul' : 2 ^ (L + 1) ≤ 2 ^ 33 := Nat.pow_le_pow_right (by norm_num) (by omega)
  rw [shiftRight64_eq (by omega) (by omega)]
  refine .bind (Q := fun all => all = 2 ^ p - 1) ⟨_, rfl, rfl⟩ ?_
  rintro _ rfl
  refine .bind (Q := fun m => m = (2 ^ p - 1) / d + 1) ?_ ?_
  · exact .bind (.ensure (by omega)) fun _ _ => .pure rfl
  · rintro _ rfl
    have hshift : 32 + ((p : ℤ) - 32).toNat = p := by omega
    refine .pure ⟨by rwa [hshift], by rwa [hshift], hmul, fun hlarge => ?_⟩
    by_contra hzero
    obtain rfl : p = 32 := by
      simp only at hzero
      omega
    have := Nat.div_le_self (2 ^ 32 - 1) d
    have hdiv : (2 ^ 32 - 1) / d ≤ (2 ^ 32 - 1) / 3 := div_le_div_left hthree (by norm_num)
    simp only at hlarge
    omega

end DivisionConstants

end SpiderMonkey
