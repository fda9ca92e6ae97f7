import Mathlib.Tactic

/-!
# Division by multiplication

A multiplier that is slightly more than a power of two over the divisor: the high part of its product with a
number of bounded magnitude is the quotient, and one less than the quotient rounded up if the number is
negative.
-/

/-- `M` is at least `2 ^ p / d`, by so little that it does not matter for numbers of `L` bits. -/
structure IsReciprocal (L p : ℕ) (d M : ℤ) : Prop where
  pos : 0 < d
  le : L ≤ p
  above : 2 ^ p < d * M
  below : d * M ≤ 2 ^ p + 2 ^ (p - L)

namespace IsReciprocal

variable {L p : ℕ} {d M n : ℤ}

section

variable (h : IsReciprocal L p d M)

include h

lemma two_pow_eq : (2 : ℤ) ^ (p - L) * 2 ^ L = 2 ^ p := by
  rw [← pow_add, Nat.sub_add_cancel h.le]

/-- What the multiplier exceeds `2 ^ p / d` by changes the product by less than `2 ^ p`. -/
lemma excess_lt (hn : 0 ≤ n) (hlt : n < 2 ^ L) : 0 ≤ (d * M - 2 ^ p) * n ∧ (d * M - 2 ^ p) * n < 2 ^ p := by
  have hlo : 0 < d * M - 2 ^ p := sub_pos.2 h.above
  have hhi : d * M - 2 ^ p ≤ 2 ^ (p - L) := by
    have := h.below
    omega
  constructor
  · exact mul_nonneg hlo.le hn
  · calc (d * M - 2 ^ p) * n ≤ 2 ^ (p - L) * n := mul_le_mul_of_nonneg_right hhi hn
      _ < 2 ^ (p - L) * 2 ^ L := mul_lt_mul_of_pos_left hlt (by positivity)
      _ = 2 ^ p := h.two_pow_eq

lemma excess_ge (hn : n < 0) (hle : -2 ^ L ≤ n) : -2 ^ p ≤ (d * M - 2 ^ p) * n ∧ (d * M - 2 ^ p) * n < 0 := by
  have hlo : 0 < d * M - 2 ^ p := sub_pos.2 h.above
  have hhi : d * M - 2 ^ p ≤ 2 ^ (p - L) := by
    have := h.below
    omega
  constructor
  · calc -2 ^ p = 2 ^ (p - L) * -2 ^ L := by rw [mul_neg, h.two_pow_eq]
      _ ≤ 2 ^ (p - L) * n := mul_le_mul_of_nonneg_left hle (by positivity)
      _ ≤ (d * M - 2 ^ p) * n := mul_le_mul_of_nonpos_right hhi hn.le
  · exact mul_neg_of_pos_of_neg hlo hn

theorem ediv_of_nonneg (hn : 0 ≤ n) (hlt : n < 2 ^ L) : M * n / 2 ^ p = n / d := by
  obtain ⟨hlo, hhi⟩ := h.excess_lt hn hlt
  have hdiv := Int.emod_add_mul_ediv n d
  have hmod := Int.emod_nonneg n h.pos.ne'
  have hmod' := Int.emod_lt_of_pos n h.pos
  refine (Int.ediv_eq_iff_of_pos (by positivity)).2 ⟨?_, ?_⟩
  · refine le_of_mul_le_mul_left ?_ h.pos
    calc d * (n / d * 2 ^ p) = d * (n / d) * 2 ^ p := by ring
      _ ≤ n * 2 ^ p := mul_le_mul_of_nonneg_right (by omega) (by positivity)
      _ ≤ d * (M * n) := by linarith
  · refine lt_of_mul_lt_mul_left ?_ h.pos.le
    calc d * (M * n) < (n + 1) * 2 ^ p := by linarith
      _ ≤ d * (n / d + 1) * 2 ^ p := mul_le_mul_of_nonneg_right (by linarith) (by positivity)
      _ = d * (n / d * 2 ^ p + 2 ^ p) := by ring

/-- The product with a negative number, whose quotient is rounded up. -/
theorem ediv_of_neg (hn : n < 0) (hle : -2 ^ L ≤ n) : M * n / 2 ^ p = -(-n / d) - 1 := by
  obtain ⟨hlo, hhi⟩ := h.excess_ge hn hle
  have hdiv := Int.emod_add_mul_ediv (-n) d
  have hmod := Int.emod_nonneg (-n) h.pos.ne'
  have hmod' := Int.emod_lt_of_pos (-n) h.pos
  refine (Int.ediv_eq_iff_of_pos (by positivity)).2 ⟨?_, ?_⟩
  · refine le_of_mul_le_mul_left ?_ h.pos
    calc d * ((-(-n / d) - 1) * 2 ^ p) = d * (-(-n / d) - 1) * 2 ^ p := by ring
      _ ≤ (n - 1) * 2 ^ p := mul_le_mul_of_nonneg_right (by linarith) (by positivity)
      _ ≤ d * (M * n) := by linarith
  · refine lt_of_mul_lt_mul_left ?_ h.pos.le
    calc d * (M * n) < n * 2 ^ p := by linarith
      _ ≤ d * (-(-n / d) - 1 + 1) * 2 ^ p := mul_le_mul_of_nonneg_right (by linarith) (by positivity)
      _ = d * ((-(-n / d) - 1) * 2 ^ p + 2 ^ p) := by ring

/-- The quotient that is rounded towards zero, for both signs. -/
theorem ediv_add_eq_tdiv (hlt : n < 2 ^ L) (hle : -2 ^ L ≤ n) :
    M * n / 2 ^ p + (if n < 0 then 1 else 0) = n.tdiv d := by
  split_ifs with hn
  · rw [h.ediv_of_neg hn hle, sub_add_cancel, ← Int.tdiv_eq_ediv_of_nonneg (by omega), Int.neg_tdiv, neg_neg]
  · rw [h.ediv_of_nonneg (not_lt.1 hn) hlt, Int.tdiv_eq_ediv_of_nonneg (not_lt.1 hn), add_zero]

end

end IsReciprocal
