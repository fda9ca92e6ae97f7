import Mathlib.Tactic

/-!
# IEEE 754 binary64

Doubles by their bit patterns: the three fields, the rational a finite pattern denotes (`toRat`)
and the correctly rounded pattern of an integer (`ofInt`).  All finite doubles are multiples of the
least subnormal `2 ^ (-1074)`, so their values are compared on integers, in units of it (`scaled`).

Rounding is division to the nearest quotient, ties to even (`roundDiv`).  `ofInt_nearest` and
`ofInt_overflow` say what that means for the pattern: it denotes a closest finite double, an even
one if there are two, and it is infinite exactly when the rounded magnitude leaves the range.
-/

namespace Binary64

open Nat

/-! ## Division to the nearest quotient -/

/-- The quotient nearest to `n / d`, the even one if there are two. -/
def roundDiv (n d : ℕ) : ℕ :=
  if 2 * (n % d) > d ∨ 2 * (n % d) = d ∧ n / d % 2 = 1 then n / d + 1 else n / d

section RoundDiv

variable {n d : ℕ}

/-- The two quotients between which every other one does not count. -/
lemma mul_le_or_le_mul (n d m : ℕ) : d * m ≤ d * (n / d) ∨ d * (n / d) + d ≤ d * m := by
  rcases lt_or_ge (n / d) m with h | h
  · exact .inr (by simpa [mul_add] using mul_le_mul_left d h)
  · exact .inl (mul_le_mul_left d h)

lemma roundDiv_nearest (hd : 0 < d) (m : ℕ) : ((n : ℤ) - d * roundDiv n d).natAbs ≤ ((n : ℤ) - d * m).natAbs := by
  have hdiv := div_add_mod n d
  have hmod := mod_lt n hd
  have hm := mul_le_or_le_mul n d m
  unfold roundDiv
  rw [← cast_mul, ← cast_mul]
  split
  · rw [mul_add, mul_one]; omega
  · omega

lemma roundDiv_tie (hd : 0 < d) {m : ℕ} (hm : m ≠ roundDiv n d)
    (h : ((n : ℤ) - d * roundDiv n d).natAbs = ((n : ℤ) - d * m).natAbs) :
    roundDiv n d % 2 = 0 := by
  have hdiv := Nat.div_add_mod n d
  have hmod := Nat.mod_lt n hd
  have hinj : ∀ a, d * m = d * a → m = a := fun a => Nat.eq_of_mul_eq_mul_left hd
  have hcases := mul_le_or_le_mul n d m
  unfold roundDiv at hm h ⊢
  rw [← Nat.cast_mul, ← Nat.cast_mul] at h
  split at h
  next hup =>
    rw [if_pos hup] at hm ⊢
    have hsucc := hinj (n / d + 1)
    rw [Nat.mul_add, Nat.mul_one] at h hsucc
    omega
  next hup =>
    rw [if_neg hup] at hm ⊢
    have hsame := hinj (n / d)
    omega

lemma le_roundDiv (n d : ℕ) : n / d ≤ roundDiv n d := by
  unfold roundDiv
  split <;> omega

lemma roundDiv_le (n d : ℕ) : roundDiv n d ≤ n / d + 1 := by
  unfold roundDiv
  split <;> omega

/-- Rounding decided by the bit below the quotient and by whether anything is left beneath it. -/
lemma roundDiv_two_mul (n : ℕ) (hd : 0 < d) :
    roundDiv n (2 * d) = if n / d % 2 = 1 ∧ (n / d / 2 % 2 = 1 ∨ n % d ≠ 0) then n / d / 2 + 1 else n / d / 2 := by
  have hdiv : n / (2 * d) = n / d / 2 := by rw [Nat.mul_comm, Nat.div_div_eq_div_mul]
  have hmod : n % (2 * d) = n % d + d * (n / d % 2) := by rw [Nat.mul_comm, Nat.mod_mul]
  have hlt := Nat.mod_lt n hd
  unfold roundDiv
  rw [hdiv, hmod]
  rcases Nat.mod_two_eq_zero_or_one (n / d) with h | h
  · rw [h, Nat.mul_zero, if_neg (by omega), if_neg (by omega)]
  · rw [h, Nat.mul_one]
    congr 1
    simp only [true_and, eq_iff_iff]
    omega

end RoundDiv

/-! ## Bit patterns -/

abbrev Double := BitVec 64

variable (d : Double)

def isNegative : Bool := decide (2 ^ 63 ≤ d.toNat)

def exponentField : ℕ := d.toNat / 2 ^ 52 % 2 ^ 11

def significandField : ℕ := d.toNat % 2 ^ 52

def IsFinite : Prop := exponentField d ≠ 2047

instance (d : Double) : Decidable (IsFinite d) := inferInstanceAs (Decidable (_ ≠ _))

/-- The magnitude of a finite double, in units of `2 ^ (-1074)`. -/
def scaled : ℕ :=
  if exponentField d = 0 then significandField d
  else (2 ^ 52 + significandField d) * 2 ^ (exponentField d - 1)

/-- The value of a finite double, in units of `2 ^ (-1074)`. -/
def scaledInt : ℤ := if isNegative d then -(scaled d : ℤ) else scaled d

/-- The value of a finite double. -/
def toRat : ℚ := scaledInt d / 2 ^ 1074

/-- The pattern of a sign and of the remaining 63 bits. -/
def pack (negative : Bool) (magnitude : ℕ) : Double :=
  BitVec.ofNat 64 ((if negative then 2 ^ 63 else 0) + magnitude)

section Pack

variable {negative : Bool} {magnitude : ℕ}

lemma toNat_pack (h : magnitude < 2 ^ 63) :
    (pack negative magnitude).toNat = (if negative then 2 ^ 63 else 0) + magnitude := by
  rw [pack, BitVec.toNat_ofNat, mod_eq_of_lt]
  split <;> omega

lemma isNegative_pack (h : magnitude < 2 ^ 63) : isNegative (pack negative magnitude) = negative := by
  rw [isNegative, toNat_pack h]
  cases negative with
  | false => simpa using h
  | true => simp

lemma exponentField_pack (h : magnitude < 2 ^ 63) : exponentField (pack negative magnitude) = magnitude / 2 ^ 52 := by
  rw [exponentField, toNat_pack h]
  split <;> omega

lemma significandField_pack (h : magnitude < 2 ^ 63) :
    significandField (pack negative magnitude) = magnitude % 2 ^ 52 := by
  rw [significandField, toNat_pack h]
  split <;> omega

end Pack

lemma significandField_lt : significandField d < 2 ^ 52 := mod_lt _ (by positivity)

/-- From `2 ^ 52` units of a binade on, doubles are multiples of its unit. -/
lemma dvd_scaled {d : Double} {k : ℕ} (h : 2 ^ 52 * 2 ^ k ≤ scaled d) : 2 ^ k ∣ scaled d := by
  have hlt := significandField_lt d
  unfold scaled at h ⊢
  by_cases h0 : exponentField d = 0
  · rw [if_pos h0] at h
    omega
  · rw [if_neg h0] at h ⊢
    have hlt' : 2 ^ 52 * 2 ^ k < 2 ^ 52 * 2 ^ (exponentField d - 1 + 1) := by
      calc 2 ^ 52 * 2 ^ k ≤ (2 ^ 52 + significandField d) * 2 ^ (exponentField d - 1) := h
        _ < (2 ^ 52 + 2 ^ 52) * 2 ^ (exponentField d - 1) :=
            Nat.mul_lt_mul_of_pos_right (by omega) (by positivity)
        _ = 2 ^ 52 * 2 ^ (exponentField d - 1 + 1) := by rw [pow_succ]; ring
    have hle : k < exponentField d - 1 + 1 :=
      (Nat.pow_lt_pow_iff_right (by norm_num)).mp (Nat.lt_of_mul_lt_mul_left hlt')
    exact Dvd.dvd.mul_left (pow_dvd_pow 2 (by omega)) _

/-! ## The pattern of an integer -/

/-- The significand of a number, with its leading bit, in units of its binade. -/
def roundedSignificand (n : ℕ) : ℕ :=
  if n.log2 ≤ 52 then n * 2 ^ (52 - n.log2) else roundDiv n (2 ^ (n.log2 - 52))

def rounded (n : ℕ) : ℕ :=
  if n.log2 ≤ 52 then n else roundedSignificand n * 2 ^ (n.log2 - 52)

/-- The bits of a number but the sign.  The leading bit of the significand counts towards the
exponent, and so does a significand that rounding has carried to the next power of two. -/
def magnitudeBits (n : ℕ) : ℕ :=
  if n = 0 then 0
  else if n.log2 > 1023 then 2047 * 2 ^ 52
  else (n.log2 + 1022) * 2 ^ 52 + roundedSignificand n

/-- The correctly rounded double of an integer. -/
def ofInt (i : ℤ) : Double := pack (decide (i < 0)) (magnitudeBits i.natAbs)

section OfInt

variable {n : ℕ}

lemma roundedSignificand_bounds (hn : n ≠ 0) : 2 ^ 52 ≤ roundedSignificand n ∧ roundedSignificand n ≤ 2 ^ 53 := by
  have hlow := log2_self_le hn
  have hhigh := lt_log2_self (n := n)
  unfold roundedSignificand
  split
  next h =>
    have hpow : 2 ^ n.log2 * 2 ^ (52 - n.log2) = 2 ^ 52 := by rw [← pow_add]; congr 1; omega
    constructor
    · rw [← hpow]
      exact mul_le_mul_right _ hlow
    · have := mul_le_mul_right (2 ^ (52 - n.log2)) hhigh.le
      rw [pow_succ, mul_right_comm, hpow] at this
      exact this
  next h =>
    have hpow : 2 ^ n.log2 = 2 ^ 52 * 2 ^ (n.log2 - 52) := by rw [← pow_add]; congr 1; omega
    constructor
    · apply le_trans _ (le_roundDiv _ _)
      rw [le_div_iff_mul_le (by positivity), ← hpow]
      exact hlow
    · apply le_trans (roundDiv_le _ _)
      apply succ_le_of_lt
      rw [div_lt_iff_lt_mul (by positivity), show 2 ^ 53 = 2 * 2 ^ 52 from rfl, mul_assoc, ← hpow, ← pow_succ']
      exact hhigh

lemma magnitudeBits_lt (n : ℕ) : magnitudeBits n < 2 ^ 63 := by
  unfold magnitudeBits
  split
  · norm_num
  next hn =>
    have := roundedSignificand_bounds hn
    split <;> omega

lemma isNegative_ofInt (i : ℤ) : isNegative (ofInt i) = decide (i < 0) := isNegative_pack (magnitudeBits_lt _)

lemma scaled_pack {negative : Bool} {e q : ℕ} (he : e ≤ 1023) (hlow : 2 ^ 52 ≤ q) (hhigh : q ≤ 2 ^ 53) :
    scaled (pack negative ((e + 1022) * 2 ^ 52 + q)) = q * 2 ^ (e + 1022) := by
  have hlt : (e + 1022) * 2 ^ 52 + q < 2 ^ 63 := by omega
  unfold scaled
  rw [exponentField_pack hlt, significandField_pack hlt]
  rcases Nat.lt_or_ge q (2 ^ 53) with h | h
  · have hexp : ((e + 1022) * 2 ^ 52 + q) / 2 ^ 52 = e + 1022 + 1 := by omega
    rw [hexp, if_neg (Nat.succ_ne_zero _), Nat.add_sub_cancel]
    congr 1
    omega
  · have hq : q = 2 ^ 53 := le_antisymm hhigh h
    have hexp : ((e + 1022) * 2 ^ 52 + q) / 2 ^ 52 = e + 1022 + 1 + 1 := by omega
    have hsig : ((e + 1022) * 2 ^ 52 + q) % 2 ^ 52 = 0 := by omega
    rw [hexp, hsig, if_neg (Nat.succ_ne_zero _), Nat.add_sub_cancel, hq]
    generalize e + 1022 = k
    ring

/-- The rounded number in units of `2 ^ (-1074)`. -/
lemma rounded_mul (n : ℕ) : rounded n * 2 ^ 1074 = roundedSignificand n * 2 ^ (n.log2 + 1022) := by
  unfold rounded
  split
  next h =>
    have hexp : 52 - n.log2 + (n.log2 + 1022) = 1074 := by omega
    rw [roundedSignificand, if_pos h, mul_assoc, ← pow_add, hexp]
  next h =>
    have hexp : n.log2 - 52 + 1074 = n.log2 + 1022 := by omega
    rw [mul_assoc, ← pow_add, hexp]

/-- Rounding reaches the next power of two only by a carry. -/
lemma rounded_lt_iff (hn : n ≠ 0) {c : ℕ} (hc : 53 < c) (he : n.log2 < c) :
    rounded n < 2 ^ c ↔ n.log2 + 1 < c ∨ roundedSignificand n < 2 ^ 53 := by
  obtain ⟨hlow, hhigh⟩ := roundedSignificand_bounds hn
  unfold rounded
  split
  next h =>
    have hlt : n < 2 ^ c := lt_of_lt_of_le Nat.lt_log2_self (Nat.pow_le_pow_right (by norm_num) (by omega))
    simp only [hlt, true_iff]
    exact .inl (by omega)
  next h =>
    have hpow : 2 ^ c = 2 ^ (c - n.log2 - 1) * 2 ^ 53 * 2 ^ (n.log2 - 52) := by
      rw [← pow_add, ← pow_add]
      congr 1
      omega
    rw [hpow, Nat.mul_lt_mul_right (by positivity)]
    rcases Nat.lt_or_ge (n.log2 + 1) c with hlt | hge
    · have htwo : 2 ^ 1 ≤ 2 ^ (c - n.log2 - 1) := Nat.pow_le_pow_right (by norm_num) (by omega)
      omega
    · have hzero : c - n.log2 - 1 = 0 := by omega
      simp [hzero, Nat.not_lt_of_le hge]

lemma two_pow_log2_le_rounded (hn : n ≠ 0) : 2 ^ n.log2 ≤ rounded n := by
  have hlow := (roundedSignificand_bounds hn).1
  unfold rounded
  split
  next => exact log2_self_le hn
  next h =>
    calc 2 ^ n.log2 = 2 ^ 52 * 2 ^ (n.log2 - 52) := by rw [← pow_add]; congr 1; omega
      _ ≤ roundedSignificand n * 2 ^ (n.log2 - 52) := mul_le_mul_right _ hlow

lemma log2_lt_of_rounded_lt (hn : n ≠ 0) {c : ℕ} (h : rounded n < 2 ^ c) : n.log2 < c :=
  (Nat.pow_lt_pow_iff_right (by norm_num)).mp (lt_of_le_of_lt (two_pow_log2_le_rounded hn) h)

/-- A number that rounds to `2 ^ 1024` or more is infinite. -/
theorem ofInt_overflow {i : ℤ} (h : 2 ^ 1024 ≤ rounded i.natAbs) :
    exponentField (ofInt i) = 2047 ∧ significandField (ofInt i) = 0 := by
  have hn : i.natAbs ≠ 0 := by
    intro h0
    have hpos : 0 < 2 ^ 1024 := by positivity
    rw [h0] at h
    cases lt_of_lt_of_le hpos h
  have hbits : magnitudeBits i.natAbs = 2047 * 2 ^ 52 := by
    unfold magnitudeBits
    rw [if_neg hn]
    split
    · rfl
    next he =>
      have hnot := (rounded_lt_iff hn (by norm_num) (by omega)).not.mp (Nat.not_lt_of_le h)
      obtain ⟨-, hhigh⟩ := roundedSignificand_bounds hn
      omega
  rw [ofInt, exponentField_pack (magnitudeBits_lt _), significandField_pack (magnitudeBits_lt _), hbits]
  exact ⟨rfl, rfl⟩

lemma ofInt_finite {i : ℤ} (h : rounded i.natAbs < 2 ^ 1024) :
    IsFinite (ofInt i) ∧ scaled (ofInt i) = rounded i.natAbs * 2 ^ 1074 := by
  have hlt := magnitudeBits_lt i.natAbs
  unfold IsFinite
  rw [ofInt, exponentField_pack hlt]
  by_cases hn : i.natAbs = 0
  · rw [hn, scaled, exponentField_pack (magnitudeBits_lt _), significandField_pack
      (magnitudeBits_lt _)]
    simp [magnitudeBits, rounded]
  · have he := log2_lt_of_rounded_lt hn h
    obtain ⟨hlow, hhigh⟩ := roundedSignificand_bounds hn
    have hcarry := (rounded_lt_iff hn (by norm_num) he).mp h
    unfold magnitudeBits
    rw [if_neg hn, if_neg (by omega), scaled_pack (by omega) hlow hhigh, rounded_mul]
    refine ⟨?_, rfl⟩
    omega

lemma significandField_ofInt_even {i : ℤ} (h : rounded i.natAbs < 2 ^ 1024)
    (heven : roundedSignificand i.natAbs % 2 = 0) : significandField (ofInt i) % 2 = 0 := by
  rw [ofInt, significandField_pack (magnitudeBits_lt _)]
  unfold magnitudeBits
  split
  · rfl
  next hn =>
    have he := log2_lt_of_rounded_lt hn h
    rw [if_neg (by omega)]
    omega

/-- No number of the kind that doubles denote is closer to `n` than `rounded n`, and if another one
is as close then the significand is even. -/
lemma rounded_nearest {s : ℕ} {z : ℤ} (hs : ∀ k, 2 ^ 52 * 2 ^ k ≤ s → 2 ^ k ∣ s) (hz : z = s ∨ z = -(s : ℤ)) :
    (((n * 2 ^ 1074 : ℕ) : ℤ) - (rounded n * 2 ^ 1074 : ℕ)).natAbs ≤ (((n * 2 ^ 1074 : ℕ) : ℤ) - z).natAbs ∧
    ((((n * 2 ^ 1074 : ℕ) : ℤ) - (rounded n * 2 ^ 1074 : ℕ)).natAbs =
      (((n * 2 ^ 1074 : ℕ) : ℤ) - z).natAbs → z ≠ (rounded n * 2 ^ 1074 : ℕ) →
      roundedSignificand n % 2 = 0) := by
  by_cases he : n.log2 ≤ 52
  · rw [rounded, if_pos he]
    constructor <;> omega
  have hn : n ≠ 0 := by
    rintro rfl
    simp at he
  rw [rounded, if_neg he, roundedSignificand, if_neg he]
  set d := 2 ^ (n.log2 - 52) with hd
  have hdpos : 0 < d := by positivity
  have hlow : d * 2 ^ 52 ≤ n := by
    rw [hd, ← pow_add, Nat.sub_add_cancel (by omega)]
    exact Nat.log2_self_le hn
  have hupos : 0 < 2 ^ 1074 := by positivity
  have hunit : ∀ m, 2 ^ 52 * (d * 2 ^ 1074) ≤ m → m = s → d * 2 ^ 1074 ∣ s := by
    rintro m hm rfl
    rw [hd, ← pow_add] at hm ⊢
    exact hs _ hm
  generalize 2 ^ 1074 = u at hupos hunit ⊢
  -- The distance of a multiple of `d` in units of `u`.
  have hscale : ∀ m : ℕ, (((n * u : ℕ) : ℤ) - (m * d * u : ℕ)).natAbs = ((n : ℤ) - d * m).natAbs * u := by
    intro m
    have hfactor : ((n * u : ℕ) : ℤ) - (m * d * u : ℕ) = ((n : ℤ) - d * m) * u := by
      push_cast
      ring
    rw [hfactor, Int.natAbs_mul, Int.natAbs_natCast]
  rw [hscale]
  rcases lt_or_ge z ((2 ^ 52 * (d * u) : ℕ) : ℤ) with hlt | hge
  · -- Everything below the binade of `n` is farther away than its first number.
    have hfirst := Nat.mul_le_mul_right u (roundDiv_nearest (n := n) hdpos (2 ^ 52))
    have hstrict : ((n : ℤ) - d * (2 ^ 52 : ℕ)).natAbs * u < (((n * u : ℕ) : ℤ) - z).natAbs := by
      rw [← hscale]
      have hle : 2 ^ 52 * (d * u) ≤ n * u := by
        calc 2 ^ 52 * (d * u) = d * 2 ^ 52 * u := by ring
          _ ≤ n * u := Nat.mul_le_mul_right _ hlow
      have hassoc : 2 ^ 52 * d * u = 2 ^ 52 * (d * u) := Nat.mul_assoc _ _ _
      omega
    have hcombined := lt_of_le_of_lt hfirst hstrict
    exact ⟨hcombined.le, fun h => absurd h hcombined.ne⟩
  · have hpos : 0 < 2 ^ 52 * (d * u) := by positivity
    have hzs : z = s := by
      rcases hz with rfl | rfl
      · rfl
      · generalize 2 ^ 52 * (d * u) = b at *
        omega
    rw [hzs] at hge
    obtain ⟨m, hm⟩ := hunit s (by exact_mod_cast hge) rfl
    have hzm : z = (m * d * u : ℕ) := by
      rw [hzs, hm]
      ring
    rw [hzm, hscale]
    refine ⟨Nat.mul_le_mul_right _ (roundDiv_nearest hdpos m), fun h hne => ?_⟩
    have hne' : m ≠ roundDiv n d := by
      rintro rfl
      exact hne rfl
    exact roundDiv_tie hdpos hne' (Nat.eq_of_mul_eq_mul_right hupos h)

lemma scaledInt_ofInt {i : ℤ} (h : rounded i.natAbs < 2 ^ 1024) :
    scaledInt (ofInt i) = if i < 0 then -((rounded i.natAbs * 2 ^ 1074 : ℕ) : ℤ)
      else (rounded i.natAbs * 2 ^ 1074 : ℕ) := by
  rw [scaledInt, isNegative_ofInt, (ofInt_finite h).2]
  by_cases hi : i < 0
  · rw [decide_eq_true hi, if_pos rfl, if_pos hi]
  · rw [decide_eq_false hi, if_neg (by decide), if_neg hi]

/-- A distance between an integer and a double, in units of `2 ^ (-1074)`. -/
lemma abs_sub_toRat (i : ℤ) (d : Double) :
    |(i : ℚ) - toRat d| = ((i * (2 ^ 1074 : ℕ) - scaledInt d).natAbs : ℚ) / (2 ^ 1074 : ℕ) := by
  have hcast : (2 : ℚ) ^ 1074 = ((2 ^ 1074 : ℕ) : ℚ) := (cast_pow 2 1074).symm
  have hpos : 0 < 2 ^ 1074 := by positivity
  unfold toRat
  rw [hcast]
  generalize 2 ^ 1074 = u at hpos ⊢
  have hu : (0 : ℚ) < u := by exact_mod_cast hpos
  rw [sub_div' hu.ne', abs_div, abs_of_pos hu, cast_natAbs]
  push_cast
  rfl

/-- **Correct rounding.**  Within the range the pattern of an integer denotes the integer rounded
to 53 bits.  No finite double is closer, and if another one is as close then the significand of
the pattern is even. -/
theorem ofInt_nearest {i : ℤ} (h : rounded i.natAbs < 2 ^ 1024) {d : Double} :
    |(i : ℚ) - toRat (ofInt i)| ≤ |(i : ℚ) - toRat d| ∧
    (|(i : ℚ) - toRat (ofInt i)| = |(i : ℚ) - toRat d| → toRat d ≠ toRat (ofInt i) →
      significandField (ofInt i) % 2 = 0) := by
  have hpos : (0 : ℚ) < (2 ^ 1074 : ℕ) := by exact_mod_cast Nat.two_pow_pos 1074
  have hd : scaledInt d = scaled d ∨ scaledInt d = -(scaled d : ℤ) := by
    unfold scaledInt
    split
    · exact .inr rfl
    · exact .inl rfl
  have hne : toRat d ≠ toRat (ofInt i) → scaledInt d ≠ scaledInt (ofInt i) := by
    intro hrat heq
    exact hrat (by rw [toRat, toRat, heq])
  -- Distances on the side of the positive numbers.
  obtain ⟨z, hz, hdist, hdist', hiff⟩ : ∃ z : ℤ, (z = scaled d ∨ z = -(scaled d : ℤ)) ∧
      (i * (2 ^ 1074 : ℕ) - scaledInt d).natAbs = (((i.natAbs * 2 ^ 1074 : ℕ) : ℤ) - z).natAbs ∧
      (i * (2 ^ 1074 : ℕ) - scaledInt (ofInt i)).natAbs =
        (((i.natAbs * 2 ^ 1074 : ℕ) : ℤ) - (rounded i.natAbs * 2 ^ 1074 : ℕ)).natAbs ∧
      (scaledInt d ≠ scaledInt (ofInt i) → z ≠ (rounded i.natAbs * 2 ^ 1074 : ℕ)) := by
    rw [scaledInt_ofInt h]
    rw [Nat.cast_mul]
    generalize ((2 ^ 1074 : ℕ) : ℤ) = u
    by_cases hneg : i < 0
    · have habs : i = -(i.natAbs : ℤ) := by omega
      have hmul : i * u = -((i.natAbs : ℤ) * u) := by
        conv_lhs => rw [habs]
        ring
      exact ⟨-scaledInt d, by omega, by omega, by omega, by omega⟩
    · have habs : (i.natAbs : ℤ) = i := by omega
      rw [if_neg hneg, habs]
      exact ⟨scaledInt d, hd, rfl, rfl, id⟩
  obtain ⟨hle, htie⟩ := rounded_nearest (n := i.natAbs) (s := scaled d)
    (fun k hk => dvd_scaled hk) hz
  rw [abs_sub_toRat, abs_sub_toRat, hdist, hdist', div_le_div_iff_of_pos_right hpos, div_left_inj' hpos.ne']
  refine ⟨by exact_mod_cast hle, fun heq hrat => ?_⟩
  exact significandField_ofInt_even h (htie (by exact_mod_cast heq) (hiff (hne hrat)))

end OfInt

end Binary64
