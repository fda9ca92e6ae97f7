import SpiderMonkey.Lib.Binary64

/-!
# Arithmetic on doubles

The operations of the language on doubles: the exact rational operation, followed by a rounding
where the result need not be a double.  Of the rounding only three things are used
(`Rounding`): it never makes a NaN, it is monotone, and it fixes what already is a double.
Rounding to nearest with ties to even, which the hardware does, is one such rounding
(`nearestEven`).

The patterns of the infinities read as `±2 ^ 1024` (`toRat`), one unit beyond the largest finite
double.  So `toRat` orders all the doubles that are not NaN, and a bound on `toRat` covers the
infinities as well.
-/

namespace Binary64

open Nat

/-! ## Special values -/

def IsNaN (d : Double) : Prop := exponentField d = 2047 ∧ significandField d ≠ 0

def IsInfinite (d : Double) : Prop := exponentField d = 2047 ∧ significandField d = 0

/-- The pattern of negative zero. -/
def IsNegativeZero (d : Double) : Prop := isNegative d = true ∧ toRat d = 0

instance (d : Double) : Decidable (IsNaN d) := inferInstanceAs (Decidable (_ ∧ _))

instance (d : Double) : Decidable (IsInfinite d) := inferInstanceAs (Decidable (_ ∧ _))

instance (d : Double) : Decidable (IsNegativeZero d) := inferInstanceAs (Decidable (_ ∧ _))

variable (negative : Bool)

/-- Zero with a sign. -/
def signedZero : Double := pack negative 0

/-- Infinity with a sign. -/
def infinity : Double := pack negative (2047 * 2 ^ 52)

def nan : Double := pack false (2047 * 2 ^ 52 + 2 ^ 51)

/-- The double with its sign bit set or cleared. -/
def withSign (d : Double) : Double := pack negative (d.toNat % 2 ^ 63)

def negate (d : Double) : Double := withSign (!isNegative d) d

section Values

variable {d : Double}

lemma isNaN_or_isInfinite_or_isFinite (d : Double) : IsNaN d ∨ IsInfinite d ∨ IsFinite d := by
  unfold IsNaN IsInfinite IsFinite
  tauto

lemma IsInfinite.not_isNaN (h : IsInfinite d) : ¬IsNaN d := fun h' => h'.2 h.2

lemma IsFinite.not_isNaN (h : IsFinite d) : ¬IsNaN d := fun h' => h h'.1

lemma exponentField_lt (d : Double) : exponentField d < 2 ^ 11 := mod_lt _ (by positivity)

lemma abs_toRat (d : Double) : |toRat d| = (scaled d : ℚ) / 2 ^ 1074 := by
  have hpos : (0 : ℚ) < 2 ^ 1074 := pow_pos two_pos _
  unfold toRat scaledInt
  rw [abs_div, abs_of_pos hpos]
  split
  · simp
  · simp

lemma toRat_of_nonneg (h : isNegative d = false) : toRat d = (scaled d : ℚ) / 2 ^ 1074 := by
  unfold toRat scaledInt
  simp [h]

lemma toRat_of_negative (h : isNegative d = true) : toRat d = -((scaled d : ℚ) / 2 ^ 1074) := by
  unfold toRat scaledInt
  rw [if_pos h]
  push_cast
  ring

lemma toRat_nonneg_of (h : isNegative d = false) : 0 ≤ toRat d := by
  rw [toRat_of_nonneg h]
  positivity

lemma toRat_nonpos_of (h : isNegative d = true) : toRat d ≤ 0 := by
  rw [toRat_of_negative h]
  have : (0 : ℚ) ≤ (scaled d : ℚ) / 2 ^ 1074 := by positivity
  linarith

lemma toRat_eq_zero_iff : toRat d = 0 ↔ scaled d = 0 := by
  have hpos : (2 : ℚ) ^ 1074 ≠ 0 := pow_ne_zero _ two_ne_zero
  rw [← abs_eq_zero, abs_toRat, div_eq_zero_iff, or_iff_left hpos, cast_eq_zero]

lemma IsInfinite.scaled_eq (h : IsInfinite d) : scaled d = 2 ^ 1024 * 2 ^ 1074 := by
  obtain ⟨hexp, hsig⟩ := h
  unfold scaled
  rw [hexp, hsig, if_neg (by norm_num), add_zero, ← pow_add, ← pow_add]

lemma IsInfinite.abs_toRat_eq (h : IsInfinite d) : |toRat d| = 2 ^ 1024 := by
  rw [abs_toRat, h.scaled_eq]
  push_cast
  simp

/-- The magnitude of a double with a given exponent field stays within its binade. -/
lemma scaled_lt_of_exponentField_le {k : ℕ} (h : exponentField d ≤ k + 1) : scaled d < 2 ^ 53 * 2 ^ k := by
  have hlt := significandField_lt d
  have hk : 0 < 2 ^ k := by positivity
  unfold scaled
  split
  next h0 =>
    omega
  next h0 =>
    calc (2 ^ 52 + significandField d) * 2 ^ (exponentField d - 1)
        < 2 ^ 53 * 2 ^ (exponentField d - 1) := Nat.mul_lt_mul_of_pos_right (by omega) (by positivity)
      _ ≤ 2 ^ 53 * 2 ^ k :=
          Nat.mul_le_mul_left _ (Nat.pow_le_pow_right (by norm_num) (by omega))

lemma IsFinite.scaled_lt (h : IsFinite d) : scaled d < 2 ^ 53 * 2 ^ 2045 := by
  have := exponentField_lt d
  unfold IsFinite at h
  exact scaled_lt_of_exponentField_le (by omega)

lemma IsFinite.abs_toRat_lt (h : IsFinite d) : |toRat d| < 2 ^ 1024 := by
  have hpos : (0 : ℚ) < 2 ^ 1074 := pow_pos two_pos _
  have hlt := h.scaled_lt
  have hpow : 2 ^ 53 * 2 ^ 2045 = 2 ^ 1024 * 2 ^ 1074 := by rw [← pow_add, ← pow_add]
  rw [hpow] at hlt
  rw [abs_toRat, div_lt_iff₀ hpos]
  exact_mod_cast hlt

/-- The finite doubles are those of magnitude less than `2 ^ 1024`. -/
lemma abs_toRat_lt_iff (h : ¬IsNaN d) : |toRat d| < 2 ^ 1024 ↔ IsFinite d := by
  rcases isNaN_or_isInfinite_or_isFinite d with hnan | hinf | hfin
  · exact absurd hnan h
  · rw [hinf.abs_toRat_eq]
    simp [hinf.1, IsFinite]
  · simp [hfin, hfin.abs_toRat_lt]

lemma abs_toRat_le (h : ¬IsNaN d) : |toRat d| ≤ 2 ^ 1024 := by
  rcases isNaN_or_isInfinite_or_isFinite d with hnan | hinf | hfin
  · exact absurd hnan h
  · exact hinf.abs_toRat_eq.le
  · exact hfin.abs_toRat_lt.le

end Values

/-! ## Values of patterns -/

lemma exponent_lt_of_mul_lt {a k c : ℕ} (h : a * 2 ^ k < a * 2 ^ c) : k < c :=
  (Nat.pow_lt_pow_iff_right Nat.one_lt_two).mp (Nat.lt_of_mul_lt_mul_left h)

section Pack

variable {negative : Bool} {k m : ℕ}

/-- A significand of at most 53 bits in units of a binade, with or without a carry. -/
lemma scaled_pack_add (hk : k = 0 ∨ 2 ^ 52 ≤ m) (hm : m ≤ 2 ^ 53)
    (hlt : k * 2 ^ 52 + m < 2 ^ 63) : scaled (pack negative (k * 2 ^ 52 + m)) = m * 2 ^ k := by
  unfold scaled
  rw [exponentField_pack hlt, significandField_pack hlt]
  rcases Nat.lt_or_ge m (2 ^ 52) with h | h
  · obtain rfl : k = 0 := by omega
    have hexp : (0 * 2 ^ 52 + m) / 2 ^ 52 = 0 := by omega
    rw [hexp, if_pos rfl]
    omega
  rcases Nat.lt_or_ge m (2 ^ 53) with h' | h'
  · have hexp : (k * 2 ^ 52 + m) / 2 ^ 52 = k + 1 := by omega
    rw [hexp, if_neg (Nat.succ_ne_zero _), Nat.add_sub_cancel]
    congr 1
    omega
  · obtain rfl : m = 2 ^ 53 := le_antisymm hm h'
    have hexp : (k * 2 ^ 52 + 2 ^ 53) / 2 ^ 52 = k + 1 + 1 := by omega
    have hsig : (k * 2 ^ 52 + 2 ^ 53) % 2 ^ 52 = 0 := by omega
    rw [hexp, hsig, if_neg (Nat.succ_ne_zero _), Nat.add_sub_cancel]
    ring

lemma isFinite_pack (hlt : m < 2047 * 2 ^ 52) : IsFinite (pack negative m) := by
  unfold IsFinite
  rw [exponentField_pack (by omega)]
  omega

lemma scaled_pack_mono {negative' : Bool} {m' : ℕ} (h : m ≤ m') (hm' : m' < 2 ^ 63) :
    scaled (pack negative m) ≤ scaled (pack negative' m') := by
  have hm : m < 2 ^ 63 := lt_of_le_of_lt h hm'
  have hlt : m % 2 ^ 52 < 2 ^ 52 := Nat.mod_lt _ (by positivity)
  have hlt' : m' % 2 ^ 52 < 2 ^ 52 := Nat.mod_lt _ (by positivity)
  have hsplit := Nat.div_add_mod m (2 ^ 52)
  have hsplit' := Nat.div_add_mod m' (2 ^ 52)
  unfold scaled
  rw [exponentField_pack hm, significandField_pack hm, exponentField_pack hm', significandField_pack hm']
  generalize m / 2 ^ 52 = e at *
  generalize m % 2 ^ 52 = f at *
  generalize m' / 2 ^ 52 = e' at *
  generalize m' % 2 ^ 52 = f' at *
  rcases Nat.lt_trichotomy e e' with he | rfl | he
  · rw [if_neg (show e' ≠ 0 by omega)]
    calc (if e = 0 then f else (2 ^ 52 + f) * 2 ^ (e - 1)) ≤ 2 ^ 52 * 2 ^ e := by
          split
          next h0 => rw [h0]; omega
          next h0 =>
            have hpow : 2 ^ e = 2 * 2 ^ (e - 1) := by rw [← pow_succ']; congr 1; omega
            rw [hpow, ← Nat.mul_assoc]
            exact Nat.mul_le_mul_right _ (by omega)
      _ ≤ 2 ^ 52 * 2 ^ (e' - 1) :=
          Nat.mul_le_mul_left _ (Nat.pow_le_pow_right (by norm_num) (by omega))
      _ ≤ (2 ^ 52 + f') * 2 ^ (e' - 1) := Nat.mul_le_mul_right _ (by omega)
  · have hf : f ≤ f' := by omega
    split
    · exact hf
    · exact Nat.mul_le_mul_right _ (by omega)
  · omega

end Pack

lemma isInfinite_infinity : IsInfinite (infinity negative) := by
  unfold IsInfinite infinity
  rw [exponentField_pack (by norm_num), significandField_pack (by norm_num)]
  simp

lemma isNegative_infinity : isNegative (infinity negative) = negative := isNegative_pack (by norm_num)

lemma isNaN_nan : IsNaN nan := by decide

lemma toNat_mod_eq_fields (d : Double) : d.toNat % 2 ^ 63 = exponentField d * 2 ^ 52 + significandField d := by
  unfold exponentField significandField
  omega

section WithSign

variable {d : Double} {negative : Bool}

lemma toNat_mod_lt (d : Double) : d.toNat % 2 ^ 63 < 2 ^ 63 := mod_lt _ (by positivity)

lemma exponentField_withSign : exponentField (withSign negative d) = exponentField d := by
  have := significandField_lt d
  rw [withSign, exponentField_pack (toNat_mod_lt d), toNat_mod_eq_fields]
  omega

lemma significandField_withSign : significandField (withSign negative d) = significandField d := by
  have := significandField_lt d
  rw [withSign, significandField_pack (toNat_mod_lt d), toNat_mod_eq_fields]
  omega

lemma isNegative_withSign : isNegative (withSign negative d) = negative := isNegative_pack (toNat_mod_lt d)

lemma scaled_withSign : scaled (withSign negative d) = scaled d := by
  unfold scaled
  rw [exponentField_withSign, significandField_withSign]

lemma toRat_withSign_false : toRat (withSign false d) = |toRat d| := by
  rw [toRat_of_nonneg isNegative_withSign, abs_toRat, scaled_withSign]

lemma toRat_withSign_true : toRat (withSign true d) = -|toRat d| := by
  rw [toRat_of_negative isNegative_withSign, abs_toRat, scaled_withSign]

lemma toRat_negate : toRat (negate d) = -toRat d := by
  unfold negate
  cases h : isNegative d with
  | true =>
    simp [toRat_withSign_false, abs_of_nonpos (toRat_nonpos_of h)]
  | false =>
    simp [toRat_withSign_true, abs_of_nonneg (toRat_nonneg_of h)]

end WithSign

/-! ## Representable values -/

/-- The rationals that finite doubles denote. -/
def Representable (x : ℚ) : Prop := ∃ d, IsFinite d ∧ toRat d = x

namespace Representable

lemma neg {x : ℚ} (h : Representable x) : Representable (-x) := by
  obtain ⟨d, hd, rfl⟩ := h
  refine ⟨negate d, ?_, toRat_negate⟩
  unfold IsFinite negate at *
  rwa [exponentField_withSign]

/-- A significand of at most 53 bits in units of a binade. -/
lemma of_mul {k m : ℕ} (hm : m ≤ 2 ^ 53) (hlt : m * 2 ^ k < 2 ^ 53 * 2 ^ 2045) :
    Representable ((m * 2 ^ k : ℕ) / 2 ^ 1074) := by
  induction k generalizing m with
  | zero =>
    refine ⟨pack false (0 * 2 ^ 52 + m), isFinite_pack (by omega), ?_⟩
    rw [toRat_of_nonneg (isNegative_pack (by omega)), scaled_pack_add (.inl rfl) hm (by omega)]
  | succ k ih =>
    rcases lt_or_ge m (2 ^ 52) with h | h
    · have hmul : m * 2 ^ (k + 1) = 2 * m * 2 ^ k := by ring
      rw [hmul] at hlt ⊢
      exact ih (by omega) hlt
    · have hbits : (k + 1) * 2 ^ 52 + m < 2047 * 2 ^ 52 := by
        rcases lt_or_ge m (2 ^ 53) with h' | h'
        · have hpow : 2 ^ 52 * 2 ^ (k + 1) < 2 ^ 52 * 2 ^ 2046 := by
            calc 2 ^ 52 * 2 ^ (k + 1) ≤ m * 2 ^ (k + 1) := mul_le_mul_right _ h
              _ < 2 ^ 53 * 2 ^ 2045 := hlt
              _ = 2 ^ 52 * 2 ^ 2046 := (pow_add 2 53 2045).symm.trans (pow_add 2 52 2046)
          have := exponent_lt_of_mul_lt hpow
          omega
        · obtain rfl : m = 2 ^ 53 := le_antisymm hm h'
          have := exponent_lt_of_mul_lt hlt
          omega
      refine ⟨pack false ((k + 1) * 2 ^ 52 + m), isFinite_pack hbits, ?_⟩
      rw [toRat_of_nonneg (isNegative_pack (by omega)), scaled_pack_add (.inr h) hm (by omega)]

end Representable

/-! ## Roundings -/

/-- A rounding of rationals to doubles: monotone, and the identity on what is a double. -/
structure Rounding where
  round : ℚ → Double
  not_isNaN : ∀ q, ¬IsNaN (round q)
  monotone : ∀ p q, p ≤ q → toRat (round p) ≤ toRat (round q)
  fixes : ∀ d, IsFinite d → toRat (round (toRat d)) = toRat d

namespace Rounding

variable (R : Rounding) {x q : ℚ}

lemma round_representable (h : Representable x) : toRat (R.round x) = x := by
  obtain ⟨d, hd, rfl⟩ := h
  exact R.fixes d hd

lemma le_round (hx : Representable x) (h : x ≤ q) : x ≤ toRat (R.round q) := by
  have := R.monotone x q h
  rwa [R.round_representable hx] at this

lemma round_le (hx : Representable x) (h : q ≤ x) : toRat (R.round q) ≤ x := by
  have := R.monotone q x h
  rwa [R.round_representable hx] at this

lemma abs_round_le (hx : Representable x) (h : |q| ≤ x) : |toRat (R.round q)| ≤ x := by
  rw [abs_le] at h ⊢
  exact ⟨R.le_round hx.neg h.1, R.round_le hx h.2⟩

end Rounding

/-- The magnitude bits of a rational rounded to nearest, ties to even: the binade comes from the
integral part in units of `2 ^ (-1074)`, the significand is what is left of the number there.  A
significand that rounding carries to `2 ^ 53` makes the first pattern of the next binade, and the
first pattern past the largest finite one is the infinity. -/
def nearestEvenBits (q : ℚ) : ℕ :=
  let binade := (q.num.natAbs * 2 ^ 1074 / q.den).log2 - 52
  min (binade * 2 ^ 52 + roundDiv (q.num.natAbs * 2 ^ 1074) (q.den * 2 ^ binade)) (2047 * 2 ^ 52)

section NearestEven

variable {n d n' d' : ℕ}

lemma roundDiv_le_roundDiv (hd : 0 < d) (hd' : 0 < d') (h : n * d' ≤ n' * d) : roundDiv n d ≤ roundDiv n' d' := by
  have hq : n / d ≤ n' / d' := by
    rw [le_div_iff_mul_le hd']
    apply le_of_mul_le_mul_right _ hd
    calc n / d * d' * d = n / d * d * d' := by ring
      _ ≤ n * d' := mul_le_mul_right _ (div_mul_le_self n d)
      _ ≤ n' * d := h
  rcases lt_or_eq_of_le hq with hlt | heq
  · exact (roundDiv_le n d).trans (hlt.trans_le (le_roundDiv n' d'))
  -- With equal integral parts the fractional parts are ordered.
  have hmod : n % d * d' ≤ n' % d' * d := by
    have hn := congrArg (· * d') (div_add_mod n d)
    have hn' := congrArg (· * d) (div_add_mod n' d')
    simp only [add_mul] at hn hn'
    rw [← heq] at hn'
    have hcomm : d * (n / d) * d' = d' * (n / d) * d := by ring
    omega
  have hup : d < 2 * (n % d) → d' < 2 * (n' % d') := by
    intro hlt
    by_contra hle
    nlinarith
  have htie : 2 * (n % d) = d → d' ≤ 2 * (n' % d') := by
    intro htie
    by_contra hle
    nlinarith
  unfold roundDiv
  rw [← heq]
  split
  next hc =>
    have hc' : 2 * (n' % d') > d' ∨ 2 * (n' % d') = d' ∧ n / d % 2 = 1 := by
      rcases hc with hlt | ⟨heq', hodd⟩
      · exact .inl (hup hlt)
      · rcases lt_or_eq_of_le (htie heq') with hlt | heq''
        · exact .inl hlt
        · exact .inr ⟨heq''.symm, hodd⟩
    rw [if_pos hc']
  next =>
    split <;> omega

/-- The significand of a fraction in the binade of its integral part. -/
lemma roundDiv_binade (k : ℕ) (hk : k = (n / d).log2 - 52) :
    (k = 0 ∨ 2 ^ 52 ≤ roundDiv n (d * 2 ^ k)) ∧ roundDiv n (d * 2 ^ k) ≤ 2 ^ 53 := by
  have hquot : n / (d * 2 ^ k) = n / d / 2 ^ k := (Nat.div_div_eq_div_mul n d _).symm
  have hhigh : n / d < 2 ^ 53 * 2 ^ k := by
    calc n / d < 2 ^ ((n / d).log2 + 1) := Nat.lt_log2_self
      _ ≤ 2 ^ 53 * 2 ^ k := by
          rw [← pow_add]
          exact Nat.pow_le_pow_right (by norm_num) (by omega)
  constructor
  · by_cases h0 : (n / d).log2 ≤ 52
    · omega
    · right
      apply le_trans _ (le_roundDiv _ _)
      have hne : n / d ≠ 0 := by
        intro hzero
        rw [hzero] at h0
        exact h0 (by decide)
      rw [hquot, Nat.le_div_iff_mul_le (by positivity), ← pow_add]
      calc 2 ^ (52 + k) = 2 ^ (n / d).log2 := by congr 1; omega
        _ ≤ n / d := Nat.log2_self_le hne
  · apply le_trans (roundDiv_le _ _)
    apply Nat.succ_le_of_lt
    rw [hquot, Nat.div_lt_iff_lt_mul (by positivity)]
    exact hhigh

lemma num_mul_den_le {p q : ℚ} (h : |p| ≤ |q|) : p.num.natAbs * 2 ^ 1074 * q.den ≤ q.num.natAbs * 2 ^ 1074 * p.den := by
  rw [← Rat.num_div_den p, ← Rat.num_div_den q, abs_div, abs_div, Nat.abs_cast, Nat.abs_cast,
    div_le_div_iff₀ (by exact_mod_cast p.pos) (by exact_mod_cast q.pos)] at h
  have hnat : p.num.natAbs * q.den ≤ q.num.natAbs * p.den := by
    rw [← Int.cast_abs, ← Int.cast_abs, Int.abs_eq_natAbs, Int.abs_eq_natAbs] at h
    exact_mod_cast h
  calc p.num.natAbs * 2 ^ 1074 * q.den = p.num.natAbs * q.den * 2 ^ 1074 := by ring
    _ ≤ q.num.natAbs * p.den * 2 ^ 1074 := Nat.mul_le_mul_right _ hnat
    _ = q.num.natAbs * 2 ^ 1074 * p.den := by ring

lemma nearestEvenBits_mono {p q : ℚ} (h : |p| ≤ |q|) : nearestEvenBits p ≤ nearestEvenBits q := by
  have hle := num_mul_den_le h
  have hp := p.pos
  have hq := q.pos
  unfold nearestEvenBits
  simp only
  generalize p.num.natAbs * 2 ^ 1074 = n at *
  generalize q.num.natAbs * 2 ^ 1074 = n' at *
  generalize p.den = d at *
  generalize q.den = d' at *
  apply min_le_min_right
  have hquot : n / d ≤ n' / d' := by
    rw [Nat.le_div_iff_mul_le hq]
    apply Nat.le_of_mul_le_mul_right _ hp
    calc n / d * d' * d = n / d * d * d' := by ring
      _ ≤ n * d' := Nat.mul_le_mul_right _ (Nat.div_mul_le_self n d)
      _ ≤ n' * d := hle
  have hlog : (n / d).log2 ≤ (n' / d').log2 := by
    rw [Nat.log2_eq_log_two, Nat.log2_eq_log_two]
    exact Nat.log_mono_right hquot
  obtain ⟨-, hhigh⟩ := roundDiv_binade (n := n) (d := d) _ rfl
  obtain ⟨hlow, -⟩ := roundDiv_binade (n := n') (d := d') _ rfl
  generalize hk : (n / d).log2 - 52 = k at *
  generalize hk' : (n' / d').log2 - 52 = k' at *
  rcases Nat.lt_or_eq_of_le (show k ≤ k' by omega) with hlt | rfl
  · omega
  · apply Nat.add_le_add_left
    apply roundDiv_le_roundDiv (by positivity) (by positivity)
    calc n * (d' * 2 ^ k) = n * d' * 2 ^ k := by ring
      _ ≤ n' * d * 2 ^ k := Nat.mul_le_mul_right _ hle
      _ = n' * (d * 2 ^ k) := by ring

lemma nearestEvenBits_le (q : ℚ) : nearestEvenBits q ≤ 2047 * 2 ^ 52 := min_le_right _ _

end NearestEven

/-- The double nearest to a rational, the even one if there are two. -/
def nearestEven (q : ℚ) : Double := pack (decide (q < 0)) (nearestEvenBits q)

lemma nearestEven_not_isNaN (q : ℚ) : ¬IsNaN (nearestEven q) := by
  have hle := nearestEvenBits_le q
  have hlt : nearestEvenBits q < 2 ^ 63 := by omega
  unfold IsNaN nearestEven
  rw [exponentField_pack hlt, significandField_pack hlt]
  omega

lemma nearestEven_monotone (p q : ℚ) (h : p ≤ q) : toRat (nearestEven p) ≤ toRat (nearestEven q) := by
  have hneg : ∀ x : ℚ, isNegative (nearestEven x) = decide (x < 0) := fun x =>
    isNegative_pack (by have := nearestEvenBits_le x; omega)
  have hscaled : ∀ x y : ℚ, |x| ≤ |y| →
      (scaled (nearestEven x) : ℚ) / 2 ^ 1074 ≤ (scaled (nearestEven y) : ℚ) / 2 ^ 1074 := by
    intro x y hxy
    apply div_le_div_of_nonneg_right _ (pow_pos two_pos _).le
    exact_mod_cast scaled_pack_mono (nearestEvenBits_mono hxy)
      (by have := nearestEvenBits_le y; omega)
  by_cases hp : p < 0
  · by_cases hq : q < 0
    · rw [toRat_of_negative ((hneg p).trans (decide_eq_true hp)),
        toRat_of_negative ((hneg q).trans (decide_eq_true hq))]
      apply neg_le_neg
      apply hscaled
      rw [abs_of_neg hp, abs_of_neg hq]
      exact neg_le_neg h
    · exact (toRat_nonpos_of ((hneg p).trans (decide_eq_true hp))).trans
        (toRat_nonneg_of ((hneg q).trans (decide_eq_false hq)))
  · have hq : ¬q < 0 := fun hq => hp (h.trans_lt hq)
    rw [toRat_of_nonneg ((hneg p).trans (decide_eq_false hp)), toRat_of_nonneg ((hneg q).trans (decide_eq_false hq))]
    apply hscaled
    rw [abs_of_nonneg (not_lt.mp hp), abs_of_nonneg (not_lt.mp hq)]
    exact h

lemma num_toRat (d : Double) : (toRat d).num.natAbs * 2 ^ 1074 = scaled d * (toRat d).den := by
  have hpos : (2 : ℚ) ^ 1074 ≠ 0 := pow_ne_zero _ two_ne_zero
  have hden : ((toRat d).den : ℚ) ≠ 0 := by exact_mod_cast (toRat d).den_nz
  have habs := abs_toRat d
  rw [← Rat.num_div_den (toRat d), abs_div, Nat.abs_cast, ← Int.cast_abs, Int.abs_eq_natAbs,
    div_eq_div_iff hden hpos] at habs
  exact_mod_cast habs

lemma nearestEven_fixes (d : Double) (hd : IsFinite d) : toRat (nearestEven (toRat d)) = toRat d := by
  have hden := (toRat d).pos
  have hlt := hd.scaled_lt
  set s := scaled d with hs
  set k := s.log2 - 52 with hk
  have hquot : s * (toRat d).den / (toRat d).den = s := Nat.mul_div_cancel _ hden
  have hdvd : 2 ^ k ∣ s := by
    by_cases h0 : s.log2 ≤ 52
    · rw [hk, Nat.sub_eq_zero_of_le h0, pow_zero]
      exact one_dvd s
    · apply dvd_scaled
      have hne : s ≠ 0 := by
        intro hzero
        rw [hzero] at h0
        exact h0 (by decide)
      calc 2 ^ 52 * 2 ^ k = 2 ^ s.log2 := by rw [← pow_add]; congr 1; omega
        _ ≤ s := Nat.log2_self_le hne
  obtain ⟨m, hm⟩ := hdvd
  have hround : roundDiv (s * (toRat d).den) ((toRat d).den * 2 ^ k) = m := by
    have hexact : s * (toRat d).den = m * ((toRat d).den * 2 ^ k) := by
      conv_lhs => rw [hm]
      ring
    have hpos : 0 < (toRat d).den * 2 ^ k := by positivity
    unfold roundDiv
    rw [hexact, Nat.mul_mod_left, Nat.mul_div_cancel _ hpos, if_neg (by omega)]
  obtain ⟨hlow, hhigh⟩ := roundDiv_binade (n := s * (toRat d).den) (d := (toRat d).den) k (by rw [hquot])
  rw [hround] at hlow hhigh
  have hkle : k = 0 ∨ k < 2046 := by
    rcases hlow with h0 | hlow
    · exact .inl h0
    · right
      have hpow : 2 ^ 52 * 2 ^ k < 2 ^ 52 * 2 ^ 2046 := by
        calc 2 ^ 52 * 2 ^ k ≤ m * 2 ^ k := Nat.mul_le_mul_right _ hlow
          _ = s := by rw [hm, Nat.mul_comm]
          _ < 2 ^ 53 * 2 ^ 2045 := hlt
          _ = 2 ^ 52 * 2 ^ 2046 := (pow_add 2 53 2045).symm.trans (pow_add 2 52 2046)
      exact exponent_lt_of_mul_lt hpow
  have hbits : nearestEvenBits (toRat d) = k * 2 ^ 52 + m := by
    unfold nearestEvenBits
    simp only
    rw [num_toRat, ← hs, hquot, ← hk, hround]
    exact min_eq_left (by omega)
  have hneg : isNegative (nearestEven (toRat d)) = decide (toRat d < 0) :=
    isNegative_pack (by have := nearestEvenBits_le (toRat d); omega)
  have hscaled : scaled (nearestEven (toRat d)) = s := by
    rw [nearestEven, hbits, scaled_pack_add hlow hhigh (by omega), hm, Nat.mul_comm]
  have habs : |toRat (nearestEven (toRat d))| = |toRat d| := by
    rw [abs_toRat, abs_toRat, hscaled]
  by_cases h : toRat d < 0
  · rw [abs_of_neg h, abs_of_nonpos (toRat_nonpos_of (hneg.trans (decide_eq_true h)))] at habs
    exact neg_injective habs
  · rwa [abs_of_nonneg (not_lt.mp h), abs_of_nonneg (toRat_nonneg_of (hneg.trans (decide_eq_false h)))] at habs

/-- Rounding to nearest, ties to even. -/
def Rounding.nearestEven : Rounding where
  round := Binary64.nearestEven
  not_isNaN := nearestEven_not_isNaN
  monotone := nearestEven_monotone
  fixes := nearestEven_fixes

/-! ## Bounds that are doubles -/

lemma representable_intCast {k : ℤ} (h : |k| ≤ 2 ^ 53) : Representable k := by
  have hnat : k.natAbs ≤ 2 ^ 53 := by
    rw [Int.abs_eq_natAbs] at h
    exact_mod_cast h
  have hlt : k.natAbs * 2 ^ 1074 < 2 ^ 53 * 2 ^ 2045 :=
    Nat.mul_lt_mul_of_le_of_lt hnat (Nat.pow_lt_pow_right Nat.one_lt_two (by norm_num))
      (Nat.two_pow_pos 53)
  have hrep := Representable.of_mul hnat hlt
  have hpos : (2 : ℚ) ^ 1074 ≠ 0 := pow_ne_zero _ two_ne_zero
  rw [Nat.cast_mul, Nat.cast_pow, Nat.cast_ofNat, mul_div_assoc, div_self hpos, mul_one] at hrep
  rcases Int.natAbs_eq k with hk | hk
  · rw [hk, Int.cast_natCast]
    exact hrep
  · rw [hk, Int.cast_neg, Int.cast_natCast]
    exact hrep.neg

lemma toRat_ofInt {k : ℤ} (h : k.natAbs < 2 ^ 53) : IsFinite (ofInt k) ∧ toRat (ofInt k) = k := by
  have hrounded : rounded k.natAbs = k.natAbs := by
    unfold rounded
    rw [if_pos]
    by_cases h0 : k.natAbs = 0
    · rw [h0]
      decide
    · exact Nat.le_of_lt_succ ((Nat.log2_lt h0).mpr h)
  have hlt : rounded k.natAbs < 2 ^ 1024 := by
    omega
  have hpos : (2 : ℚ) ^ 1074 ≠ 0 := pow_ne_zero _ two_ne_zero
  obtain ⟨hfin, hscaled⟩ := ofInt_finite hlt
  refine ⟨hfin, ?_⟩
  by_cases hk : k < 0
  · rw [toRat_of_negative ((isNegative_ofInt k).trans (decide_eq_true hk)), hscaled, hrounded,
      Nat.cast_mul, Nat.cast_pow, Nat.cast_ofNat, mul_div_assoc, div_self hpos, mul_one,
      Nat.cast_natAbs, abs_of_neg hk, Int.cast_neg, neg_neg]
  · rw [toRat_of_nonneg ((isNegative_ofInt k).trans (decide_eq_false hk)), hscaled, hrounded,
      Nat.cast_mul, Nat.cast_pow, Nat.cast_ofNat, mul_div_assoc, div_self hpos, mul_one,
      Nat.cast_natAbs, abs_of_nonneg (not_lt.mp hk)]

/-- The largest double below `2 ^ (e + 1)`. -/
def below (e : ℕ) : ℚ := 2 ^ (e + 1) * (1 - 1 / 2 ^ 53)

lemma below_lt (e : ℕ) : below e < 2 ^ (e + 1) := by
  have hpos : (0 : ℚ) < 2 ^ (e + 1) := pow_pos two_pos _
  unfold below
  linarith

lemma below_mono {e e' : ℕ} (h : e ≤ e') : below e ≤ below e' := by
  have hpow : (2 : ℚ) ^ (e + 1) ≤ 2 ^ (e' + 1) := pow_le_pow_right₀ one_le_two (succ_le_succ h)
  unfold below
  linarith

lemma below_eq (e : ℕ) : below e = ((2 ^ 53 - 1) * 2 ^ (e + 1022) : ℕ) / 2 ^ 1074 := by
  have hpos : (2 : ℚ) ^ 1021 ≠ 0 := pow_ne_zero _ two_ne_zero
  have hpow : (2 : ℚ) ^ (e + 1022) = 2 ^ (e + 1) * 2 ^ 1021 := by rw [← pow_add]
  have hpow' : (2 : ℚ) ^ 1074 = 2 ^ 53 * 2 ^ 1021 := (pow_add 2 53 1021)
  unfold below
  rw [hpow', cast_mul, cast_pow, cast_ofNat, hpow, ← mul_assoc, mul_div_mul_right _ _ hpos]
  ring

lemma sub_one_mul_lt {a k c : ℕ} (ha : 0 < a) (hk : k ≤ c) : (a - 1) * 2 ^ k < a * 2 ^ c :=
  calc (a - 1) * 2 ^ k < a * 2 ^ k :=
        Nat.mul_lt_mul_of_pos_right (Nat.sub_one_lt ha.ne') (Nat.two_pow_pos k)
    _ ≤ a * 2 ^ c := Nat.mul_le_mul_left a (Nat.pow_le_pow_right Nat.two_pos hk)

lemma representable_below {e : ℕ} (h : e ≤ 1023) : Representable (below e) := by
  rw [below_eq]
  exact Representable.of_mul (by norm_num) (sub_one_mul_lt (by norm_num) (by omega))

lemma abs_toRat_le_below {d : Double} {e : ℕ} (h : |toRat d| < 2 ^ (e + 1)) : |toRat d| ≤ below e := by
  have hpos : (0 : ℚ) < 2 ^ 1074 := pow_pos two_pos _
  rw [abs_toRat, div_lt_iff₀ hpos, ← pow_add] at h
  have hlt : scaled d < 2 ^ (e + 1 + 1074) := by exact_mod_cast h
  have hexp : e + 1 + 1074 = 53 + (e + 1022) := by omega
  have hpow : 2 ^ (e + 1 + 1074) = 2 ^ 53 * 2 ^ (e + 1022) := by rw [hexp, pow_add]
  rw [abs_toRat, below_eq, div_le_div_iff_of_pos_right hpos, Nat.cast_le]
  rw [hpow] at hlt
  rcases Nat.lt_or_ge (scaled d) (2 ^ 52 * 2 ^ (e + 1022)) with hlow | hhigh
  · exact hlow.le.trans (Nat.mul_le_mul_right _ (by norm_num))
  · obtain ⟨m, hm⟩ := dvd_scaled hhigh
    rw [hm, Nat.mul_comm] at hlt ⊢
    have := Nat.lt_of_mul_lt_mul_right hlt
    exact Nat.mul_le_mul_right _ (by omega)

lemma exists_int_of_le {d : Double} (h : 2 ^ 53 ≤ |toRat d|) : ∃ k : ℤ, toRat d = k := by
  have hpos : (0 : ℚ) < 2 ^ 1074 := pow_pos two_pos _
  rw [abs_toRat, le_div_iff₀ hpos] at h
  have hle : 2 ^ 53 * 2 ^ 1074 ≤ scaled d := by exact_mod_cast h
  obtain ⟨m, hm⟩ := dvd_scaled (d := d) (k := 1074)
    ((Nat.mul_le_mul_right _ (by norm_num)).trans hle)
  have hval : (scaled d : ℚ) / 2 ^ 1074 = m := by
    rw [hm, Nat.cast_mul, Nat.cast_pow, Nat.cast_ofNat, mul_comm, mul_div_assoc, div_self hpos.ne', mul_one]
  cases hneg : isNegative d with
  | true => exact ⟨-m, by rw [toRat_of_negative hneg, hval]; push_cast; ring⟩
  | false => exact ⟨m, by rw [toRat_of_nonneg hneg, hval, Int.cast_natCast]⟩

namespace Rounding

variable (R : Rounding)

lemma exists_int_round (k : ℤ) : ∃ j : ℤ, toRat (R.round k) = j := by
  by_cases hk : |k| ≤ 2 ^ 53
  · exact ⟨k, R.round_representable (representable_intCast hk)⟩
  · apply exists_int_of_le
    have hrep : Representable ((2 ^ 53 : ℤ) : ℚ) := representable_intCast (by norm_num)
    rcases le_or_gt 0 k with h0 | h0
    · rw [abs_of_nonneg h0, not_le] at hk
      have hle : ((2 ^ 53 : ℤ) : ℚ) ≤ k := by exact_mod_cast hk.le
      apply le_trans _ (le_abs_self _)
      exact_mod_cast R.le_round hrep hle
    · rw [abs_of_neg h0, not_le] at hk
      have hle : (k : ℚ) ≤ -((2 ^ 53 : ℤ) : ℚ) := by
        exact_mod_cast (show k ≤ -(2 ^ 53) by omega)
      apply le_trans _ (neg_le_abs _)
      have := R.round_le hrep.neg hle
      push_cast at this
      linarith

end Rounding

/-! ## The operations -/

namespace Rounding

variable (R : Rounding)

def add (v w : Double) : Double :=
  if IsNaN v ∨ IsNaN w then nan
  else if IsInfinite v then if IsInfinite w ∧ isNegative v ≠ isNegative w then nan else v
  else if IsInfinite w then w
  else if toRat v + toRat w = 0 then signedZero (isNegative v && isNegative w)
  else R.round (toRat v + toRat w)

def sub (v w : Double) : Double := R.add v (negate w)

/-- A product has the sign of its factors, also when it is rounded to zero. -/
def mul (v w : Double) : Double :=
  let negative := isNegative v != isNegative w
  if IsNaN v ∨ IsNaN w then nan
  else if IsInfinite v ∨ IsInfinite w then
    if toRat v = 0 ∨ toRat w = 0 then nan else infinity negative
  else withSign negative (R.round (toRat v * toRat w))

end Rounding

variable (v : Double)

section Operations

variable {v w : Double}

lemma isFinite_of_not (hn : ¬IsNaN v) (hi : ¬IsInfinite v) : IsFinite v := by
  rcases isNaN_or_isInfinite_or_isFinite v with h | h | h
  · exact absurd h hn
  · exact absurd h hi
  · exact h

lemma toRat_infinity : toRat (infinity negative) = if negative then -2 ^ 1024 else 2 ^ 1024 := by
  have habs := (isInfinite_infinity negative).abs_toRat_eq
  have hneg := isNegative_infinity negative
  cases negative with
  | true =>
    rw [abs_of_nonpos (toRat_nonpos_of hneg)] at habs
    simp [← habs]
  | false =>
    rw [abs_of_nonneg (toRat_nonneg_of hneg)] at habs
    simp [habs]

lemma IsNegativeZero.toRat_eq (h : IsNegativeZero v) : toRat v = 0 := h.2

namespace Rounding

variable (R : Rounding)

/-! ### Addition -/

section

variable (hv : IsFinite v)

include hv

end

end Rounding

end Operations

end Binary64
