import SpiderMonkey.Jit.RangeRound

/-!
# Ranges between two doubles

What `setDouble` guarantees: no assertion fails, and the range holds all the doubles between the
bounds, where NaN as a bound is no bound at all and lets NaN pass.
-/

namespace SpiderMonkey

open Binary64 Checked

namespace Range

open Int

variable {l h v : Double}

/-! ## The specification of `setDouble` -/

/-- The value lies within the bounds, where NaN is no bound and lets NaN pass. -/
structure Within (l h v : Double) : Prop where
  nan : IsNaN v → IsNaN l ∨ IsNaN h
  lower : ¬IsNaN v → ¬IsNaN l → toRat l ≤ toRat v
  upper : ¬IsNaN v → ¬IsNaN h → toRat v ≤ toRat h

lemma lt_two_pow_exponentImplied (hl : ¬IsNaN l) : |toRat l| < 2 ^ (ExponentImpliedByDouble l + 1) := by
  unfold ExponentImpliedByDouble
  rw [if_neg hl]
  split
  next hinf =>
    rw [hinf.abs_toRat_eq]
    exact pow_lt_pow_right₀ one_lt_two (by decide)
  next =>
    have hpos : (0 : ℚ) < 2 ^ 1074 := pow_pos two_pos _
    have hlt := scaled_lt_of_exponentField_le (d := l)
      (k := exponentField l - MaxFiniteExponent + 1022) (by unfold MaxFiniteExponent; omega)
    rw [← pow_add] at hlt
    have hexp : 53 + (exponentField l - MaxFiniteExponent + 1022) =
        exponentField l - MaxFiniteExponent + 1 + 1074 := by omega
    rw [hexp] at hlt
    rw [abs_toRat, div_lt_iff₀ hpos, ← pow_add]
    exact_mod_cast hlt

lemma two_pow_le_of_exponentImplied (hl : ¬IsNaN l)
    (he : MaxTruncatableExponent ≤ ExponentImpliedByDouble l) : 2 ^ 52 ≤ |toRat l| := by
  unfold ExponentImpliedByDouble at he
  rw [if_neg hl] at he
  split at he
  next hinf =>
    rw [hinf.abs_toRat_eq]
    exact pow_le_pow_right₀ one_le_two (by norm_num)
  next =>
    have hpos : (0 : ℚ) < 2 ^ 1074 := pow_pos two_pos _
    unfold MaxTruncatableExponent MaxFiniteExponent at he
    have hle : 2 ^ 52 * 2 ^ 1074 ≤ scaled l := by
      unfold scaled
      rw [if_neg (by omega)]
      exact Nat.mul_le_mul (Nat.le_add_right _ _) (Nat.pow_le_pow_right Nat.two_pos (by omega))
    rw [abs_toRat, le_div_iff₀ hpos]
    exact_mod_cast hle

/-- From `2 ^ 52` on doubles have no fractional parts. -/
lemma exists_int_of_two_pow_le (hv : 2 ^ 52 ≤ |toRat v|) : ∃ k : ℤ, toRat v = k := by
  have hpos : (0 : ℚ) < 2 ^ 1074 := pow_pos two_pos _
  rw [abs_toRat, le_div_iff₀ hpos] at hv
  obtain ⟨m, hm⟩ := dvd_scaled (d := v) (k := 1074) (by exact_mod_cast hv)
  have hval : (scaled v : ℚ) / 2 ^ 1074 = m := by
    rw [hm]
    push_cast
    simp
  cases hneg : isNegative v with
  | true => exact ⟨-m, by rw [toRat_of_negative hneg, hval]; push_cast; rfl⟩
  | false => exact ⟨m, by rw [toRat_of_nonneg hneg, hval]; push_cast; rfl⟩

lemma exponentImplied_cases (d : Double) : ExponentImpliedByDouble d ≤ MaxFiniteExponent ∨
    ExponentImpliedByDouble d = IncludesInfinity ∨
    ExponentImpliedByDouble d = IncludesInfinityAndNaN := by
  have hlt := exponentField_lt d
  unfold ExponentImpliedByDouble
  split
  next => exact .inr (.inr rfl)
  next hn =>
    split
    next => exact .inr (.inl rfl)
    next hi =>
      have hfin : exponentField d ≠ 2047 := isFinite_of_not hn hi
      left
      unfold MaxFiniteExponent
      omega

lemma exponentImplied_nan (hl : IsNaN l) : ExponentImpliedByDouble l = IncludesInfinityAndNaN := if_pos hl

lemma isFinite_of_exponentImplied (h : ExponentImpliedByDouble l ≤ MaxFiniteExponent) : ¬IsNaN l := by
  intro hn
  rw [exponentImplied_nan hn] at h
  exact absurd h (by decide)

/-- The bound `lower_` and the flag `hasInt32LowerBound_` for a double. -/
def doubleLower (l : Double) : BitVec 32 × Bool :=
  if geInt l INT32_MIN && leInt l INT32_MAX then (BitVec.ofInt 32 ⌊toRat l⌋, true)
  else if geInt l INT32_MAX then (BitVec.ofInt 32 INT32_MAX, true)
  else (BitVec.ofInt 32 INT32_MIN, false)

/-- The bound `upper_` and the flag `hasInt32UpperBound_` for a double. -/
def doubleUpper (h : Double) : BitVec 32 × Bool :=
  if geInt h INT32_MIN && leInt h INT32_MAX then (BitVec.ofInt 32 ⌈toRat h⌉, true)
  else if leInt h INT32_MIN then (BitVec.ofInt 32 INT32_MIN, true)
  else (BitVec.ofInt 32 INT32_MAX, false)

/-- Whether the bounds are on different sides of zero. -/
def crossesZero (l h : Double) : Bool :=
  (decide (IsNaN l) || ltInt l 0) && (decide (IsNaN h) || gtInt h 0)

/-- The fields that `setDouble` infers. -/
def doubleFields (l h : Double) : Range where
  lower := (doubleLower l).1
  upper := (doubleUpper h).1
  hasInt32LowerBound := (doubleLower l).2
  hasInt32UpperBound := (doubleUpper h).2
  canHaveFractionalPart := crossesZero l h ||
    decide (Min.min (ExponentImpliedByDouble l) (ExponentImpliedByDouble h) < MaxTruncatableExponent)
  canBeNegativeZero := !gtInt l 0 && !ltInt h 0
  maxExponent := Max.max (ExponentImpliedByDouble l) (ExponentImpliedByDouble h)

lemma setDouble_eq (l h : Double) : setDouble l h = (do
    ensure (¬(¬IsNaN l ∧ ¬IsNaN h ∧ toRat l > toRat h))
    Range.optimize (doubleFields l h)) := rfl

/-- The bounds of int32 are far below the powers of the exponents of larger doubles. -/
lemma toInt_ofInt_floor (hlow : (INT32_MIN : ℚ) ≤ toRat l) (hhigh : toRat l ≤ INT32_MAX) :
    (BitVec.ofInt 32 ⌊toRat l⌋).toInt = ⌊toRat l⌋ :=
  toInt_ofInt (le_floor.mpr hlow) (floor_le_iff.mpr (by linarith))

lemma toInt_ofInt_ceil (hlow : (INT32_MIN : ℚ) ≤ toRat h) (hhigh : toRat h ≤ INT32_MAX) :
    (BitVec.ofInt 32 ⌈toRat h⌉).toInt = ⌈toRat h⌉ :=
  toInt_ofInt (le_ceil_iff.mpr (by linarith)) (ceil_le.mpr hhigh)

/-- The three cases of a lower bound. -/
lemma doubleLower_cases (l : Double) :
    (¬IsNaN l ∧ (INT32_MIN : ℚ) ≤ toRat l ∧ toRat l ≤ INT32_MAX ∧ (doubleLower l).2 = true ∧
      (doubleLower l).1.toInt = ⌊toRat l⌋) ∨
    (¬IsNaN l ∧ (INT32_MAX : ℚ) < toRat l ∧ (doubleLower l).2 = true ∧ (doubleLower l).1.toInt = INT32_MAX) ∨
    ((IsNaN l ∨ toRat l < INT32_MIN) ∧ (doubleLower l).2 = false ∧ (doubleLower l).1.toInt = INT32_MIN) := by
  have hle : INT32_MIN ≤ INT32_MAX := by decide
  have hle' : (INT32_MIN : ℚ) ≤ INT32_MAX := by exact_mod_cast hle
  unfold doubleLower
  by_cases hn : IsNaN l
  · simp [geInt, hn, toInt_ofInt le_rfl hle]
  · by_cases hlow : (INT32_MIN : ℚ) ≤ toRat l
    · by_cases hhigh : toRat l ≤ INT32_MAX
      · simp [geInt, leInt, hn, hlow, hhigh, toInt_ofInt_floor hlow hhigh]
      · have hlt := not_le.mp hhigh
        simp [geInt, leInt, hn, hlow, hhigh, hlt.le, hlt, toInt_ofInt hle le_rfl]
    · have hmax : ¬(INT32_MAX : ℚ) ≤ toRat l := fun h => hlow (hle'.trans h)
      simp [geInt, hn, hlow, hmax, not_le.mp hlow, toInt_ofInt le_rfl hle]

lemma doubleUpper_cases (h : Double) :
    (¬IsNaN h ∧ (INT32_MIN : ℚ) ≤ toRat h ∧ toRat h ≤ INT32_MAX ∧ (doubleUpper h).2 = true ∧
      (doubleUpper h).1.toInt = ⌈toRat h⌉) ∨
    (¬IsNaN h ∧ toRat h < INT32_MIN ∧ (doubleUpper h).2 = true ∧ (doubleUpper h).1.toInt = INT32_MIN) ∨
    ((IsNaN h ∨ (INT32_MAX : ℚ) < toRat h) ∧ (doubleUpper h).2 = false ∧ (doubleUpper h).1.toInt = INT32_MAX) := by
  have hle : INT32_MIN ≤ INT32_MAX := by decide
  have hle' : (INT32_MIN : ℚ) ≤ INT32_MAX := by exact_mod_cast hle
  unfold doubleUpper
  by_cases hn : IsNaN h
  · simp [leInt, hn, toInt_ofInt hle le_rfl]
  · by_cases hhigh : toRat h ≤ INT32_MAX
    · by_cases hlow : (INT32_MIN : ℚ) ≤ toRat h
      · simp [geInt, leInt, hn, hlow, hhigh, toInt_ofInt_ceil hlow hhigh]
      · have hlt := not_le.mp hlow
        simp [geInt, leInt, hn, hlow, hlt.le, hlt, toInt_ofInt le_rfl hle]
    · have hmin : ¬toRat h ≤ INT32_MIN := fun h' => hhigh (h'.trans hle')
      simp [leInt, hn, hhigh, hmin, not_le.mp hhigh, toInt_ofInt hle le_rfl]

lemma gtInt_iff {k : ℤ} : gtInt v k = true ↔ ¬IsNaN v ∧ (k : ℚ) < toRat v := by
  unfold gtInt
  simp

lemma ltInt_iff {k : ℤ} : ltInt v k = true ↔ ¬IsNaN v ∧ toRat v < k := by
  unfold ltInt
  simp

/-- A bound is an integer power away from the exponent. -/
lemma abs_le_two_pow_exponent {e : ℕ} (hl : ¬IsNaN l) (he : ExponentImpliedByDouble l ≤ e) :
    |toRat l| ≤ ((2 ^ (e + 1) : ℤ) : ℚ) := by
  have hmono : (2 : ℚ) ^ (ExponentImpliedByDouble l + 1) ≤ 2 ^ (e + 1) := pow_le_pow_right₀ one_le_two (by omega)
  push_cast
  exact (lt_two_pow_exponentImplied hl).le.trans hmono

lemma natAbs_le_of_abs_le {z : ℤ} {n : ℕ} (hz : |z| ≤ 2 ^ n) : z.natAbs ≤ 2 ^ n := by
  linarith

/-- What the fractional flag being clear says of the bounds. -/
lemma large_of_not_fractional (h : (doubleFields l v).canHaveFractionalPart = false) :
    (IsNaN l ∨ 2 ^ 52 ≤ |toRat l|) ∧ (IsNaN v ∨ 2 ^ 52 ≤ |toRat v|) ∧
      ((¬IsNaN l ∧ 0 ≤ toRat l) ∨ (¬IsNaN v ∧ toRat v ≤ 0)) := by
  simp only [doubleFields, crossesZero, Bool.or_eq_false_iff, Bool.and_eq_false_iff, decide_eq_false_iff_not] at h
  simp only [← Bool.not_eq_true, ltInt_iff, gtInt_iff, cast_zero] at h
  obtain ⟨hcross, hexp⟩ := h
  refine ⟨or_iff_not_imp_left.mpr fun hn => two_pow_le_of_exponentImplied hn (by omega),
    or_iff_not_imp_left.mpr fun hn => two_pow_le_of_exponentImplied hn (by omega), ?_⟩
  rcases hcross with ⟨hn, hlt⟩ | ⟨hn, hlt⟩
  · exact .inl ⟨hn, not_lt.mp fun h => hlt ⟨hn, h⟩⟩
  · exact .inr ⟨hn, not_lt.mp fun h => hlt ⟨hn, h⟩⟩

/-- A large bound has a large exponent. -/
lemma le_exponentImplied {k : ℕ} (hk : k ≤ IncludesInfinityAndNaN)
    (h : IsNaN l ∨ 2 ^ k ≤ |toRat l|) : k ≤ ExponentImpliedByDouble l := by
  by_cases hn : IsNaN l
  · rwa [exponentImplied_nan hn]
  · have hlt := (h.resolve_left hn).trans_lt (lt_two_pow_exponentImplied hn)
    have := (pow_lt_pow_iff_right₀ one_lt_two).mp hlt
    omega

lemma natAbs_le_of_two_pow {x : BitVec 32} {e : ℕ} (he : 30 ≤ e) : x.toInt.natAbs ≤ 2 ^ (e + 1) := by
  have hpow : 2 ^ 31 ≤ 2 ^ (e + 1) := Nat.pow_le_pow_right Nat.two_pos (by omega)
  exact (natAbs_le_of_abs_le (abs_toInt_le x)).trans hpow

lemma abs_of_lt_INT32_MIN {q : ℚ} (h : q < INT32_MIN) : 2 ^ 31 ≤ |q| := by
  unfold INT32_MIN at h
  push_cast at h
  have := neg_abs_le q
  linarith

lemma abs_of_INT32_MAX_lt {q : ℚ} (h : (INT32_MAX : ℚ) < q) : 2 ^ 30 ≤ |q| := by
  unfold INT32_MAX at h
  push_cast at h
  have := le_abs_self q
  linarith

lemma natAbs_doubleLower_le {e : ℕ} (he : ExponentImpliedByDouble l ≤ e) :
    (doubleLower l).1.toInt.natAbs ≤ 2 ^ (e + 1) := by
  rcases doubleLower_cases l with ⟨hn, -, -, -, heq⟩ | ⟨-, hmax, -⟩ | ⟨hmin, -⟩
  · rw [heq]
    exact natAbs_le_of_abs_le (abs_floor_le _ _ (abs_le_two_pow_exponent hn he))
  · have := le_exponentImplied (by decide) (.inr (abs_of_INT32_MAX_lt hmax))
    exact natAbs_le_of_two_pow (by omega)
  · have := le_exponentImplied (k := 31) (by decide) (hmin.imp_right abs_of_lt_INT32_MIN)
    exact natAbs_le_of_two_pow (by omega)

lemma natAbs_doubleUpper_le {e : ℕ} (he : ExponentImpliedByDouble h ≤ e) :
    (doubleUpper h).1.toInt.natAbs ≤ 2 ^ (e + 1) := by
  rcases doubleUpper_cases h with ⟨hn, -, -, -, heq⟩ | ⟨-, hmin, -⟩ | ⟨hmax, -⟩
  · rw [heq]
    exact natAbs_le_of_abs_le (abs_ceil_le _ _ (abs_le_two_pow_exponent hn he))
  · have := le_exponentImplied (by decide) (.inr (abs_of_lt_INT32_MIN hmin))
    exact natAbs_le_of_two_pow (by omega)
  · have := le_exponentImplied (k := 30) (by decide) (hmax.imp_right abs_of_INT32_MAX_lt)
    exact natAbs_le_of_two_pow (by omega)

section

variable (hle : ¬IsNaN l → ¬IsNaN h → toRat l ≤ toRat h)

include hle

/-- Equal bounds on both sides are an integer, which is the only value between them. -/
lemma eq_of_doubleBounds_eq (hl : (doubleLower l).2 = true) (hh : (doubleUpper h).2 = true)
    (heq : (doubleLower l).1.toInt = (doubleUpper h).1.toInt) :
    ¬IsNaN l ∧ toRat l = (doubleLower l).1.toInt := by
  have hmin : (INT32_MIN : ℚ) ≤ INT32_MAX := by exact_mod_cast (by decide : INT32_MIN ≤ INT32_MAX)
  rcases doubleLower_cases l with ⟨hn, hlow, -, -, hl'⟩ | ⟨hn, hmax, -⟩ | ⟨-, hl', -⟩
  · rcases doubleUpper_cases h with ⟨hn', -, -, -, hh'⟩ | ⟨hn', hmin', -⟩ | ⟨-, hh', -⟩
    · refine ⟨hn, le_antisymm ?_ ?_⟩
      · rw [heq, hh']
        exact (hle hn hn').trans (le_ceil _)
      · rw [hl']
        exact floor_le _
    · linarith [hle hn hn']
    · simp [hh'] at hh
  · rcases doubleUpper_cases h with ⟨hn', -, hmax', -⟩ | ⟨hn', hmin', -⟩ | ⟨-, hh', -⟩
    · linarith [hle hn hn']
    · linarith [hle hn hn']
    · simp [hh'] at hh
  · simp [hl'] at hl

lemma doubleLower_le_doubleUpper : (doubleLower l).1.toInt ≤ (doubleUpper h).1.toInt := by
  have hmin := INT32_MIN_le (doubleUpper h).1
  have hmax := le_INT32_MAX (doubleLower l).1
  rcases doubleLower_cases l with ⟨hn, hlow, -, -, hl⟩ | ⟨hn, hlow, -⟩ | ⟨-, -, hl⟩
  · rcases doubleUpper_cases h with ⟨hn', -, -, -, hh⟩ | ⟨hn', hup, -⟩ | ⟨-, -, hh⟩
    · rw [hl, hh]
      exact floor_le_ceil _ |>.trans (ceil_mono (hle hn hn'))
    · linarith [hle hn hn']
    · rwa [hh]
  · rcases doubleUpper_cases h with ⟨hn', -, hup, -⟩ | ⟨hn', hup, -⟩ | ⟨-, -, hh⟩
    · linarith [hle hn hn']
    · have : (INT32_MIN : ℚ) ≤ INT32_MAX := by exact_mod_cast (by decide : INT32_MIN ≤ INT32_MAX)
      linarith [hle hn hn']
    · rwa [hh]
  · rwa [hl]

lemma tight_doubleFields : (doubleFields l h).Tight := by
  have hl : ExponentImpliedByDouble l ≤ (doubleFields l h).maxExponent := le_max_left _ _
  have hh : ExponentImpliedByDouble h ≤ (doubleFields l h).maxExponent := le_max_right _ _
  -- Without fractional parts one bound, and with it the exponent, is large.
  have hlarge : (doubleFields l h).canHaveFractionalPart = false → 52 ≤ (doubleFields l h).maxExponent := by
    intro hf
    exact (le_exponentImplied (by decide) (large_of_not_fractional hf).1).trans hl
  have hpow : ∀ {k}, k ≤ (doubleFields l h).maxExponent →
      2 ^ (k + 1) ≤ 2 ^ ((doubleFields l h).maxExponent + 1) := fun hk =>
    Nat.pow_le_pow_right Nat.two_pos (by omega)
  have hlower := natAbs_doubleLower_le hl
  have hupper := natAbs_doubleUpper_le hh
  refine ⟨doubleLower_le_doubleUpper hle, fun hb => ?_, fun hb => ?_, ?_, fun hb => ?_, hlower, hupper, ?_⟩
  · rcases doubleLower_cases l with ⟨-, -, -, hl', -⟩ | ⟨-, -, hl', -⟩ | ⟨-, -, hl'⟩
    · cases hb.symm.trans hl'
    · cases hb.symm.trans hl'
    · exact hl'
  · rcases doubleUpper_cases h with ⟨-, -, -, hh', -⟩ | ⟨-, -, hh', -⟩ | ⟨-, -, hh'⟩
    · cases hb.symm.trans hh'
    · cases hb.symm.trans hh'
    · exact hh'
  · show Max.max _ _ ≤ _ ∨ Max.max _ _ = _ ∨ Max.max _ _ = _
    rcases max_choice (ExponentImpliedByDouble l) (ExponentImpliedByDouble h) with hmax | hmax
    · rw [hmax]
      exact exponentImplied_cases l
    · rw [hmax]
      exact exponentImplied_cases h
  · have h30 : 30 ≤ (doubleFields l h).maxExponent := by
      rcases hb with hb | hb
      · rcases doubleLower_cases l with ⟨-, -, -, hl', -⟩ | ⟨-, -, hl', -⟩ | ⟨hmin, -⟩
        · cases hb.symm.trans hl'
        · cases hb.symm.trans hl'
        · have := le_exponentImplied (k := 31) (by decide) (hmin.imp_right abs_of_lt_INT32_MIN)
          omega
      · rcases doubleUpper_cases h with ⟨-, -, -, hh', -⟩ | ⟨-, -, hh', -⟩ | ⟨hmax, -⟩
        · cases hb.symm.trans hh'
        · cases hb.symm.trans hh'
        · have := le_exponentImplied (k := 30) (by decide) (hmax.imp_right abs_of_INT32_MAX_lt)
          omega
    exact ⟨hpow h30, fun hf => hpow (by have := hlarge hf; omega)⟩
  · rintro (hf | ⟨hl', hh', heq⟩)
    · have h53 := hpow (hlarge hf)
      have hlt := (by norm_num : 2 ^ 31 < 2 ^ (52 + 1)).trans_le h53
      exact ⟨(natAbs_le_of_abs_le (abs_toInt_le _)).trans_lt hlt, (natAbs_le_of_abs_le (abs_toInt_le _)).trans_lt hlt⟩
    · obtain ⟨hn, hval⟩ := eq_of_doubleBounds_eq hle hl' hh' heq
      have hlt := lt_two_pow_exponentImplied hn
      have hlt' : (doubleLower l).1.toInt.natAbs < 2 ^ (ExponentImpliedByDouble l + 1) := by
        rw [hval, ← cast_abs, abs_eq_natAbs] at hlt
        exact_mod_cast hlt
      have hlt'' := hlt'.trans_le (hpow hl)
      exact ⟨hlt'', by rw [← heq]; exact hlt''⟩

end

lemma covers_doubleFields (hw : Within l h v) (hn : ¬IsNaN v) : (doubleFields l h).Covers (toRat v) := by
  refine ⟨fun hb => ?_, fun hb => ?_, fun hf => ?_, fun he => ?_⟩
  · show ((doubleLower l).1.toInt : ℚ) ≤ _
    rcases doubleLower_cases l with ⟨hl, -, -, -, heq⟩ | ⟨hl, hmax, -, heq⟩ | ⟨-, hl, -⟩
    · rw [heq]
      exact (floor_le _).trans (hw.lower hn hl)
    · rw [heq]
      exact hmax.le.trans (hw.lower hn hl)
    · cases hb.symm.trans hl
  · show _ ≤ ((doubleUpper h).1.toInt : ℚ)
    rcases doubleUpper_cases h with ⟨hh, -, -, -, heq⟩ | ⟨hh, hmin, -, heq⟩ | ⟨-, hh, -⟩
    · rw [heq]
      exact (hw.upper hn hh).trans (le_ceil _)
    · rw [heq]
      exact (hw.upper hn hh).trans hmin.le
    · cases hb.symm.trans hh
  · obtain ⟨hl, hh, hside⟩ := large_of_not_fractional hf
    apply exists_int_of_two_pow_le
    rcases hside with ⟨hn', hpos⟩ | ⟨hn', hneg⟩
    · have hle := hl.resolve_left hn'
      rw [abs_of_nonneg hpos] at hle
      exact (hle.trans (hw.lower hn hn')).trans (le_abs_self _)
    · have hle := hh.resolve_left hn'
      rw [abs_of_nonpos hneg] at hle
      exact (hle.trans (neg_le_neg (hw.upper hn hn'))).trans (neg_le_abs _)
  · have hl : ExponentImpliedByDouble l ≤ (doubleFields l h).maxExponent := le_max_left _ _
    have hh : ExponentImpliedByDouble h ≤ (doubleFields l h).maxExponent := le_max_right _ _
    have hnl := isFinite_of_exponentImplied (hl.trans he)
    have hnh := isFinite_of_exponentImplied (hh.trans he)
    have hpow : ∀ {k}, k ≤ (doubleFields l h).maxExponent →
        (2 : ℚ) ^ (k + 1) ≤ 2 ^ ((doubleFields l h).maxExponent + 1) := fun hk =>
      pow_le_pow_right₀ one_le_two (by omega)
    have hltl := (lt_two_pow_exponentImplied hnl).trans_le (hpow hl)
    have hlth := (lt_two_pow_exponentImplied hnh).trans_le (hpow hh)
    apply abs_toRat_le_below
    rw [abs_lt] at *
    exact ⟨hltl.1.trans_le (hw.lower hn hnl), (hw.upper hn hnh).trans_lt hlth.2⟩

/-- **`setDouble` contains all doubles between its bounds**, where NaN as a bound is no bound and
contains NaN. -/
theorem returns_setDouble (hle : ¬IsNaN l → ¬IsNaN h → toRat l ≤ toRat h) :
    Returns (setDouble l h) fun r => r.Consistent ∧ ∀ v, Within l h v → r.Describes v := by
  rw [setDouble_eq]
  have hassert : ¬(¬IsNaN l ∧ ¬IsNaN h ∧ toRat l > toRat h) := fun ⟨hl, hh, hgt⟩ =>
    absurd (hle hl hh) (not_le.mpr hgt)
  apply (Returns.ensure hassert).bind
  intro _ _
  apply (returns_optimize (tight_doubleFields hle)).imp
  rintro r ⟨hr, hdesc⟩
  refine ⟨hr, fun v hw => hdesc v (fun hn => ?_) fun hn => ⟨covers_doubleFields hw hn, fun hz => ?_⟩⟩
  · rcases hw.nan hn with hl | hh
    · constructor
      · show Max.max _ _ = _
        have := exponentImplied_cases h
        rw [exponentImplied_nan hl]
        unfold IncludesInfinityAndNaN IncludesInfinity MaxFiniteExponent at *
        omega
      · have : (doubleLower l).2 = false := by simp [doubleLower, geInt, hl]
        show (_ && _) = false
        simp [show (doubleFields l h).hasInt32LowerBound = false from this]
    · constructor
      · show Max.max _ _ = _
        have := exponentImplied_cases l
        rw [exponentImplied_nan hh]
        unfold IncludesInfinityAndNaN IncludesInfinity MaxFiniteExponent at *
        omega
      · have : (doubleUpper h).2 = false := by simp [doubleUpper, geInt, leInt, hh]
        show (_ && _) = false
        simp [show (doubleFields l h).hasInt32UpperBound = false from this]
  · have hlow : gtInt l 0 = false := by
      rw [← Bool.not_eq_true, gtInt_iff, cast_zero]
      rintro ⟨hl, hpos⟩
      have := hw.lower hn hl
      rw [hz.toRat_eq] at this
      linarith
    have hup : ltInt h 0 = false := by
      rw [← Bool.not_eq_true, ltInt_iff, cast_zero]
      rintro ⟨hh, hneg⟩
      have := hw.upper hn hh
      rw [hz.toRat_eq] at this
      linarith
    show (!gtInt l 0 && !ltInt h 0) = true
    rw [hlow, hup]
    rfl

end Range

end SpiderMonkey
