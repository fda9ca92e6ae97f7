import SpiderMonkey.BigInt.Basic
import SpiderMonkey.BigInt.Digit

/-!
# BigInts and 64-bit words

The bit length of a BigInt, and the conversions from and to 64-bit integers.  `toUint64` and
`toInt64` wrap; `createFromUint64` and `createFromInt64` are exact.
-/

namespace SpiderMonkey

open Radix

namespace BigInt

open BitVec

variable {W : DigitWidth} {T : Prop} {x : BigInt W}

/-! ## Bit length -/

/-- The number of bits of the magnitude of a nonzero BigInt, from its most significant digit. -/
def bitLength (x : BigInt W) : ℕ :=
  let msd := x.digit (x.digitLength - 1)
  let msdBits := W.bits - digitLeadingZeroes msd
  msdBits + (x.digitLength - 1) * W.bits

lemma exists_msd (h : x.digits ≠ []) :
    ∃ low : List (Digit W), x.digits = low ++ [x.digit (x.digitLength - 1)] ∧ low.length = x.digitLength - 1 := by
  obtain ⟨low, d, hd⟩ : ∃ low d, x.digits = low ++ [d] := ⟨_, _, (List.dropLast_append_getLast h).symm⟩
  have hdigit : x.digit (x.digitLength - 1) = d := by simp [digit, digitLength, hd]
  exact ⟨low, by rw [hdigit, hd], by simp [digitLength, hd]⟩

lemma WellFormed.msd_ne_zero (hx : x.WellFormed) (h : x.digits ≠ []) : x.digit (x.digitLength - 1) ≠ 0#_ := by
  obtain ⟨low, hlow, -⟩ := exists_msd h
  have := hx.noHighZero
  rw [hlow, noHighZero_concat] at this
  exact this

lemma WellFormed.bitLength_spec (hx : x.WellFormed) (h : x.digits ≠ []) :
    0 < bitLength x ∧ 2 ^ (bitLength x - 1) ≤ x.mag ∧ x.mag < 2 ^ bitLength x := by
  obtain ⟨low, hlow, hlen⟩ := exists_msd h
  have hne := hx.msd_ne_zero h
  have hlz := digitLeadingZeroes_lt hne
  obtain ⟨hlo, hhi⟩ := digitLeadingZeroes_spec hne
  have hval : x.mag = val low + (2 ^ W.bits) ^ low.length * (x.digit (x.digitLength - 1)).toNat := by
    rw [mag, ← val_concat, ← hlow]
  have hlt := val_lt low
  unfold bitLength
  rw [hlen] at hval hlt
  set msd := x.digit (x.digitLength - 1)
  set k := x.digitLength - 1
  have hB : (2 ^ W.bits) ^ k = 2 ^ (k * W.bits) := by rw [← pow_mul, Nat.mul_comm]
  simp only
  refine ⟨by omega, ?_, ?_⟩
  · calc 2 ^ (W.bits - digitLeadingZeroes msd + k * W.bits - 1)
        = (2 ^ W.bits) ^ k * 2 ^ (W.bits - digitLeadingZeroes msd - 1) := by
          rw [hB, ← pow_add]; congr 1; omega
      _ ≤ (2 ^ W.bits) ^ k * msd.toNat := Nat.mul_le_mul_left _ hlo
      _ ≤ x.mag := by rw [hval]; exact Nat.le_add_left _ _
  · calc x.mag < (2 ^ W.bits) ^ k * (msd.toNat + 1) := by rw [hval, Nat.mul_add]; omega
      _ ≤ (2 ^ W.bits) ^ k * 2 ^ (W.bits - digitLeadingZeroes msd) := Nat.mul_le_mul_left _ hhi
      _ = 2 ^ (W.bits - digitLeadingZeroes msd + k * W.bits) := by
          rw [hB, ← pow_add, Nat.add_comm]

lemma bitLength_le (h : x.digits ≠ []) : x.bitLength ≤ W.bits * x.digitLength := by
  have hpos := List.length_pos_iff.mpr h
  change 0 < x.digitLength at hpos
  obtain ⟨n, hn⟩ : ∃ n, x.digitLength = n + 1 := ⟨x.digitLength - 1, by omega⟩
  unfold bitLength
  rw [hn, Nat.add_sub_cancel, Nat.mul_add, Nat.mul_one, Nat.mul_comm n]
  simp only
  omega

lemma WellFormed.bitLength_eq (hx : x.WellFormed) (h : x.digits ≠ []) :
    x.digitLength * W.bits - digitLeadingZeroes (x.digit (x.digitLength - 1)) = x.bitLength := by
  have hlt := digitLeadingZeroes_lt (hx.msd_ne_zero h)
  have hpos : 0 < x.digitLength := List.length_pos_iff.mpr h
  obtain ⟨n, hn⟩ : ∃ n, x.digitLength = n + 1 := ⟨x.digitLength - 1, by omega⟩
  unfold bitLength
  rw [hn] at hlt ⊢
  rw [Nat.add_sub_cancel] at hlt ⊢
  rw [Nat.add_mul, Nat.one_mul]
  simp only
  omega

lemma WellFormed.bitLength_le_max (hx : x.WellFormed) (h : x.digits ≠ []) : x.bitLength ≤ MaxBitLength := by
  calc x.bitLength ≤ W.bits * x.digitLength := bitLength_le h
    _ ≤ W.bits * MaxDigitLength W := Nat.mul_le_mul_left _ hx.length_le
    _ = MaxBitLength := bits_mul_maxDigitLength W

/-! ## 64-bit integers -/

def absFitsInUint64 (x : BigInt W) : Bool := x.digitLength ≤ 64 / W.bits

/-- The low 64 bits of the magnitude. -/
def uint64FromAbsNonZero (x : BigInt W) : BitVec 64 :=
  let val := (x.digit 0).setWidth 64
  if W.bits = 32 ∧ x.digitLength > 1 then val ||| (x.digit 1).setWidth 64 <<< 32 else val

def toUint64 (x : BigInt W) : BitVec 64 :=
  if x.isZero then 0#64
  else
    let digit := x.uint64FromAbsNonZero
    -- Return the two's complement if `x` is negative.
    if x.isNegative then ~~~(digit - 1#64) else digit

/-- `WrapToSigned(toUint64(x))`, as the bits of the `int64_t`. -/
def toInt64 (x : BigInt W) : BitVec 64 := toUint64 x

def createFromUint64 (n : BitVec 64) : Run W (BigInt W) :=
  if n = 0#64 then zero
  else if W.bits = 32 then do
    let low := n.setWidth W.bits
    let high := (n >>> 32).setWidth W.bits
    let length := if high ≠ 0#_ then 2 else 1
    let res ← createUninitialized length false
    let res ← res.setDigits 0 ([low] ++ if high ≠ 0#_ then [high] else [])
    res.publish
  else createFromDigit (n.setWidth W.bits) false

/-- `n` is the bits of an `int64_t`; `Abs` gives its magnitude as a `uint64_t`. -/
def createFromInt64 (n : BitVec 64) : Run W (BigInt W) := do
  let res ← createFromUint64 (if n.msb then ~~~n + 1#64 else n)
  return if n.msb then { res with isNegative := true } else res

lemma mag_lt_of_absFitsInUint64 (h : x.absFitsInUint64 = true) : x.mag < 2 ^ 64 := by
  have hlt := x.mag_lt
  rw [absFitsInUint64, decide_eq_true_iff] at h
  rw [← pow_mul] at hlt
  refine lt_of_lt_of_le hlt (Nat.pow_le_pow_right (by norm_num) ?_)
  exact (Nat.mul_le_mul_left _ h).trans (Nat.mul_div_le 64 _)

lemma WellFormed.le_mag_of_not_absFitsInUint64 (hx : x.WellFormed)
    (h : ¬x.absFitsInUint64 = true) : 2 ^ 64 ≤ x.mag := by
  rw [absFitsInUint64, decide_eq_true_iff] at h
  have hlen : 64 / W.bits ≤ x.digitLength - 1 := by omega
  have hne : x.digits ≠ [] := by
    intro hnil
    rw [digitLength, hnil] at h
    exact h (Nat.zero_le _)
  calc 2 ^ 64 = (2 ^ W.bits) ^ (64 / W.bits) := by cases W <;> rfl
    _ ≤ (2 ^ W.bits) ^ (x.digitLength - 1) := Nat.pow_le_pow_right (by positivity) hlen
    _ ≤ x.mag := hx.noHighZero.le_val hne

lemma digit_toNat (x : BigInt W) (i : ℕ) : (x.digit i).toNat = x.mag / (2 ^ W.bits) ^ i % 2 ^ W.bits := toNat_getD _ _

lemma digit_eq_zero_of_le {i : ℕ} (h : x.digitLength ≤ i) : x.digit i = 0#_ := List.getD_eq_default _ _ h

lemma toNat_uint64FromAbsNonZero (x : BigInt W) : x.uint64FromAbsNonZero.toNat = x.mag % 2 ^ 64 := by
  have h0 := digit_toNat x 0
  have h1 := digit_toNat x 1
  have hlt0 := (x.digit 0).isLt
  have hlt1 := (x.digit 1).isLt
  rw [pow_zero, Nat.div_one] at h0
  rw [pow_one] at h1
  unfold uint64FromAbsNonZero
  rcases W.bits_eq with hW | hW
  · have hB : 2 ^ W.bits = 2 ^ 32 := by rw [hW]
    rw [hB] at h0 h1 hlt0 hlt1
    have hmod : x.mag % 2 ^ 64 = (x.digit 0).toNat + 2 ^ 32 * (x.digit 1).toNat := by
      rw [show (2 : ℕ) ^ 64 = 2 ^ 32 * 2 ^ 32 by norm_num, Nat.mod_mul, h0, h1]
    by_cases hlen : x.digitLength > 1
    · have hor := toNat_shiftLeft_or (w := 64) (k := 32) (by norm_num)
        ((x.digit 1).setWidth 64) ((x.digit 0).setWidth 64)
        (by rw [BitVec.toNat_setWidth, Nat.mod_eq_of_lt] <;> omega)
      rw [if_pos ⟨hW, hlen⟩, BitVec.or_comm, hmod]
      rw [BitVec.toNat_setWidth, BitVec.toNat_setWidth, Nat.mod_eq_of_lt (by omega), Nat.mod_eq_of_lt (by omega)] at hor
      omega
    · rw [if_neg (fun h => hlen h.2), hmod, digit_eq_zero_of_le (Nat.le_of_not_lt hlen),
        BitVec.toNat_setWidth, Nat.mod_eq_of_lt (by omega)]
      simp
  · have hB : 2 ^ W.bits = 2 ^ 64 := by rw [hW]
    rw [hB] at h0
    rw [if_neg (fun h => by omega), BitVec.toNat_setWidth, h0, Nat.mod_mod]

lemma toNat_toUint64 (hx : x.WellFormed) : ((x.toUint64).toNat : ℤ) = x.toInt % 2 ^ 64 := by
  have habs := toNat_uint64FromAbsNonZero x
  unfold toUint64
  split
  next h => rw [hx.toInt_eq_zero_iff.mpr (isZero_iff.mp h)]; rfl
  next =>
    split
    next hs =>
      rw [not_sub_one_eq_not_add_one, ← neg_eq_not_add, toNat_neg, habs, toInt_of_negative hs]
      omega
    next hs => rw [habs, toInt_of_nonneg (by simpa using hs)]; rfl

lemma toInt_toInt64 (hx : x.WellFormed) : (x.toInt64).toInt = x.toInt.bmod (2 ^ 64) := by
  rw [toInt64, toInt_eq_toNat_bmod, toNat_toUint64 hx]
  exact_mod_cast Int.emod_bmod x.toInt (2 ^ 64)

lemma ensures_createFromUint64 (n : BitVec 64) : Ensures (createFromUint64 (W := W) n) T fun r =>
      r.WellFormed ∧ r.toInt = n.toNat ∧ (r.digits = [] ↔ n = 0#64) := by
  have hn := n.isLt
  unfold createFromUint64
  refine .ite (fun h => ensures_zero.imp ?_) fun h => ?_
  · rintro r rfl
    exact ⟨wellFormed_zero, by simp [h], by simp [h]⟩
  have hne : n.toNat ≠ 0 := fun h0 => h (eq_of_toNat_eq (by simpa using h0))
  refine .ite (fun hW => ?_) fun hW => (ensures_createFromDigit _).imp ?_
  · have hB : 2 ^ W.bits = 2 ^ 32 := by rw [hW]
    have hlow : (n.setWidth W.bits).toNat = n.toNat % 2 ^ 32 := by
      simp [hB]
    have hhigh : ((n >>> 32).setWidth W.bits).toNat = n.toNat / 2 ^ 32 := by
      rw [toNat_setWidth, hB, toNat_ushiftRight, Nat.shiftRight_eq_div_pow, Nat.mod_eq_of_lt (by omega)]
    have hmax : 2 ≤ MaxDigitLength W := by
      rw [MaxDigitLength, hW]; decide
    by_cases hh : (n >>> 32).setWidth W.bits = 0#_
    · simp only [hh, ne_eq, not_true_eq_false, if_false, List.append_nil]
      refine (ensures_fill _ (n := 1) rfl fun h1 => by omega).imp ?_
      rintro r ⟨rfl, -⟩
      have hsmall : n.toNat / 2 ^ 32 = 0 := by rw [← hhigh, hh]; simp
      refine ⟨wellFormed_digit fun h0 => hne ?_, ?_, by simp [h]⟩
      · rw [h0] at hlow; simp at hlow; omega
      · rw [toInt_mk, val_cons, val_nil, hlow]
        simp only [Bool.false_eq_true, if_false]
        omega
    · simp only [hh, ne_eq, not_false_eq_true, if_true]
      refine (ensures_fill _ (n := 2) rfl fun h1 => by omega).imp ?_
      rintro r ⟨rfl, -⟩
      refine ⟨⟨by simpa using (noHighZero_concat [n.setWidth W.bits] _).mpr hh, by simp, hmax⟩, ?_, by simp [h]⟩
      rw [List.singleton_append, toInt_mk, val_cons, val_cons, val_nil, hlow, hhigh, hB]
      simp only [Bool.false_eq_true, if_false]
      omega
  · have hB : 2 ^ W.bits = 2 ^ 64 := by rw [W.bits_eq.resolve_left hW]
    have hdigit : (n.setWidth W.bits).toNat = n.toNat := by
      simp [hB, Nat.mod_eq_of_lt hn]
    rintro r rfl
    refine ⟨wellFormed_digit fun h0 => hne ?_, by simp [toInt_mk, hdigit], by simp [h]⟩
    rw [h0] at hdigit
    simpa using hdigit.symm

lemma ensures_createFromInt64 (n : BitVec 64) :
    Ensures (createFromInt64 (W := W) n) T fun r => r.WellFormed ∧ r.toInt = n.toInt := by
  have hn := n.isLt
  unfold createFromInt64
  refine (ensures_createFromUint64 _).bind fun r hr => .pure ?_
  obtain ⟨hwf, hval, hzero⟩ := hr
  cases hmsb : n.msb with
  | false =>
    simp only [hmsb, Bool.false_eq_true, if_false] at hval ⊢
    exact ⟨hwf, by rw [hval, BitVec.toInt_eq_msb_cond, hmsb]; simp⟩
  | true =>
    have hge := BitVec.msb_eq_true_iff_two_mul_ge.mp hmsb
    simp only [hmsb, if_true, ← BitVec.neg_eq_not_add] at hval hzero ⊢
    have hneg : (-n).toNat = 2 ^ 64 - n.toNat := by
      rw [BitVec.toNat_neg, Nat.mod_eq_of_lt (by omega)]
    have hne : r.digits ≠ [] := fun h => by
      have := congrArg BitVec.toNat (hzero.mp h)
      rw [hneg] at this
      simp at this
      omega
    have hmag : r.mag = 2 ^ 64 - n.toNat := by rw [← natAbs_toInt, hval, hneg]; rfl
    refine ⟨hwf.toggle hne true, ?_⟩
    rw [toInt_of_negative rfl, BitVec.toInt_eq_msb_cond, hmsb, if_pos rfl]
    change -(r.mag : ℤ) = _
    rw [hmag]
    omega

end BigInt

end SpiderMonkey
