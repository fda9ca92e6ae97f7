import SpiderMonkey.BigInt.Basic
import SpiderMonkey.BigInt.Digit

/-!
# Adding and subtracting one

`absoluteAddOne` and `absoluteSubOne` change a magnitude by one and give the result a sign of
the caller's choosing.  Right shifts, the bitwise operators and `asIntN` are built from them, so
they are specified for any digit vector, with high zero digits or without.
-/

namespace SpiderMonkey

open Radix BitVec

/-- All digits are at their maximum exactly when adding one needs a new digit. -/
lemma all_allOnes_iff {w : ℕ} : ∀ ds : List (BitVec w),
    ds.all (· == allOnes w) = true ↔ val ds + 1 = (2 ^ w) ^ ds.length
  | [] => by simp
  | d :: ds => by
    have ih := all_allOnes_iff ds
    have hd := d.isLt
    have hds := val_lt ds
    have hmax : d = allOnes w ↔ d.toNat + 1 = 2 ^ w := by
      rw [← toNat_inj, toNat_allOnes]; omega
    simp only [List.all_cons, Bool.and_eq_true, beq_iff_eq, ih, hmax, val_cons, List.length_cons, pow_succ']
    constructor
    · rintro ⟨h₁, h₂⟩
      rw [← h₂, Nat.mul_add]; omega
    · intro h
      have hle : 2 ^ w * (val ds + 1) ≤ 2 ^ w * (2 ^ w) ^ ds.length := Nat.mul_le_mul_left _ hds
      have hds' : val ds + 1 = (2 ^ w) ^ ds.length := by
        refine Nat.eq_of_mul_eq_mul_left (by positivity : 0 < 2 ^ w) ?_
        rw [Nat.mul_add] at hle ⊢
        omega
      exact ⟨by rw [← hds', Nat.mul_add] at h; omega, hds'⟩

namespace BigInt

variable {W : DigitWidth} {T : Prop} {x : BigInt W}

def absoluteAddOne (x : BigInt W) (resultNegative : Bool) : Run W (BigInt W) := do
  -- The addition will overflow into a new digit if all existing digits are at maximum.
  let willOverflow := x.digits.all (· == allOnes W.bits)
  let resultLength := x.digitLength + willOverflow.toNat
  let result ← createUninitialized resultLength resultNegative
  let (digits, _) := carryLoop x.digits 1#_
  let result ← result.setDigits 0 (digits ++ if willOverflow then [1#_] else [])
  let result ← result.publish
  destructivelyTrimHighZeroDigits result

def absoluteSubOne (x : BigInt W) (resultNegative : Bool) : Run W (BigInt W) :=
  if x.digitLength = 1 then
    let d := x.digit 0
    -- Ignores `resultNegative`.
    if d = 1#_ then zero else createFromDigit (d - 1#_) resultNegative
  else do
    let result ← createUninitialized x.digitLength resultNegative
    let (digits, _) := borrowLoop x.digits 1#_
    let result ← result.setDigits 0 digits
    let result ← result.publish
    destructivelyTrimHighZeroDigits result

lemma val_addOneDigits (ds : List (Digit W)) :
    val ((carryLoop ds 1#_).1 ++ if ds.all (· == allOnes W.bits) then [1#_] else []) = val ds + 1 := by
  have hone := toNat_one W.one_lt_bits
  obtain ⟨hval, hcarry, hlen⟩ := carryLoop_spec W.one_lt_bits ds 1#_ hone.le
  have hlt := val_lt (carryLoop ds 1#_).1
  have hds := val_lt ds
  rw [hone] at hval
  rw [hlen] at hlt
  by_cases hmax : ds.all (· == allOnes W.bits) = true
  · have hover := (all_allOnes_iff ds).mp hmax
    have hc : (carryLoop ds 1#_).2.toNat = 1 := by
      refine le_antisymm hcarry (Nat.pos_of_ne_zero fun h => ?_)
      rw [h] at hval
      omega
    rw [if_pos hmax, val_concat, hlen, hone, ← hval, hc]
  · have hover : val ds + 1 ≠ _ := fun h => hmax ((all_allOnes_iff ds).mpr h)
    have hc : (carryLoop ds 1#_).2.toNat = 0 := by
      by_contra h
      have h1 : (carryLoop ds 1#_).2.toNat = 1 := by omega
      rw [h1] at hval
      omega
    simp [hmax, ← hval, hc]

/-- Adding one fails with the size limit only when the magnitude reaches it. -/
lemma ensures_absoluteAddOne {sign : Bool} (hlen : x.digitLength ≤ MaxDigitLength W)
    (hT : 2 ^ MaxBitLength ≤ x.mag + 1 → T) :
    Ensures (absoluteAddOne x sign) T fun r =>
      r.WellFormed ∧ r.toInt = if sign then -((x.mag : ℤ) + 1) else (x.mag : ℤ) + 1 := by
  set digits := (carryLoop x.digits 1#_).1 ++
    if x.digits.all (· == allOnes W.bits) then [1#_] else [] with hdigits
  have hval : val digits = x.mag + 1 := val_addOneDigits x.digits
  have hdlen : digits.length = x.digitLength + (x.digits.all (· == allOnes W.bits)).toNat := by
    have := (carryLoop_spec W.one_lt_bits x.digits 1#_ (toNat_one W.one_lt_bits).le).2.2
    rw [hdigits, List.length_append, this]
    cases x.digits.all (· == allOnes W.bits) <;> rfl
  have hsize : MaxDigitLength W < digits.length → T := by
    intro hlt
    cases hmax : x.digits.all (· == allOnes W.bits) with
    | false => rw [hdlen, hmax, Bool.toNat_false] at hlt; omega
    | true =>
      rw [hdlen, hmax, Bool.toNat_true] at hlt
      have hfull : x.digitLength = MaxDigitLength W := by omega
      refine hT ?_
      have := (all_allOnes_iff _).mp hmax
      change x.mag + 1 = _ ^ x.digitLength at this
      rw [this, hfull, ← pow_mul, bits_mul_maxDigitLength]
  have hne : digits ≠ [] := fun h => by simp [h] at hval
  refine (ensures_fill_trim digits hdlen (fun h => hsize (hdlen ▸ h))
    fun h => absurd h hne).imp fun r hr => ⟨hr.1, ?_⟩
  rw [hr.2, toInt_mk, hval]
  rfl

lemma ensures_absoluteSubOne {sign : Bool} (hlen : x.digitLength ≤ MaxDigitLength W) (hpos : 0 < x.mag) :
    Ensures (absoluteSubOne x sign) T fun r =>
      r.WellFormed ∧ r.toInt = if sign then -((x.mag : ℤ) - 1) else (x.mag : ℤ) - 1 := by
  have hone := toNat_one W.one_lt_bits
  unfold absoluteSubOne
  refine .ite (fun h1 => ?_) fun h1 => ?_
  · obtain ⟨d, hd⟩ := List.length_eq_one_iff.mp h1
    have hmag : x.mag = d.toNat := by simp [mag, hd]
    have hdigit : x.digit 0 = d := by simp [digit, hd]
    rw [hmag] at hpos
    simp only [hdigit]
    refine .ite (fun h => ensures_zero.imp ?_) fun h => (ensures_createFromDigit _).imp ?_
    · rintro r rfl
      rw [hmag, h, hone]
      exact ⟨wellFormed_zero, by simp⟩
    · rintro r rfl
      have hd1 : d.toNat ≠ 1 := fun h' => h (eq_of_toNat_eq (h'.trans hone.symm))
      have hsub : (d - 1#_).toNat = d.toNat - 1 := by
        rw [toNat_sub, hone, show 2 ^ W.bits - 1 + d.toNat = 2 ^ W.bits + (d.toNat - 1) by
          omega, Nat.add_mod_left, Nat.mod_eq_of_lt (by omega)]
      refine ⟨wellFormed_digit fun h0 => ?_, ?_⟩
      · rw [h0, toNat_ofNat, Nat.zero_mod] at hsub
        omega
      · have : ((d.toNat - 1 : ℕ) : ℤ) = (d.toNat : ℤ) - 1 := by omega
        rw [toInt_mk, val_cons, val_nil, hsub, hmag, Nat.mul_zero, Nat.add_zero, this]
  · obtain ⟨hval, hborrow, hblen⟩ := borrowLoop_spec W.one_lt_bits x.digits 1#_ hone.le
    have hlt := val_lt (borrowLoop x.digits 1#_).1
    rw [hone] at hval
    rw [hblen] at hlt
    have hb : (borrowLoop x.digits 1#_).2.toNat = 0 := by
      by_contra h
      have hb1 : (borrowLoop x.digits 1#_).2.toNat = 1 := by omega
      rw [hb1] at hval
      change 0 < val x.digits at hpos
      omega
    rw [hb, Nat.mul_zero, Nat.add_zero] at hval
    refine (ensures_fill_trim (borrowLoop x.digits 1#_).1 hblen
      (fun h => absurd hlen (Nat.not_le_of_lt h)) fun h => ?_).imp fun r hr => ⟨hr.1, ?_⟩
    · have : x.digits = [] := List.length_eq_zero_iff.mp (by rw [← hblen]; simpa using h)
      simp [mag, this] at hpos
    · have hmag : (val (borrowLoop x.digits 1#_).1 : ℤ) = (x.mag : ℤ) - 1 := by
        change val (borrowLoop x.digits 1#_).1 + 1 = x.mag at hval
        omega
      rw [hr.2, toInt_mk, hmag]

lemma ensures_digitOne {sign : Bool} : Ensures (createFromDigit (W := W) 1#_ sign) T fun r =>
      r.WellFormed ∧ r.toInt = if sign then -1 else 1 := by
  have hone := toNat_one W.one_lt_bits
  refine (ensures_createFromDigit _).imp ?_
  rintro r rfl
  refine ⟨wellFormed_digit fun h => ?_, by simp [toInt_mk, hone]⟩
  rw [h] at hone
  simp at hone

lemma ensures_one : Ensures (one (W := W)) T fun r => r.WellFormed ∧ r.toInt = 1 := ensures_digitOne

lemma ensures_negativeOne : Ensures (negativeOne (W := W)) T fun r => r.WellFormed ∧ r.toInt = -1 := ensures_digitOne

end BigInt

end SpiderMonkey
