import SpiderMonkey.BigInt.Increment
import SpiderMonkey.BigInt.ToString

/-!
# Parsing literals

`BigInt::parseLiteralDigits` reads a sequence of digits into a BigInt of a fixed length, by one
in-place multiplication by the radix per character.  The length is an estimate from the number of
significant characters; that it is never too small is what `inplaceMultiplyAdd` asserts, namely
that no carry is left in the end.

The estimate is conservative, so that literals with close to `MaxBitLength` bits can be refused
although their values exist.  `LiteralFits` says which are accepted, and `parse_toString` that the
numeral of a BigInt reads back as that BigInt whenever it is among them.
-/

namespace SpiderMonkey

open Numeral Radix List

namespace BigInt

variable {W : DigitWidth} {T : Prop} {x : BigInt W} {radix : ℕ}

/-- `internalMultiplyAdd` from a BigInt into itself, where there is no room for a last carry. -/
def inplaceMultiplyAdd (this : BigInt W) (factor summand : Digit W) : Run W (BigInt W) := do
  let (digits, high, carry) := multiplyAddLoop factor this.digits 0#_ summand
  mozAssert (carry + high = 0#_)
  return { this with digits }

/-- The number of digits that `charcount` characters may need. -/
def maximumDigitsRequired (W : DigitWidth) (radix charcount : ℕ) : ℕ :=
  CeilDiv (charcount * maxBitsPerCharTable.getD radix 0) (W.bits * bitsPerCharTableMultiplier)

def calculateMaximumDigitsRequired (radix charcount : ℕ) : Run W ℕ :=
  let n := maximumDigitsRequired W radix charcount
  if n > MaxDigitLength W then throw .outOfMemory else return n

/-- The digit of a character.  The two upper limits for letters wrap around when the radix is
below ten, so that there are no such digits then. -/
def literalDigit (radix c : ℕ) : Option ℕ :=
  let limit0 := '0'.toNat + min radix 10
  let limita := 'a'.toNat + radix - 10
  let limitA := 'A'.toNat + radix - 10
  if c ≥ '0'.toNat ∧ c < limit0 then some (c - '0'.toNat)
  else if c ≥ 'a'.toNat ∧ c < limita then some (c - 'a'.toNat + 10)
  else if c ≥ 'A'.toNat ∧ c < limitA then some (c - 'A'.toNat + 10)
  else none

/-- The loop over the characters; there is no result after a parse error. -/
def parseCharacters (radix : ℕ) : List ℕ → BigInt W → Run W (Option (BigInt W))
  | [], result => return some result
  | c :: chars, result =>
    match literalDigit radix c with
    | none => return none
    | some digit => do
      let result ← inplaceMultiplyAdd result (BitVec.ofNat W.bits radix) (BitVec.ofNat W.bits digit)
      parseCharacters radix chars result

/-- The BigInt that the characters of a literal denote, or `none` if there is a parse error. -/
def parseLiteralDigits (chars : List ℕ) (radix : ℕ) (isNegative : Bool) : Run W (Option (BigInt W)) := do
  mozAssert (chars ≠ [])
  -- Leading zeroes are skipped.
  let start := chars.dropWhile (· == '0'.toNat)
  if start = [] then some <$> zero
  else do
    let length ← calculateMaximumDigitsRequired radix start.length
    let result ← createUninitialized length isNegative
    let result ← result.setDigits 0 (List.replicate length 0#_)
    let result ← result.publish
    match ← parseCharacters radix start result with
    | none => return none
    | some result => some <$> destructivelyTrimHighZeroDigits result

/-! ## Specifications -/

lemma literalDigit_eq (hr : radix ≤ 36) (c : ℕ) : literalDigit radix c = (charValue c).filter (· < radix) := by
  have h0 : '0'.toNat = 48 := rfl
  have h9 : '9'.toNat = 57 := rfl
  have ha : 'a'.toNat = 97 := rfl
  have hz : 'z'.toNat = 122 := rfl
  have hA : 'A'.toNat = 65 := rfl
  have hZ : 'Z'.toNat = 90 := rfl
  unfold literalDigit charValue
  simp only [h0, h9, ha, hz, hA, hZ]
  -- The ranges of the two definitions that do not meet are closed first.
  split_ifs <;> first
    | omega
    | simp only [Option.filter_some, Option.filter_none, decide_eq_true_eq]
  all_goals split_ifs <;> first | rfl | omega

lemma literalDigit_of_isDigit (hr : radix ≤ 36) {c d : ℕ} (hd : d < radix)
    (hc : charValue c = some d) : literalDigit radix c = some d := by
  rw [literalDigit_eq hr, hc, Option.filter_some, if_pos (by simpa using hd)]

/-- No carry is left when the product fits. -/
lemma ensures_inplaceMultiplyAdd {factor summand : Digit W}
    (hfits : x.mag * factor.toNat + summand.toNat < (2 ^ W.bits) ^ x.digitLength) :
    Ensures (inplaceMultiplyAdd x factor summand) T fun r =>
      r.isNegative = x.isNegative ∧ r.digitLength = x.digitLength ∧
      r.mag = x.mag * factor.toNat + summand.toNat := by
  obtain ⟨hval, hlen⟩ := multiplyAddLoop_spec W.one_lt_bits factor x.digits 0#_ summand
  unfold inplaceMultiplyAdd
  rcases hloop : multiplyAddLoop factor x.digits 0#_ summand with ⟨digits, high, carry⟩
  simp only [hloop, BitVec.toNat_ofNat, Nat.zero_mod, Nat.add_zero] at hval hlen
  change _ = x.mag * factor.toNat + summand.toNat at hval
  have hlast : high.toNat + carry.toNat = 0 := by
    by_contra h
    have hle : (2 ^ W.bits) ^ x.digits.length * 1 ≤ (2 ^ W.bits) ^ x.digits.length * (high.toNat + carry.toNat) :=
      Nat.mul_le_mul_left _ (Nat.one_le_iff_ne_zero.mpr h)
    change _ < (2 ^ W.bits) ^ x.digits.length at hfits
    omega
  have hcarry : carry + high = 0#_ := by
    apply BitVec.eq_of_toNat_eq
    rw [BitVec.toNat_add, Nat.add_comm, hlast]
    simp
  apply (ensures_mozAssert hcarry).bind
  intro _ _
  rw [hlast, Nat.mul_zero, Nat.add_zero] at hval
  exact .pure ⟨rfl, hlen, hval⟩

/-- After `k` characters the number read is below `radix ^ k`, so that it fits all along. -/
lemma ensures_parseCharacters (hr : radix ≤ 36) {chars : List ℕ}
    (hchars : ∀ c ∈ chars, ∃ d < radix, charValue c = some d) {k : ℕ} (hk : x.mag < radix ^ k)
    (hfits : radix ^ (k + chars.length) ≤ (2 ^ W.bits) ^ x.digitLength) :
    Ensures (parseCharacters radix chars x) T fun r => ∃ y, r = some y ∧
      y.isNegative = x.isNegative ∧ y.digitLength = x.digitLength ∧
      y.mag = valueFrom radix x.mag (chars.map fun c => (charValue c).getD 0) := by
  induction chars generalizing x k with
  | nil => exact .pure ⟨x, rfl, rfl, rfl, rfl⟩
  | cons c chars ih =>
    obtain ⟨d, hd, hc⟩ := hchars c mem_cons_self
    have hB := radix_lt_two_pow (W := W) hr
    have hfactor : (BitVec.ofNat W.bits radix).toNat = radix := by
      simp [Nat.mod_eq_of_lt hB]
    have hsummand : (BitVec.ofNat W.bits d).toNat = d := by
      simp [Nat.mod_eq_of_lt (hd.trans hB)]
    have hstep : x.mag * radix + d < radix ^ (k + 1) := by
      calc x.mag * radix + d < (x.mag + 1) * radix := by rw [Nat.add_mul, Nat.one_mul]; omega
        _ ≤ radix ^ k * radix := Nat.mul_le_mul_right _ hk
        _ = radix ^ (k + 1) := (pow_succ radix k).symm
    have hle : radix ^ (k + 1) ≤ (2 ^ W.bits) ^ x.digitLength :=
      (Nat.pow_le_pow_right (by omega) (by simp only [length_cons]; omega)).trans hfits
    unfold parseCharacters
    rw [literalDigit_of_isDigit hr hd hc]
    apply (ensures_inplaceMultiplyAdd
      (by rw [hfactor, hsummand]; exact lt_of_lt_of_le hstep hle)).bind
    rintro y ⟨hsign, hlen, hmag⟩
    rw [hfactor, hsummand] at hmag
    apply (ih (x := y) (k := k + 1) (fun c' hc' => hchars c' (mem_cons_of_mem c hc'))
      (by rw [hmag]; exact hstep) ?_).imp
    · simp [hsign, hlen, hmag, hc]
    · rw [hlen]
      refine le_trans (le_of_eq ?_) hfits
      rw [length_cons, Nat.add_right_comm, Nat.add_assoc k]

/-- The estimate of the number of digits is safe. -/
lemma pow_le_maximumDigitsRequired (hr : 2 ≤ radix) (hr' : radix ≤ 36) (n : ℕ) :
    radix ^ n ≤ (2 ^ W.bits) ^ maximumDigitsRequired W radix n := by
  obtain ⟨htable, -, hhigh⟩ := maxBitsPerCharTable_spec hr hr'
  have hpos : 0 < W.bits * bitsPerCharTableMultiplier := Nat.mul_pos W.bits_pos (by decide)
  have hdiv := le_mul_CeilDiv (n * maxBitsPerCharTable.getD radix 0) hpos
  rw [← pow_mul]
  apply pow_le_pow_of_scaled (by omega) (by omega) hhigh
  calc maxBitsPerCharTable.getD radix 0 * n = n * maxBitsPerCharTable.getD radix 0 := Nat.mul_comm _ _
    _ ≤ W.bits * bitsPerCharTableMultiplier * maximumDigitsRequired W radix n := hdiv
    _ = 32 * (W.bits * maximumDigitsRequired W radix n) := by
      rw [show bitsPerCharTableMultiplier = 32 from rfl]; ring

/-- The literal is not refused for its length. -/
def LiteralFits (W : DigitWidth) (radix : ℕ) (s : List ℕ) : Prop :=
  maximumDigitsRequired W radix (s.dropWhile (· == '0'.toNat)).length ≤ MaxDigitLength W

instance (s : List ℕ) : Decidable (LiteralFits W radix s) := inferInstanceAs (Decidable (_ ≤ _))

lemma ensures_parseLiteralDigits (hr : 2 ≤ radix) (hr' : radix ≤ 36) {s : List ℕ}
    (hs : IsDigits radix s) (hfits : LiteralFits W radix s) (isNegative : Bool) :
    Ensures (parseLiteralDigits s radix isNegative) T fun r => ∃ y : BigInt W, r = some y ∧
      y.WellFormed ∧ y.toInt = if isNegative then -(value radix s : ℤ) else value radix s := by
  have hvalue := value_dropWhile (r := radix) s
  have hdigits : ∀ c ∈ s.dropWhile (· == '0'.toNat), ∃ d < radix, charValue c = some d :=
    fun c hc => hs.2 c ((dropWhile_sublist _).subset hc)
  unfold LiteralFits at hfits
  unfold parseLiteralDigits
  apply (ensures_mozAssert hs.1).bind
  intro _ _
  simp only
  generalize s.dropWhile (· == '0'.toNat) = start at *
  refine .ite (fun hnil => ?_) fun hne => ?_
  · rw [map_eq_pure_bind]
    apply ensures_zero.bind
    rintro _ rfl
    rw [hnil] at hvalue
    refine .pure ⟨_, rfl, wellFormed_zero, ?_⟩
    rw [← hvalue]
    cases isNegative <;> rfl
  · set length := maximumDigitsRequired W radix start.length with hlength
    have hestimate : Ensures (W := W) (calculateMaximumDigitsRequired radix start.length) T
        fun n => n = length := by
      unfold calculateMaximumDigitsRequired
      rw [if_neg (Nat.not_lt_of_le hfits)]
      exact .pure rfl
    apply hestimate.bind
    rintro _ rfl
    apply (ensures_createUninitialized fun h => absurd hfits (Nat.not_le_of_lt h)).bind
    rintro cell ⟨hsign, hlen, -⟩
    apply (ensures_setDigits_all (List.replicate length 0#_) (by rw [hlen]; simp)).bind
    rintro _ rfl
    rw [hsign]
    apply (ensures_publish (List.replicate length 0#_)).bind
    rintro _ rfl
    have hmag : (⟨isNegative, List.replicate length 0#_⟩ : BigInt W).mag = 0 := val_replicate_zero length
    have hroom : radix ^ (0 + start.length) ≤
        (2 ^ W.bits) ^ (⟨isNegative, List.replicate length 0#_⟩ : BigInt W).digitLength := by
      simpa [digitLength] using pow_le_maximumDigitsRequired hr hr' _
    apply (ensures_parseCharacters hr' hdigits (k := 0) (by rw [hmag]; simp) hroom).bind
    rintro r ⟨y, rfl, hysign, hylen, hymag⟩
    rw [hmag] at hymag
    change y.mag = value radix start at hymag
    simp only [digitLength, length_replicate] at hylen
    have hynil : y.digits = [] → y.isNegative = false := by
      intro hnil
      have hpos : 0 < length := Nat.lt_of_lt_of_le Nat.zero_lt_one (Nat.le_add_right 1 _)
      rw [hnil, length_nil] at hylen
      omega
    simp only [map_eq_pure_bind]
    apply (ensures_trim (by rw [digitLength, hylen]; exact hfits) hynil).bind
    rintro z ⟨hz, hzval⟩
    refine .pure ⟨z, rfl, hz, ?_⟩
    rw [hzval, toInt, hysign, hymag, hvalue]

/-- A literal that does not fit is reported as running out of memory. -/
lemma parseLiteralDigits_outOfMemory {s : List ℕ} (hs : IsDigits radix s)
    (hfits : ¬LiteralFits W radix s) (isNegative : Bool) (cx : JSContext W) (heap : Heap) :
    parseLiteralDigits s radix isNegative cx heap = .error .outOfMemory := by
  have hne : s.dropWhile (· == '0'.toNat) ≠ [] := by
    intro hnil
    apply hfits
    unfold LiteralFits
    rw [hnil]
    have hone : maximumDigitsRequired W radix 0 = 1 := by
      simp [maximumDigitsRequired, CeilDiv]
    rw [length_nil, hone]
    exact one_le_maxDigitLength W
  have hlarge : MaxDigitLength W <
      maximumDigitsRequired W radix (s.dropWhile (· == '0'.toNat)).length := Nat.lt_of_not_le hfits
  unfold parseLiteralDigits mozAssert
  rw [if_pos hs.1, pure_bind, if_neg hne]
  unfold calculateMaximumDigitsRequired
  rw [if_pos hlarge]
  rfl

/-! ## Reading a numeral back -/

/-- The characters of a numeral after its sign. -/
def unsigned : List Char → List ℕ
  | '-' :: s => s.map Char.toNat
  | s => s.map Char.toNat

lemma unsigned_magnitude (hr : 2 ≤ radix) (hr' : radix ≤ 36) (n : ℕ) :
    unsigned (magnitude radix n) = (magnitude radix n).map Char.toNat := by
  obtain ⟨c, s, hs⟩ := exists_cons_of_ne_nil (magnitude_ne_nil (r := radix) n)
  obtain ⟨d, hd, rfl⟩ := magnitude_mem (r := radix) (by omega)
    (show c ∈ magnitude radix n by rw [hs]; exact mem_cons_self)
  have hne : digitChar d ≠ '-' := by
    have hall : ∀ d < 36, digitChar d ≠ '-' := by decide
    exact hall d (by omega)
  rw [hs]
  unfold unsigned
  split
  next h => exact absurd (head_eq_of_cons_eq h) hne
  next => rfl

lemma unsigned_numeral (hr : 2 ≤ radix) (hr' : radix ≤ 36) (i : ℤ) :
    unsigned (numeral radix i) = (magnitude radix i.natAbs).map Char.toNat := by
  unfold numeral
  split
  · rfl
  · exact unsigned_magnitude hr hr' _

/-- The numeral of a BigInt with its sign reads back as the BigInt. -/
lemma WellFormed.ensures_parse_numeral (hx : x.WellFormed) (hr : 2 ≤ radix) (hr' : radix ≤ 36)
    (hfits : LiteralFits W radix (unsigned (numeral radix x.toInt))) :
    Ensures (parseLiteralDigits (unsigned (numeral radix x.toInt)) radix x.isNegative) T
      fun r => r = some x := by
  rw [unsigned_numeral hr hr', natAbs_toInt] at hfits ⊢
  apply (ensures_parseLiteralDigits hr hr' (isDigits_magnitude (by omega) hr' x.mag) hfits
    x.isNegative).imp
  rintro _ ⟨y, rfl, hy, hval⟩
  rw [value_magnitude (by omega) hr'] at hval
  exact congrArg some (hy.toInt_injective hx hval)

/-- Printing and parsing in any radix.

* `toString` returns the canonical numeral, whatever the allocations do: all writes stay in the
  buffer and all assertions hold.
* A numeral consists of lower-case digits of its radix, has no leading zero and denotes its number.
* A sequence of digits that fits is parsed into its value, and no carry is dropped; any other is
  reported as running out of memory.
* A numeral that fits reads back as the BigInt it was printed from. -/
theorem toString_parseLiteralDigits (hr : 2 ≤ radix) (hr' : radix ≤ 36) : (∀ x : BigInt W, x.WellFormed →
      Ensures (toString true x radix) False fun s => s = some (numeral radix x.toInt)) ∧
    (∀ n : ℕ, (∀ c ∈ magnitude radix n, ∃ d < radix, c = digitChar d) ∧ (n ≠ 0 → (magnitude radix n).head? ≠ some '0') ∧
      value radix ((magnitude radix n).map Char.toNat) = n) ∧
    (∀ (s : List ℕ) (isNegative : Bool), IsDigits radix s → if LiteralFits W radix s then
        Ensures (parseLiteralDigits s radix isNegative) False fun r => ∃ y : BigInt W, r = some y ∧ y.WellFormed ∧
          y.toInt = if isNegative then -(value radix s : ℤ) else value radix s
      else ∀ (cx : JSContext W) heap, parseLiteralDigits s radix isNegative cx heap = .error .outOfMemory) ∧
    (∀ x : BigInt W, x.WellFormed → LiteralFits W radix (unsigned (numeral radix x.toInt)) → Ensures (do
        let s ← toString true x radix
        parseLiteralDigits (unsigned (s.getD [])) radix x.isNegative) False
        fun r => r = some x) := by
  have hr1 : 1 < radix := by omega
  have hprint : ∀ x : BigInt W, x.WellFormed →
      Ensures (toString true x radix) False fun s => s = some (numeral radix x.toInt) := by
    intro x hx
    apply (ensures_toString hx hr hr' true).imp
    simp
  refine ⟨hprint, fun n => ⟨fun c hc => magnitude_mem hr1 hc, fun hn => ?_,
    value_magnitude hr1 hr' n⟩, fun s isNegative hs => ?_, fun x hx hfits => ?_⟩
  · rw [head?_eq_some_head (magnitude_ne_nil n)]
    exact fun h => magnitude_head_ne hr1 hr' hn (Option.some.inj h)
  · by_cases hfits : LiteralFits W radix s
    · rw [if_pos hfits]
      exact ensures_parseLiteralDigits hr hr' hs hfits isNegative
    · rw [if_neg hfits]
      exact parseLiteralDigits_outOfMemory hs hfits isNegative
  · apply (hprint x hx).bind
    rintro _ rfl
    exact hx.ensures_parse_numeral hr hr' hfits

theorem toString_parseLiteralDigits_decimal : (2 ≤ 10 ∧ 10 ≤ 36) ∧ (⟨true, [5#64, 1#64]⟩ : BigInt .bits64).WellFormed ∧
    Ensures (toString true (⟨true, [5#64, 1#64]⟩ : BigInt .bits64) 10) False fun s =>
      s = some (numeral 10 (-(2 ^ 64 + 5))) :=
  ⟨by decide, by decide, (toString_parseLiteralDigits (by decide) (by decide)).1 _ (by decide)⟩

/-- The largest BigInt. -/
def maximalBigInt (W : DigitWidth) : BigInt W :=
  ⟨false, List.replicate (MaxDigitLength W) (BitVec.allOnes W.bits)⟩

lemma wellFormed_maximalBigInt (W : DigitWidth) : (maximalBigInt W).WellFormed := by
  refine ⟨?_, fun _ => rfl, (length_replicate).le⟩
  intro hlast
  have hmem := mem_of_getLast? hlast
  have hzero := congrArg BitVec.toNat (eq_of_mem_replicate hmem)
  have hB := two_lt_two_pow W.one_lt_bits
  rw [BitVec.toNat_allOnes, BitVec.toNat_ofNat, Nat.zero_mod] at hzero
  omega

lemma mag_maximalBigInt (W : DigitWidth) : (maximalBigInt W).mag + 1 = 2 ^ MaxBitLength := by
  have hall : (maximalBigInt W).digits.all (· == BitVec.allOnes W.bits) = true := by
    rw [all_eq_true]
    intro d hd
    rw [eq_of_mem_replicate hd]
    simp
  rw [mag, (all_allOnes_iff _).mp hall, ← pow_mul, ← bits_mul_maxDigitLength W]
  exact congrArg (fun n => 2 ^ (W.bits * n)) length_replicate

/-- Octal numerals of 349526 characters stand for up to 1048578 bits, which is more than there may
be. -/
lemma not_literalFits_octal {n : ℕ} (h : n + 1 = 2 ^ MaxBitLength) :
    ¬LiteralFits .bits64 8 ((magnitude 8 n).map Char.toNat) := by
  have hn : (2 ^ 3) ^ 349525 ≤ n := by
    have hlt : 3 * 349525 < MaxBitLength := by decide
    generalize 349525 = k at hlt ⊢
    generalize MaxBitLength = b at h hlt
    have hpow : 2 ^ (3 * k) < 2 ^ b := Nat.pow_lt_pow_right (by decide) hlt
    rw [← pow_mul]
    omega
  have hne : n ≠ 0 := (lt_of_lt_of_le (Nat.pow_pos (by decide)) hn).ne'
  have hlen : 349525 < (magnitude 8 n).length := by
    rw [magnitude_of_ne_zero hne, length_map, length_reverse]
    exact (Nat.lt_digits_length_iff (b := 2 ^ 3) (by decide) n).mpr hn
  unfold LiteralFits
  rw [dropWhile_magnitude (by decide) (by decide) hne, length_map]
  generalize (magnitude 8 n).length = length at hlen ⊢
  -- 349526 * 96 / (64 * 32), rounded up, is 16385.
  have htable : maxBitsPerCharTable.getD 8 0 = 96 := rfl
  have hbits : DigitWidth.bits .bits64 * bitsPerCharTableMultiplier = 2048 := rfl
  have hmax : MaxDigitLength .bits64 = 16384 := rfl
  unfold maximumDigitsRequired CeilDiv
  rw [htable, hbits, hmax]
  omega

/-- The octal numeral of the largest BigInt does not read back. -/
theorem parse_numeral_outOfMemory : (maximalBigInt .bits64).WellFormed ∧ ∀ (cx : JSContext .bits64) heap,
      parseLiteralDigits (unsigned (numeral 8 (maximalBigInt .bits64).toInt)) 8
        (maximalBigInt .bits64).isNegative cx heap = .error .outOfMemory := by
  refine ⟨wellFormed_maximalBigInt _, fun cx heap => ?_⟩
  rw [unsigned_numeral (by decide) (by decide), natAbs_toInt]
  apply parseLiteralDigits_outOfMemory (isDigits_magnitude (by decide) (by decide) _)
  exact not_literalFits_octal (mag_maximalBigInt .bits64)

end BigInt

end SpiderMonkey
