import SpiderMonkey.BigInt.Mul
import SpiderMonkey.BigInt.Shift
import SpiderMonkey.BigInt.ToString

/-!
# Exponentiation

`pow` squares and multiplies: in words of 64 bits as long as they do not overflow, and from the
state it recovers then with `mul`.  One and powers of two have paths of their own.
-/

namespace SpiderMonkey

open Radix List

namespace BigInt

open Nat

variable {W : DigitWidth} {T : Prop} {x y : BigInt W} {sign : Bool}

/-- How the loop in words of 64 bits ends. -/
inductive Uint64Power
  | done (resultInt : BitVec 64)
  | abandoned (n : ℕ) (runningSquareInt resultInt : BitVec 64)

/-- `while (true)` in words of 64 bits. -/
def uint64PowerLoop (n : ℕ) (runningSquareInt resultInt : BitVec 64) : Uint64Power :=
  let runningSquareStart := runningSquareInt
  match safeMul runningSquareInt runningSquareInt with
  | none => .abandoned n runningSquareInt resultInt
  | some runningSquareInt =>
    if n % 2 = 1 then
      match safeMul resultInt runningSquareInt with
      -- Recover `runningSquare` before we restart the loop.
      | none => .abandoned n runningSquareStart resultInt
      | some resultInt =>
        if n / 2 = 0 then .done resultInt else uint64PowerLoop (n / 2) runningSquareInt resultInt
    else if n / 2 = 0 then .done resultInt
    else uint64PowerLoop (n / 2) runningSquareInt resultInt
termination_by n
decreasing_by all_goals omega

/-- `if (n & 1)`: one more factor, which becomes the result where there is none yet. -/
def multiplyResult (n : ℕ) (result : Option (BigInt W)) (runningSquare : BigInt W) : Run W (Option (BigInt W)) :=
  if n % 2 = 1 then
    match result with
    | none => return some runningSquare
    | some result => some <$> mul result runningSquare
  else return result

/-- `while (true)` with `mul`; a result that is still null at the end would be returned as a failure. -/
def powerLoop (n : ℕ) (runningSquare : BigInt W) (result : Option (BigInt W)) : Run W (BigInt W) := do
  let runningSquare ← mul runningSquare runningSquare
  let result ← multiplyResult n result runningSquare
  if n / 2 = 0 then
    match result with
    | none => throw .assertion
    | some result => return result
  else powerLoop (n / 2) runningSquare result
termination_by n
decreasing_by all_goals omega

/-- The path for `(2^m)^n`. -/
def powerOfTwo (m n : ℕ) (resultNegative : Bool) : Run W (BigInt W) := do
  let n := n * m
  let length := 1 + n / W.bits
  let result ← createUninitialized length resultNegative
  let result ← result.setDigits 0 (List.replicate length 0#_)
  let result ← result.setDigits (length - 1) [1#_ <<< (n % W.bits)]
  result.publish

def pow (x y : BigInt W) : Run W (BigInt W) :=
  -- 1. If exponent is < 0, throw a RangeError exception.
  if y.isNegative then throw .bigIntNegativeExponent
  -- 2. If base is 0n and exponent is 0n, return 1n.
  else if y.isZero then one
  else if x.isZero then return x
  -- 3. Return a BigInt representing the mathematical value of base raised to the power exponent.
  else if x.digitLength = 1 ∧ x.digit 0 = 1#_ then
    -- (-1) ** even_number == 1, (-1) ** odd_number == -1, 1 ** anything == 1.
    if x.isNegative ∧ y.digit 0 &&& 1#_ = 0#_ then neg x else return x
  else if y.digitLength > 1 then throw .bigIntTooLarge
  else if y.digit 0 = 1#_ then return x
  else if (y.digit 0).toNat ≥ MaxBitLength then throw .bigIntTooLarge
  else
    let n := (y.digit 0).toNat
    let isOddPower : Bool := n % 2 = 1
    if x.digitLength = 1 ∧ IsPowerOfTwo (x.digit 0).toNat then
      powerOfTwo (x.digit 0).toNat.log2 n (x.isNegative && isOddPower)
    else if x.absFitsInUint64 then
      let resultNegative := x.isNegative && isOddPower
      let runningSquareInt := x.uint64FromAbsNonZero
      let resultInt := if isOddPower then runningSquareInt else 1#64
      match uint64PowerLoop (n / 2) runningSquareInt resultInt with
      | .done resultInt => createFromNonZeroRawUint64 resultInt resultNegative
      | .abandoned n runningSquareInt resultInt => do
        let runningSquare ← createFromNonZeroRawUint64 runningSquareInt false
        let result ← createFromNonZeroRawUint64 resultInt resultNegative
        powerLoop n runningSquare (some result)
    else powerLoop (n / 2) x (if isOddPower then some x else none)

/-! ## The loops -/

lemma pow_half {R : Type} [CommMonoid R] (a b : R) (n : ℕ) :
    b * (a * a) ^ n = b * (a * a) ^ (n % 2) * ((a * a) * (a * a)) ^ (n / 2) := by
  have hn : n = n % 2 + 2 * (n / 2) := (mod_add_div n 2).symm
  conv_lhs => rw [hn]
  rw [pow_add, pow_mul, pow_two]
  simp only [mul_assoc]

/-- The result of the loop in words is the power of the base, or the powers it leaves behind lead there. -/
def Uint64Power.Reaches (b total : ℕ) : Uint64Power → Prop
  | .done resultInt => resultInt.toNat = b ^ total
  | .abandoned n runningSquareInt resultInt => ∃ e f, 0 < n ∧ 0 < e ∧ f + 2 * e * n = total ∧
      runningSquareInt.toNat = b ^ e ∧ resultInt.toNat = b ^ f

lemma uint64PowerLoop_reaches {b total : ℕ} (n : ℕ) (runningSquareInt resultInt : BitVec 64) (e f : ℕ) (hn : 0 < n)
    (he : 0 < e) (hsum : f + 2 * e * n = total) (hsquare : runningSquareInt.toNat = b ^ e)
    (hresult : resultInt.toNat = b ^ f) : (uint64PowerLoop n runningSquareInt resultInt).Reaches b total := by
  induction n using Nat.strong_induction_on generalizing runningSquareInt resultInt e f with
  | _ n ih =>
    rw [uint64PowerLoop]
    cases hmul : safeMul runningSquareInt runningSquareInt with
    | none => exact ⟨e, f, hn, he, hsum, hsquare, hresult⟩
    | some square =>
      have hsquare' : square.toNat = b ^ (2 * e) := by
        rw [safeMul_eq_some hmul, hsquare, ← pow_add, two_mul]
      have hsplit := mod_add_div n 2
      have hsum' : f + 2 * e * (n % 2) + 2 * (2 * e) * (n / 2) = total := by
        calc f + 2 * e * (n % 2) + 2 * (2 * e) * (n / 2) = f + 2 * e * (n % 2 + 2 * (n / 2)) := by ring
          _ = total := by rw [hsplit, hsum]
      by_cases hodd : n % 2 = 1
      · simp only [if_pos hodd]
        rw [hodd, Nat.mul_one] at hsum'
        cases hmul' : safeMul resultInt square with
        | none => exact ⟨e, f, hn, he, hsum, hsquare, hresult⟩
        | some result =>
          have hresult' : result.toNat = b ^ (f + 2 * e) := by
            rw [safeMul_eq_some hmul', hresult, hsquare', pow_add]
          by_cases hlast : n / 2 = 0
          · simp only [if_pos hlast]
            rw [hlast, Nat.mul_zero, Nat.add_zero] at hsum'
            exact hresult'.trans (by rw [hsum'])
          · simp only [if_neg hlast]
            exact ih (n / 2) (by omega) square result (2 * e) (f + 2 * e) (by omega) (by omega) hsum' hsquare' hresult'
      · simp only [if_neg hodd]
        rw [show n % 2 = 0 by omega, Nat.mul_zero, Nat.add_zero] at hsum'
        by_cases hlast : n / 2 = 0
        · omega
        · simp only [if_neg hlast]
          exact ih (n / 2) (by omega) square resultInt (2 * e) f (by omega) (by omega) hsum' hsquare' hresult

/-- A magnitude below a power of the radix needs no more digits than the exponent. -/
lemma WellFormed.digitLength_le (hx : x.WellFormed) {k : ℕ} (h : x.mag < (2 ^ W.bits) ^ k) : x.digitLength ≤ k :=
  hx.noHighZero.length_le W.bits_pos h

lemma WellFormed.digitLength_le_of_pow (hx : x.WellFormed) {b e L : ℕ} (hb : b < (2 ^ W.bits) ^ L) (he : 0 < e)
    (h : x.mag = b ^ e) : x.digitLength ≤ L * e := by
  refine hx.digitLength_le ?_
  rw [h, pow_mul]
  exact Nat.pow_lt_pow_left hb he.ne'

lemma WellFormed.digitLength_le_succ_of_pow (hx : x.WellFormed) {b f L : ℕ} (hb : b < (2 ^ W.bits) ^ L)
    (h : x.mag = b ^ f) : x.digitLength ≤ L * f + 1 := by
  refine hx.digitLength_le ?_
  have hB := Nat.one_lt_two_pow W.bits_pos.ne'
  calc x.mag = b ^ f := h
    _ ≤ ((2 ^ W.bits) ^ L) ^ f := Nat.pow_le_pow_left hb.le f
    _ = (2 ^ W.bits) ^ (L * f) := (pow_mul _ _ _).symm
    _ < (2 ^ W.bits) ^ (L * f + 1) := Nat.pow_lt_pow_right hB (lt_succ_self _)

/-- The number that a result stands for; none yet is one. -/
def resultValue : Option (BigInt W) → ℤ
  | none => 1
  | some result => result.toInt

lemma natAbs_mul_self (x : BigInt W) {b e : ℕ} (h : x.mag = b ^ e) {r : BigInt W} (hr : r.toInt = x.toInt * x.toInt) :
    r.mag = b ^ (2 * e) := by
  rw [← natAbs_toInt, hr, Int.natAbs_mul, natAbs_toInt, h, two_mul, pow_add]

/-- The loop with `mul`: all that it multiplies are powers of the base, whose exponents add up to the one to reach. -/
lemma ensures_powerLoop {b L total : ℕ} (hb : b < (2 ^ W.bits) ^ L) (hT : MaxDigitLength W < L * total + 1 → T) (n : ℕ)
    (runningSquare : BigInt W) (result : Option (BigInt W)) (e f : ℕ) (hn : 0 < n) (he : 0 < e)
    (hsum : f + 2 * e * n = total) (hsquare : runningSquare.WellFormed) (hmag : runningSquare.mag = b ^ e)
    (hresult : ∀ r ∈ result, r.WellFormed ∧ r.mag = b ^ f) (hnone : result = none → f = 0) :
    Ensures (powerLoop n runningSquare result) T fun r =>
      r.WellFormed ∧ r.toInt = resultValue result * (runningSquare.toInt * runningSquare.toInt) ^ n := by
  induction n using Nat.strong_induction_on generalizing runningSquare result e f with
  | _ n ih =>
    have hdouble : 2 * e ≤ 2 * e * n := Nat.le_mul_of_pos_right _ hn
    have htotal : L * (2 * e) + L * f ≤ L * total := by
      rw [← Nat.mul_add]
      exact Nat.mul_le_mul_left _ (by omega)
    rw [powerLoop]
    have hlen := hsquare.digitLength_le_of_pow hb he hmag
    refine (ensures_mul hsquare hsquare fun h => hT ?_).bind fun square hs => ?_
    · rw [Nat.mul_left_comm] at htotal
      omega
    obtain ⟨hsquare', hval⟩ := hs
    have hmag' := natAbs_mul_self runningSquare hmag hval
    have hlen' := hsquare'.digitLength_le_of_pow hb (by omega) hmag'
    have hhalf := pow_half runningSquare.toInt (resultValue result) n
    rw [← hval] at hhalf ⊢
    -- one more factor for an odd exponent
    have hstep : Ensures (multiplyResult n result square) T fun result' =>
        (∀ r ∈ result', r.WellFormed ∧ r.mag = b ^ (f + 2 * e * (n % 2))) ∧ (result' = none → n % 2 = 0 ∧ result = none) ∧
        resultValue result' = resultValue result * square.toInt ^ (n % 2) := by
      refine .ite (fun hodd => ?_) fun heven => .pure ?_
      · rw [hodd, Nat.mul_one]
        cases result with
        | none =>
          refine .pure ⟨fun r hr => ?_, nofun, by rw [pow_one]; exact (one_mul _).symm⟩
          rw [Option.mem_some_iff] at hr
          rw [← hr, hmag', hnone rfl, Nat.zero_add]
          exact ⟨hsquare', rfl⟩
        | some result =>
          obtain ⟨hr, hrmag⟩ := hresult result rfl
          have hrlen := hr.digitLength_le_succ_of_pow hb hrmag
          refine Ensures.bind (ensures_mul hr hsquare' fun h => hT (by omega)) fun r' hr' => .pure ?_
          refine ⟨fun r hmem => ?_, nofun, by rw [pow_one]; exact hr'.2⟩
          obtain rfl : r' = r := Option.some.inj hmem
          refine ⟨hr'.1, ?_⟩
          rw [← natAbs_toInt, hr'.2, Int.natAbs_mul, natAbs_toInt, natAbs_toInt, hrmag, hmag', pow_add]
      · rw [show n % 2 = 0 by omega, Nat.mul_zero, Nat.add_zero, pow_zero, mul_one]
        exact ⟨hresult, fun h => ⟨rfl, h⟩, rfl⟩
    refine hstep.bind fun result' hr' => ?_
    obtain ⟨hresult', hnone', hvalue⟩ := hr'
    rw [← hvalue] at hhalf
    refine .ite (fun hlast => ?_) fun hmore => ?_
    · rw [hlast, pow_zero, mul_one] at hhalf
      cases result' with
      | none => exact absurd (hnone' rfl).1 (by omega)
      | some r => exact .pure ⟨(hresult' r rfl).1, hhalf.symm⟩
    · rw [hhalf]
      refine ih (n / 2) (by omega) square result' (2 * e) (f + 2 * e * (n % 2)) (by omega) (by omega) ?_ hsquare' hmag'
        hresult' fun h => ?_
      · have hsplit := mod_add_div n 2
        calc f + 2 * e * (n % 2) + 2 * (2 * e) * (n / 2) = f + 2 * e * (n % 2 + 2 * (n / 2)) := by ring
          _ = total := by rw [hsplit, hsum]
      · obtain ⟨heven, hnil⟩ := hnone' h
        rw [heven, hnone hnil, Nat.mul_zero]

/-! ## Exponentiation -/

lemma val_replicate_append (k : ℕ) (d : Digit W) : val (List.replicate k 0#_ ++ [d]) = (2 ^ W.bits) ^ k * d.toNat := by
  simp [val_concat]

lemma ensures_powerOfTwo {m n : ℕ} (hm : m < W.bits) (hn : 0 < n) (hT : MaxDigitLength W < n → T) :
    Ensures (powerOfTwo m n sign) T fun r : BigInt W => r.WellFormed ∧ r.toInt = signed sign ((2 ^ m) ^ n) := by
  have hbits := W.bits_pos
  have hmod := mod_lt (n * m) hbits
  have hbit : (1#W.bits <<< (n * m % W.bits)).toNat = 2 ^ (n * m % W.bits) := toNat_one_shiftLeft W.one_lt_bits hmod
  have hlength : 1 + n * m / W.bits ≤ n := by
    have hlt : n * m / W.bits < n :=
      Nat.div_lt_of_lt_mul (by rw [Nat.mul_comm W.bits]; exact Nat.mul_lt_mul_of_pos_left hm hn)
    omega
  unfold powerOfTwo
  refine (ensures_createUninitialized fun h => hT (h.trans_le hlength)).bind fun c hc => ?_
  refine (ensures_setDigits_all (List.replicate (1 + n * m / W.bits) 0#_)
    (by simp [hc.2.1])).bind fun c' hc' => ?_
  rw [hc', hc.1]
  refine (ensures_setDigits (by simp)).bind fun c'' hc'' => ?_
  have hslots : c''.slots = (List.replicate (n * m / W.bits) 0#_ ++ [1#_ <<< (n * m % W.bits)]).map Slot.set := by
    rw [hc'']
    simp only [map_replicate, take_replicate, drop_replicate, map_append, map_cons,
      map_nil, length_singleton, append_assoc]
    have hindex : ∀ k : ℕ, min (1 + k - 1) (1 + k) = k ∧ 1 + k - (1 + k - 1 + 1) = 0 := fun k => by omega
    rw [(hindex _).1, (hindex _).2]
    rfl
  have hcell : c'' = ⟨sign, (List.replicate (n * m / W.bits) 0#_ ++ [1#_ <<< (n * m % W.bits)]).map Slot.set⟩ := by
    rw [← hslots, hc'']
  rw [hcell]
  refine (ensures_publish _).imp ?_
  rintro r rfl
  refine ⟨⟨?_, fun h => absurd h (by simp), ?_⟩, ?_⟩
  · rw [noHighZero_concat]
    intro h0
    rw [h0, BitVec.toNat_ofNat, zero_mod] at hbit
    exact absurd hbit (by positivity)
  · change List.length _ ≤ _
    simpa [Nat.add_comm] using hc.2.2
  · rw [toInt_eq_signed]
    change signed sign (val _) = _
    rw [val_replicate_append, hbit, ← pow_mul, ← pow_add, div_add_mod, ← pow_mul, Nat.mul_comm]

lemma signed_pow (s : Bool) (m n : ℕ) : signed (s && n % 2 = 1) (m ^ n) = signed s m ^ n := by
  cases s with
  | false => simp [signed]
  | true =>
    rcases even_or_odd n with heven | hodd
    · have hmod : ¬ n % 2 = 1 := by rw [even_iff.1 heven]; decide
      simp [signed, hmod, heven.neg_pow]
    · simp [signed, odd_iff.1 hodd, hodd.neg_pow]

lemma pow_mod_half {R : Type} [CommMonoid R] (a : R) (n : ℕ) : a ^ (n % 2) * (a * a) ^ (n / 2) = a ^ n := by
  conv_rhs => rw [← mod_add_div n 2, pow_add, pow_mul, pow_two]

/-- The path in words of 64 bits, whether it comes to its end or is abandoned. -/
lemma ensures_uint64Power (hx : x.WellFormed) (hx0 : x.digits ≠ []) (hfits : x.absFitsInUint64 = true) {n : ℕ}
    (hn : 1 < n) (hT : MaxDigitLength W < x.digitLength * n + 1 → T) :
    Ensures (match uint64PowerLoop (n / 2) x.uint64FromAbsNonZero
        (if n % 2 = 1 then x.uint64FromAbsNonZero else 1#64) with
      | .done resultInt => createFromNonZeroRawUint64 resultInt (x.isNegative && n % 2 = 1)
      | .abandoned n' runningSquareInt resultInt => do
        let runningSquare ← createFromNonZeroRawUint64 runningSquareInt false
        let result ← createFromNonZeroRawUint64 resultInt (x.isNegative && n % 2 = 1)
        powerLoop n' runningSquare (some result)) T fun r : BigInt W => r.WellFormed ∧ r.toInt = x.toInt ^ n := by
  have hpos := hx.mag_pos hx0
  have hword := toNat_uint64_of_fits hfits
  have hhalf := mod_add_div n 2
  have hresult : (if n % 2 = 1 then x.uint64FromAbsNonZero else 1#64).toNat = x.mag ^ (n % 2) := by
    split
    next hodd => rw [hodd, pow_one, hword]
    next heven => rw [show n % 2 = 0 by omega, pow_zero]; rfl
  have hreaches : (uint64PowerLoop (n / 2) x.uint64FromAbsNonZero
      (if n % 2 = 1 then x.uint64FromAbsNonZero else 1#64)).Reaches x.mag n :=
    uint64PowerLoop_reaches (n / 2) _ _ 1 (n % 2) (by omega) Nat.one_pos (by rw [Nat.mul_one]; exact hhalf)
      (by rw [hword, pow_one]) hresult
  have hne : ∀ {v : BitVec 64} {k : ℕ}, v.toNat = x.mag ^ k → v ≠ 0#64 := fun h h0 => by
    rw [h0] at h
    exact (pow_pos hpos _).ne h
  generalize uint64PowerLoop _ _ _ = power at hreaches
  cases power with
  | done resultInt =>
    refine (ensures_createFromNonZeroRawUint64 (hne hreaches)).imp fun r hr => ⟨hr.1, ?_⟩
    rw [hr.2, show resultInt.toNat = x.mag ^ n from hreaches, signed_pow, toInt_eq_signed]
  | abandoned n' runningSquareInt resultInt =>
    obtain ⟨e, f, hn', he, hsum, hsquare, hresult⟩ := hreaches
    refine (ensures_createFromNonZeroRawUint64 (hne hsquare)).bind fun square hs => ?_
    refine (ensures_createFromNonZeroRawUint64 (hne hresult)).bind fun result hres => ?_
    obtain ⟨hswf, hsval⟩ := hs
    obtain ⟨hrwf, hrval⟩ := hres
    have hsmag : square.mag = x.mag ^ e := by simp [← natAbs_toInt, hsval, hsquare]
    have hrmag : result.mag = x.mag ^ f := by simp [← natAbs_toInt, hrval, hresult]
    refine (ensures_powerLoop x.mag_lt hT n' square (some result) e f hn' he hsum hswf hsmag ?_ nofun).imp
      fun r hr => ⟨hr.1, ?_⟩
    · intro r hmem
      obtain rfl : result = r := Option.some.inj hmem
      exact ⟨hrwf, hrmag⟩
    · -- the sign is that of the whole power, since the square is positive
      rw [hr.2, toInt_eq_signed x, ← signed_pow]
      change result.toInt * _ = _
      rw [hrval, hsval, hresult, hsquare, show signed false (x.mag ^ e) = ((x.mag ^ e : ℕ) : ℤ) from rfl]
      have hpow : x.mag ^ f * (x.mag ^ e * x.mag ^ e) ^ n' = x.mag ^ n := by
        rw [← pow_add, ← two_mul, ← pow_mul, ← pow_add, hsum]
      rw [← hpow]
      cases (x.isNegative && decide (n % 2 = 1)) <;> simp [signed]

/-- `pow` raises to a power; it fails with the size limit only when the digits of the base, once for each unit of the
exponent, come close to it. -/
theorem ensures_pow (hx : x.WellFormed) (hy : y.WellFormed) (hy0 : 0 ≤ y.toInt)
    (hT : MaxDigitLength W < x.digitLength * y.mag + 1 → T) :
    Ensures (pow x y) T fun r => r.WellFormed ∧ r.toInt = x.toInt ^ y.mag := by
  have hneg : y.isNegative = false := by
    rw [← Bool.not_eq_true, ← hy.toInt_neg_iff]
    omega
  have hone := toNat_one W.one_lt_bits
  unfold pow
  rw [if_neg (by rw [hneg]; exact Bool.false_ne_true)]
  refine .ite (fun h => ?_) fun hynz => .ite (fun h => ?_) fun hxnz => ?_
  · rw [hy.mag_eq_zero_iff.2 (isZero_iff.1 h), pow_zero]
    exact ensures_one
  · have hypos : 0 < y.mag := hy.mag_pos fun hnil => hynz (isZero_iff.2 hnil)
    refine .pure ⟨hx, ?_⟩
    rw [hx.toInt_eq_zero_iff.2 (isZero_iff.1 h), zero_pow hypos.ne']
  rw [isZero_iff] at hynz hxnz
  have hypos := hy.mag_pos hynz
  have hxlen : 0 < x.digitLength := length_pos_of_ne_nil hxnz
  -- the exponent's parity is that of its lowest digit
  have hparity : y.mag % 2 = (y.digit 0).toNat % 2 := by
    obtain ⟨k, hk⟩ : ∃ k, W.bits = k + 1 := ⟨W.bits - 1, by have := W.bits_pos; omega⟩
    rw [digit_toNat, pow_zero, Nat.div_one, mod_mod_of_dvd]
    exact ⟨2 ^ k, by rw [hk, pow_succ']⟩
  have hand : y.digit 0 &&& 1#_ = 0#_ ↔ (y.digit 0).toNat % 2 = 0 := by
    rw [← BitVec.toNat_inj, BitVec.toNat_and, hone, and_one_is_mod]
    simp
  refine .ite (fun hunit => ?_) fun hnotunit => ?_
  · have hmag : x.mag = 1 := by rw [mag_of_length_one hunit.1, hunit.2, hone]
    refine .ite (fun heven => ?_) fun hodd => .pure ⟨hx, ?_⟩
    · refine (ensures_neg hx).imp fun r hr => ⟨hr.1, ?_⟩
      have hmod := hand.1 heven.2
      rw [← hparity] at hmod
      rw [hr.2, toInt_of_negative heven.1, hmag, neg_neg, cast_one, (even_iff.2 hmod).neg_one_pow]
    · rw [toInt_eq_signed, hmag]
      cases hs : x.isNegative with
      | false => exact (one_pow _).symm
      | true =>
        have hmod : y.mag % 2 = 1 := by
          rw [hs] at hodd
          have hne : ¬ (y.digit 0).toNat % 2 = 0 := fun h => hodd ⟨rfl, hand.2 h⟩
          omega
        exact (Odd.neg_one_pow (odd_iff.2 hmod)).symm
  have hle : y.mag ≤ x.digitLength * y.mag := Nat.le_mul_of_pos_left _ hxlen
  have hmax : MaxDigitLength W ≤ MaxBitLength := Nat.div_le_self _ _
  refine .ite (fun hlong => .tooLarge (hT ?_)) fun hshort => ?_
  · have hlarge := hy.maxBitLength_lt_mag hlong
    omega
  have hexp : y.mag = (y.digit 0).toNat := mag_eq_digit (by rwa [isZero_iff]) hshort
  rw [hexp] at hT hypos hle ⊢
  generalize (y.digit 0) = exponent at *
  refine .ite (fun h1 => .pure ⟨hx, by rw [h1, hone, pow_one]⟩) fun h1 => ?_
  refine .ite (fun hbig => .tooLarge (hT (by omega))) fun hsmall => ?_
  have hexp1 : exponent.toNat ≠ 1 := fun h => h1 (BitVec.eq_of_toNat_eq (h.trans hone.symm))
  refine .ite (fun hpow => ?_) fun hnotpow => .ite (fun hfits => ?_) fun hwide => ?_
  · obtain ⟨k, hk⟩ := ne_zero_and_sub_one_eq_zero_iff_isPowerOfTwo.1 hpow.2
    have hlog : (x.digit 0).toNat.log2 = k := by rw [hk, log2_two_pow]
    have hkw : k < W.bits := (Nat.pow_lt_pow_iff_right (a := 2) (by decide)).1 (hk ▸ (x.digit 0).isLt)
    rw [hlog]
    refine (ensures_powerOfTwo hkw hypos fun h => hT (by omega)).imp fun r hr => ⟨hr.1, ?_⟩
    rw [hr.2, signed_pow, toInt_eq_signed, mag_of_length_one hpow.1, hk]
  · have hword := ensures_uint64Power hx hxnz hfits (show 1 < exponent.toNat by omega) hT
    simpa only [decide_eq_true_eq] using hword
  · have hhalf := mod_add_div exponent.toNat 2
    refine (ensures_powerLoop x.mag_lt hT (exponent.toNat / 2) x _ 1 (exponent.toNat % 2) (by omega) Nat.one_pos
      (by rw [Nat.mul_one]; exact hhalf) hx (pow_one _).symm ?_ ?_).imp fun r hr => ⟨hr.1, ?_⟩
    · intro r hr
      split at hr
      next hodd =>
        rw [decide_eq_true_eq] at hodd
        obtain rfl : x = r := Option.some.inj hr
        exact ⟨hx, by rw [hodd, pow_one]⟩
      next => exact nomatch hr
    · intro hnil
      split at hnil
      next => exact nomatch hnil
      next heven =>
        rw [decide_eq_true_eq] at heven
        omega
    · rw [hr.2, ← pow_mod_half x.toInt]
      congr 1
      split
      next hodd =>
        rw [decide_eq_true_eq] at hodd
        rw [hodd, pow_one]
        rfl
      next heven =>
        rw [decide_eq_true_eq] at heven
        rw [show exponent.toNat % 2 = 0 by omega, pow_zero]
        rfl

lemma pow_negative (hy : y.isNegative = true) (cx : JSContext W) (heap : Heap) :
    pow x y cx heap = .error .bigIntNegativeExponent := by
  unfold pow
  rw [if_pos hy]
  rfl

/-- **Addition, subtraction, multiplication and exponentiation are exact.**  Whichever allocations succeed, a result is
well formed and denotes the result; no digit is written outside of the cells, no assertion fails, and the size limit is
only reported where the digits that the result may need come up to it. -/
theorem arithmetic_exact (hx : x.WellFormed) (hy : y.WellFormed) :
    (Ensures (add x y) (MaxDigitLength W < max x.digitLength y.digitLength + 1) fun r =>
      r.WellFormed ∧ r.toInt = x.toInt + y.toInt) ∧
    (Ensures (sub x y) (MaxDigitLength W < max x.digitLength y.digitLength + 1) fun r =>
      r.WellFormed ∧ r.toInt = x.toInt - y.toInt) ∧
    (Ensures (mul x y) (MaxDigitLength W < x.digitLength + y.digitLength) fun r =>
      r.WellFormed ∧ r.toInt = x.toInt * y.toInt) ∧
    (0 ≤ y.toInt → Ensures (pow x y) (MaxDigitLength W < x.digitLength * y.mag + 1) fun r =>
      r.WellFormed ∧ r.toInt = x.toInt ^ y.toInt.toNat) ∧
    (y.toInt < 0 → ∀ cx heap, pow x y cx heap = .error .bigIntNegativeExponent) := by
  refine ⟨ensures_add hx hy id, ensures_sub hx hy id, ensures_mul hx hy id, fun hy0 => ?_, fun hneg cx heap => ?_⟩
  · have hmag : y.toInt.toNat = y.mag := by
      rw [← natAbs_toInt]
      omega
    rw [hmag]
    exact ensures_pow hx hy hy0 id
  · exact pow_negative (hy.toInt_neg_iff.1 hneg) cx heap

/-- The path in words of 64 bits is abandoned on the way to `(-3) ** 41`. -/
theorem arithmetic_exact_negativeThree :
    Ensures (pow (⟨true, [3#64]⟩ : BigInt .bits64) ⟨false, [41#64]⟩) (MaxDigitLength .bits64 < 42) fun r =>
      r.WellFormed ∧ r.toInt = (-3) ^ 41 :=
  (arithmetic_exact (W := .bits64) (x := ⟨true, [3#64]⟩) (y := ⟨false, [41#64]⟩) (by decide)
    (by decide)).2.2.2.1 (by decide)

end BigInt

end SpiderMonkey
