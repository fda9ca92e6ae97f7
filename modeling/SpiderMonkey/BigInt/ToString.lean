import SpiderMonkey.Lib.Numeral
import SpiderMonkey.BigInt.Div
import SpiderMonkey.BigInt.Word

/-!
# Numerals of BigInts

`BigInt::toString` and its three algorithms: bit slicing when the radix is a power of two
(`toStringBasePowerOfTwo`), repeated division of a machine word for short decimal numerals
(`toStringSingleDigitBaseTen`) and repeated division of the whole magnitude by the largest power
of the radix that fits into a digit (`toStringGeneric`).  All three fill a character buffer from
its end, so what they have in common is the effect `CharBuffer.push` of writing digits from the
low end, and each of them is shown to push exactly `Nat.digits radix mag`.

The buffer is as long as an estimate of the length of the numeral; writing in front of it is the
failure `outOfBounds`, which `ensures_toString` excludes along with every assertion of the code.
-/

namespace SpiderMonkey

open Numeral Radix List

namespace BigInt

variable {W : DigitWidth} {T : Prop} {x : BigInt W} {w : ℕ}

/-! ## The length of a numeral -/

/-- Thirty-two times the binary logarithm of the radix, rounded up. -/
def maxBitsPerCharTable : List ℕ :=
  [0, 0, 32, 51, 64, 75, 83, 90, 96, 102, 107, 111, 115, 119, 122, 126, 128, 131, 134, 136, 139, 141, 143, 145, 147,
   149, 151, 153, 154, 156, 158, 159, 160,
   162, 163, 165, 166]

def bitsPerCharTableShift : ℕ := 5

def bitsPerCharTableMultiplier : ℕ := 1 <<< bitsPerCharTableShift

def radixDigits : List Char :=
  ['0', '1', '2', '3', '4', '5', '6', '7', '8', '9', 'a', 'b', 'c', 'd', 'e', 'f', 'g', 'h',
   'i', 'j', 'k', 'l', 'm', 'n', 'o', 'p', 'q', 'r', 's', 't', 'u', 'v', 'w', 'x', 'y', 'z']

/-- `radixDigits[i]`; the terminating zero is what follows the digits. -/
def radixDigit (i : ℕ) : Char := radixDigits.getD i (Char.ofNat 0)

def MaxStringLength : ℕ := 2 ^ 30 - 2

def calculateMaximumCharactersRequired (x : BigInt W) (radix : ℕ) : ℕ :=
  let length := x.digitLength
  let lastDigit := x.digit (length - 1)
  let bitLength := length * W.bits - digitLeadingZeroes lastDigit
  let maxBitsPerChar := maxBitsPerCharTable.getD radix 0
  let maximumCharactersRequired := CeilDiv (bitsPerCharTableMultiplier * bitLength) (maxBitsPerChar - 1)
  maximumCharactersRequired + if x.isNegative then 1 else 0

/-! ## The character buffer -/

/-- A character buffer that is filled from its end: the position written last, and what has been
written from there on. -/
structure CharBuffer where
  writePos : ℕ
  chars : List Char

namespace CharBuffer

def ofLength (length : ℕ) : CharBuffer := ⟨length, []⟩

/-- `buffer[--writePos] = c`. -/
def put (buffer : CharBuffer) (c : Char) : Run W CharBuffer :=
  match buffer.writePos with
  | 0 => throw .outOfBounds
  | pos + 1 => return ⟨pos, c :: buffer.chars⟩

/-- The buffer after some digits have been written, least significant first. -/
def push (buffer : CharBuffer) (ds : List ℕ) : CharBuffer :=
  ⟨buffer.writePos - ds.length, ds.reverse.map digitChar ++ buffer.chars⟩

end CharBuffer

/-- Room for that many characters; a failure is reported as running out of memory. -/
def makeCharArray (length : ℕ) : Run W CharBuffer :=
  if length > MaxStringLength then throw .outOfMemory
  else do
    let _ ← allocate
    return .ofLength length

def newStringCopyN (chars : List Char) : Run W (List Char) := do
  let _ ← allocate
  return chars

/-- `while (digit != 0) { buffer[--pos] = char(digit); digit = next(digit); }`, which the
start of the buffer bounds. -/
def writeWhileNonZero (char : BitVec w → Char) (next : BitVec w → BitVec w) :
    ℕ → BitVec w → List Char → Run W CharBuffer
  | 0, digit, chars => if digit = 0#w then return ⟨0, chars⟩ else throw .outOfBounds
  | pos + 1, digit, chars =>
    if digit = 0#w then return ⟨pos + 1, chars⟩
    else writeWhileNonZero char next pos (next digit) (char digit :: chars)

/-- The same loop with the test at its end. -/
def writeDigits (char : BitVec w → Char) (next : BitVec w → BitVec w) (digit : BitVec w)
    (buffer : CharBuffer) : Run W CharBuffer := do
  let buffer ← buffer.put (char digit)
  writeWhileNonZero char next buffer.writePos (next digit) buffer.chars

/-! ## A radix that is a power of two -/

def IsPowerOfTwo (radix : ℕ) : Prop := radix ≠ 0 ∧ radix &&& (radix - 1) = 0

instance (radix : ℕ) : Decidable (IsPowerOfTwo radix) :=
  inferInstanceAs (Decidable (_ ∧ _))

def countTrailingZeroes32 (n : ℕ) : ℕ := (BitVec.ofNat 32 n).ctz.toNat

/-- The low bits of `digit` that `charMask` selects, as a character. -/
def maskedChar (charMask : ℕ) (digit : Digit W) : Char :=
  radixDigit (digit &&& BitVec.ofNat W.bits charMask).toNat

/-- `while (availableBits >= bitsPerChar)`. -/
def writeAvailableBits (bitsPerChar charMask : ℕ) : ℕ → Digit W → ℕ → List Char → Run W (Digit W × ℕ × CharBuffer)
  | pos, digit, availableBits, chars =>
    if availableBits ≥ bitsPerChar then
      match pos with
      | 0 => throw .outOfBounds
      | pos + 1 =>
        writeAvailableBits bitsPerChar charMask pos (digit >>> bitsPerChar)
          (availableBits - bitsPerChar) (maskedChar charMask digit :: chars)
    else return (digit, availableBits, ⟨pos, chars⟩)

/-- The characters of all digits but the most significant one, and the bits left over. -/
def writeLowDigits (bitsPerChar charMask : ℕ) :
    List (Digit W) → Digit W → ℕ → CharBuffer → Run W (Digit W × ℕ × CharBuffer)
  | [], digit, availableBits, buffer => return (digit, availableBits, buffer)
  | newDigit :: digits, digit, availableBits, buffer => do
    -- The leftover bits of the last iteration are taken into account.
    let buffer ← buffer.put (maskedChar charMask (digit ||| newDigit <<< availableBits))
    let consumedBits := bitsPerChar - availableBits
    let (digit, availableBits, buffer) ← writeAvailableBits bitsPerChar charMask buffer.writePos
      (newDigit >>> consumedBits) (W.bits - consumedBits) buffer.chars
    writeLowDigits bitsPerChar charMask digits digit availableBits buffer

def writeSign (sign : Bool) (buffer : CharBuffer) : Run W CharBuffer :=
  if sign then buffer.put '-' else return buffer

def toStringBasePowerOfTwo (x : BigInt W) (radix : ℕ) : Run W (List Char) := do
  mozAssert (IsPowerOfTwo radix)
  mozAssert (radix ≥ 2 ∧ radix ≤ 32)
  mozAssert (x.isZero = false)
  let length := x.digitLength
  let sign := x.isNegative
  let bitsPerChar := countTrailingZeroes32 radix
  let charMask := radix - 1
  let msd := x.digit (length - 1)
  let bitLength := length * W.bits - digitLeadingZeroes msd
  let charsRequired := CeilDiv bitLength bitsPerChar + if sign then 1 else 0
  let buffer ← makeCharArray charsRequired
  let (digit, availableBits, buffer) ← writeLowDigits bitsPerChar charMask
    (x.digits.take (length - 1)) 0#_ 0 buffer
  -- The character with the lowest bit of `msd` may include leftover bits of the digit below.
  let buffer ← buffer.put (maskedChar charMask (digit ||| msd <<< availableBits))
  let buffer ← writeWhileNonZero (maskedChar charMask) (· >>> bitsPerChar) buffer.writePos
    (msd >>> (bitsPerChar - availableBits)) buffer.chars
  let buffer ← writeSign sign buffer
  mozAssert (buffer.writePos = 0)
  newStringCopyN buffer.chars

/-! ## One digit in base ten -/

def MaxLengthLatin1 : ℕ := 24

def backfillIndexInCharBuffer (index : BitVec 32) (buffer : CharBuffer) : Run W CharBuffer :=
  writeDigits (fun digit => Char.ofNat ('0'.toNat + (digit % 10#32).toNat)) (· / 10#32) index buffer

/-- `Int32ToString` without its caches, which return the strings it has made before. -/
def int32ToString (si : ℤ) : Run W (List Char) := do
  let buffer ← backfillIndexInCharBuffer (BitVec.ofNat 32 si.natAbs) (.ofLength MaxLengthLatin1)
  let buffer ← writeSign (si < 0) buffer
  newStringCopyN buffer.chars

def digits10 : DigitWidth → ℕ
  | .bits32 => 9
  | .bits64 => 19

/-- The character of `digit % radix`. -/
def remainderChar (radix : ℕ) (digit : Digit W) : Char :=
  radixDigit (digit % BitVec.ofNat W.bits radix).toNat

def toStringSingleDigitBaseTen (digit : Digit W) (isNegative : Bool) : Run W (List Char) :=
  if digit.toNat ≤ 2 ^ 31 - 1 then
    int32ToString (if isNegative then -(digit.toNat : ℤ) else digit.toNat)
  else do
    let maxLength := 1 + (digits10 W + 1)
    let buffer ← writeWhileNonZero (remainderChar 10) (· / BitVec.ofNat W.bits 10)
      maxLength digit []
    mozAssert (buffer.writePos < maxLength)
    mozAssert (buffer.chars.head? ≠ some '0')
    let buffer ← writeSign isNegative buffer
    mozAssert (buffer.writePos < maxLength)
    newStringCopyN buffer.chars

/-! ## Any other radix -/

/-- The loop of `MaxPowerInDigit` and `MaxExponentInDigit`. -/
def maxPowerLoop (radix : ℕ) : ℕ → Digit W × ℕ → Digit W × ℕ
  | 0, state => state
  | fuel + 1, (result, exp) =>
    if result < BitVec.allOnes W.bits / BitVec.ofNat W.bits radix then
      maxPowerLoop radix fuel (result * BitVec.ofNat W.bits radix, exp + 1)
    else (result, exp)

structure RadixInfo (W : DigitWidth) where
  maxPowerInDigit : Digit W
  maxExponentInDigit : ℕ

def toStringInfo (W : DigitWidth) (radix : ℕ) : RadixInfo W :=
  let (maxPowerInDigit, maxExponentInDigit) := maxPowerLoop radix W.bits (1#_, 0)
  { maxPowerInDigit, maxExponentInDigit }

/-- `for (unsigned i = 0; i < chunkChars; i++)`: the characters of a chunk, and what is left. -/
def writeChunk (radix : ℕ) : ℕ → Digit W → CharBuffer → Run W (Digit W × CharBuffer)
  | 0, chunk, buffer => return (chunk, buffer)
  | chunkChars + 1, chunk, buffer => do
    let buffer ← buffer.put (remainderChar radix chunk)
    writeChunk radix chunkChars (chunk / BitVec.ofNat W.bits radix) buffer

/-- The chunks of `dividend`, and the digit that is left at its top.  `rest` is where the quotient
goes, if there is such a BigInt already.  Every round writes at least one character, so the start
of the buffer bounds their number. -/
def writeChunks (radix chunkChars : ℕ) (chunkDivisor : Digit W) :
    ℕ → BigInt W → Option (BigInt W) → ℕ → CharBuffer → Run W (Digit W × CharBuffer)
  | 0, _, _, _, _ => throw .outOfBounds
  | rounds + 1, dividend, rest, nonZeroDigit, buffer => do
    let (quotient, chunk) ←
      absoluteDivWithDigitDivisor dividend chunkDivisor (some rest) dividend.isNegative
    match quotient with
    | none => throw .assertion
    | some rest => do
      let (chunk, buffer) ← writeChunk radix chunkChars chunk buffer
      mozAssert (chunk = 0#_)
      let nonZeroDigit := if rest.digit nonZeroDigit = 0#_ then nonZeroDigit - 1 else nonZeroDigit
      mozAssert (rest.digit nonZeroDigit ≠ 0#_)
      if nonZeroDigit > 0 then
        writeChunks radix chunkChars chunkDivisor rounds rest (some rest) nonZeroDigit buffer
      else return (rest.digit 0, buffer)

/-- `while (writePos + 1 < maximumCharactersRequired && resultString[writePos] == '0')`. -/
def removeLeadingZeroes : ℕ → List Char → CharBuffer
  | writePos, c :: c' :: chars =>
    if c = '0' then removeLeadingZeroes (writePos + 1) (c' :: chars)
    else ⟨writePos, c :: c' :: chars⟩
  | writePos, chars => ⟨writePos, chars⟩

/-- The characters of all chunks, and the last digit. -/
def writeAllChunks (x : BigInt W) (radix : ℕ) (buffer : CharBuffer) : Run W (Digit W × CharBuffer) :=
  let length := x.digitLength
  if length = 1 then return (x.digit 0, buffer)
  else do
    let info := toStringInfo W radix
    mozAssert (x.digit (length - 1) ≠ 0#_)
    writeChunks radix info.maxExponentInDigit info.maxPowerInDigit buffer.writePos x none
      (length - 1) buffer

def toStringGeneric (x : BigInt W) (radix : ℕ) : Run W (List Char) := do
  mozAssert (radix ≥ 2 ∧ radix ≤ 36)
  mozAssert (x.isZero = false)
  let maximumCharactersRequired := calculateMaximumCharactersRequired x radix
  let buffer ← makeCharArray maximumCharactersRequired
  let (lastDigit, buffer) ← writeAllChunks x radix buffer
  let buffer ← writeDigits (remainderChar radix) (· / BitVec.ofNat W.bits radix) lastDigit buffer
  mozAssert (buffer.writePos < maximumCharactersRequired)
  let buffer := removeLeadingZeroes buffer.writePos buffer.chars
  let buffer ← writeSign x.isNegative buffer
  mozAssert (buffer.writePos < maximumCharactersRequired)
  newStringCopyN buffer.chars

/-- `BigInt::toString`; without garbage collection the generic algorithm is not available and
there is no string. -/
def toString (allowGC : Bool) (x : BigInt W) (radix : ℕ) : Run W (Option (List Char)) :=
  if x.isZero then return some ['0']
  else if IsPowerOfTwo radix then some <$> toStringBasePowerOfTwo x radix
  else if radix = 10 ∧ x.digitLength = 1 then
    some <$> toStringSingleDigitBaseTen (x.digit 0) x.isNegative
  else if allowGC = false then return none
  else some <$> toStringGeneric x radix

/-! ## What the loops write -/

lemma ensures_makeCharArray {length : ℕ} (h : length ≤ MaxStringLength) :
    Ensures (W := W) (makeCharArray length) T fun buffer => buffer = .ofLength length := by
  unfold makeCharArray
  rw [if_neg (Nat.not_lt_of_le h)]
  exact ensures_allocate.bind fun _ _ => .pure rfl

lemma ensures_newStringCopyN (chars : List Char) : Ensures (W := W) (newStringCopyN chars) T fun s => s = chars :=
  ensures_allocate.bind fun _ _ => .pure rfl

lemma radixDigit_eq {d : ℕ} (hd : d < 36) : radixDigit d = digitChar d := by
  have hall : ∀ d < 36, radixDigit d = digitChar d := by decide
  exact hall d hd

namespace CharBuffer

variable {buffer : CharBuffer}

@[simp] lemma push_nil : buffer.push [] = buffer := rfl

@[simp] lemma push_push (ds es : List ℕ) : (buffer.push ds).push es = buffer.push (ds ++ es) := by
  simp [push, Nat.sub_sub]

lemma push_cons (pos d : ℕ) (chars : List Char) (ds : List ℕ) : (⟨pos, digitChar d :: chars⟩ : CharBuffer).push ds =
      (⟨pos + 1, chars⟩ : CharBuffer).push (d :: ds) := by
  simp [push]

lemma ensures_put (h : 0 < buffer.writePos) (c : Char) :
    Ensures (W := W) (buffer.put c) T fun b => b = ⟨buffer.writePos - 1, c :: buffer.chars⟩ := by
  obtain ⟨pos, chars⟩ := buffer
  cases pos with
  | zero => exact absurd h (Nat.lt_irrefl 0)
  | succ pos => exact .pure rfl

lemma ensures_put_digit (h : 0 < buffer.writePos) {c : Char} {d : ℕ} (hc : c = digitChar d) :
    Ensures (W := W) (buffer.put c) T fun b => b = buffer.push [d] := by
  apply (ensures_put h c).imp
  rintro b rfl
  simp [push, hc]

end CharBuffer

section Loops

variable {r : ℕ} {char : BitVec w → Char} {next : BitVec w → BitVec w}

/-- The digits from the lowest on, until none is left. -/
lemma ensures_writeWhileNonZero (hr : 1 < r) (hchar : ∀ d, char d = digitChar (d.toNat % r))
    (hnext : ∀ d, (next d).toNat = d.toNat / r) {pos : ℕ} {digit : BitVec w} {chars : List Char}
    (hpos : (Nat.digits r digit.toNat).length ≤ pos) :
    Ensures (W := W) (writeWhileNonZero char next pos digit chars) T fun buffer =>
      buffer = (⟨pos, chars⟩ : CharBuffer).push (Nat.digits r digit.toNat) := by
  induction pos generalizing digit chars with
  | zero =>
    have hdigit : digit = 0#w := by
      have hnil : Nat.digits r digit.toNat = [] := length_eq_zero_iff.mp (Nat.le_zero.mp hpos)
      exact BitVec.eq_of_toNat_eq (by simpa using Nat.digits_eq_nil_iff_eq_zero.mp hnil)
    unfold writeWhileNonZero
    rw [if_pos hdigit, hdigit]
    exact .pure (by simp)
  | succ pos ih =>
    unfold writeWhileNonZero
    by_cases hdigit : digit = 0#w
    · rw [if_pos hdigit, hdigit]
      exact .pure (by simp)
    · have hne : digit.toNat ≠ 0 := fun h => hdigit (BitVec.eq_of_toNat_eq (by simpa using h))
      rw [Nat.digits_eq_cons_digits_div hr hne, length_cons] at hpos
      rw [if_neg hdigit, Nat.digits_eq_cons_digits_div hr hne, ← CharBuffer.push_cons, ← hchar, ← hnext]
      apply ih
      rw [hnext]
      exact Nat.le_of_succ_le_succ hpos

lemma ensures_writeDigits (hr : 1 < r) (hchar : ∀ d, char d = digitChar (d.toNat % r))
    (hnext : ∀ d, (next d).toNat = d.toNat / r) {digit : BitVec w} (hdigit : digit.toNat ≠ 0)
    {buffer : CharBuffer} (hpos : (Nat.digits r digit.toNat).length ≤ buffer.writePos) :
    Ensures (W := W) (writeDigits char next digit buffer) T fun b =>
      b = buffer.push (Nat.digits r digit.toNat) := by
  rw [Nat.digits_eq_cons_digits_div hr hdigit, length_cons] at hpos
  unfold writeDigits
  apply (CharBuffer.ensures_put_digit (by omega) (hchar digit)).bind
  rintro _ rfl
  have hrest : (Nat.digits r (next digit).toNat).length ≤ (buffer.push [digit.toNat % r]).writePos := by
    rw [hnext]
    simp only [CharBuffer.push, length_singleton]
    omega
  apply (ensures_writeWhileNonZero hr hchar hnext hrest).imp
  rintro _ rfl
  rw [hnext, Nat.digits_eq_cons_digits_div hr hdigit]
  exact CharBuffer.push_push _ _

end Loops

lemma toNat_div_ofNat {n : ℕ} (hn : n < 2 ^ w) (d : BitVec w) : (d / BitVec.ofNat w n).toNat = d.toNat / n := by
  simp [Nat.mod_eq_of_lt hn]

lemma toNat_mod_ofNat {n : ℕ} (hn : n < 2 ^ w) (d : BitVec w) : (d % BitVec.ofNat w n).toNat = d.toNat % n := by
  simp [Nat.mod_eq_of_lt hn]

lemma radix_lt_two_pow {n : ℕ} (hn : n ≤ 36) : n < 2 ^ W.bits := by
  have : 2 ^ 32 ≤ 2 ^ W.bits := by
    apply Nat.pow_le_pow_right (by norm_num)
    cases W <;> decide
  omega

lemma remainderChar_eq {radix : ℕ} (hr : 0 < radix) (hr' : radix ≤ 36) (d : Digit W) :
    remainderChar radix d = digitChar (d.toNat % radix) := by
  have := Nat.mod_lt d.toNat hr
  rw [remainderChar, toNat_mod_ofNat (radix_lt_two_pow hr'), radixDigit_eq (by omega)]

lemma ensures_writeSign {sign : Bool} {buffer : CharBuffer} (h : (if sign then 1 else 0) ≤ buffer.writePos) :
    Ensures (W := W) (writeSign sign buffer) T fun b =>
      b.writePos = buffer.writePos - (if sign then 1 else 0) ∧
      b.chars = (if sign then ['-'] else []) ++ buffer.chars := by
  unfold writeSign
  cases sign with
  | false => exact .pure ⟨rfl, rfl⟩
  | true =>
    apply (CharBuffer.ensures_put h '-').imp
    simp

/-! ### Bit slicing -/

section BitSlicing

variable {b : ℕ}

lemma maskedChar_eq (hb : b ≤ 5) (d : Digit W) : maskedChar (2 ^ b - 1) d = digitChar (d.toNat % 2 ^ b) := by
  have hr : 2 ^ b ≤ 2 ^ 5 := Nat.pow_le_pow_right (by norm_num) hb
  have hmask := radix_lt_two_pow (W := W) (n := 2 ^ b - 1) (by omega)
  have hlt := Nat.mod_lt d.toNat (Nat.two_pow_pos b)
  rw [maskedChar, BitVec.toNat_and, BitVec.toNat_ofNat, Nat.mod_eq_of_lt hmask,
    Nat.and_two_pow_sub_one_eq_mod, radixDigit_eq (by omega)]

lemma toNat_shiftRight (d : BitVec w) (k : ℕ) : (d >>> k).toNat = d.toNat / 2 ^ k := by
  simp [Nat.shiftRight_eq_div_pow]

/-- The bits left over from one digit, followed by those of the next: the character they begin
with, and what follows it. -/
lemma leftover_spec {available : ℕ} (ha : available < b) (hb : b ≤ w) {digit : BitVec w}
    (hdigit : digit.toNat < 2 ^ available) (newDigit : BitVec w) :
    (digit ||| newDigit <<< available).toNat % 2 ^ b = (digit.toNat + 2 ^ available * newDigit.toNat) % 2 ^ b ∧
    (newDigit >>> (b - available)).toNat = (digit.toNat + 2 ^ available * newDigit.toNat) / 2 ^ b := by
  constructor
  · have hshift := toNat_shiftLeft_or (show available ≤ w by omega) newDigit digit hdigit
    have hpow : 2 ^ w = 2 ^ b * 2 ^ (w - b) := by rw [← pow_add]; congr 1; omega
    rw [hpow, Nat.mul_assoc] at hshift
    simp [BitVec.or_comm, Nat.add_comm digit.toNat, Nat.mul_comm (2 ^ available), ← hshift]
  · have hpow : 2 ^ b = 2 ^ available * 2 ^ (b - available) := by rw [← pow_add]; congr 1; omega
    rw [toNat_shiftRight, hpow, ← Nat.div_div_eq_div_mul,
      Nat.add_mul_div_left _ _ (Nat.two_pow_pos _), Nat.div_eq_of_lt hdigit, Nat.zero_add]

/-- As many characters as the available bits make up. -/
lemma ensures_writeAvailableBits (hb : 0 < b) (hb' : b ≤ 5) {pos : ℕ} {digit : Digit W}
    {available : ℕ} {chars : List Char} (hpos : available / b ≤ pos) :
    Ensures (writeAvailableBits b (2 ^ b - 1) pos digit available chars) T fun out =>
      out.1.toNat = digit.toNat / (2 ^ b) ^ (available / b) ∧ out.2.1 = available % b ∧
      out.2.2 = (⟨pos, chars⟩ : CharBuffer).push
        (lowDigits (2 ^ b) (available / b) digit.toNat) := by
  induction pos generalizing digit available chars with
  | zero =>
    have hlt : available < b := by
      by_contra h
      exact absurd hpos (Nat.not_le_of_lt (Nat.div_pos (Nat.le_of_not_lt h) hb))
    unfold writeAvailableBits
    rw [if_neg (Nat.not_le_of_lt hlt), Nat.div_eq_of_lt hlt, Nat.mod_eq_of_lt hlt]
    exact .pure ⟨by simp, rfl, rfl⟩
  | succ pos ih =>
    unfold writeAvailableBits
    by_cases hle : b ≤ available
    · have hdiv : available / b = (available - b) / b + 1 := Nat.div_eq_sub_div hb hle
      rw [if_pos hle]
      refine Ensures.imp (ih (by omega)) ?_
      rintro ⟨digit', available', buffer⟩ ⟨hdigit, havailable, hbuffer⟩
      refine ⟨?_, ?_, ?_⟩
      · rw [hdigit, toNat_shiftRight, hdiv, pow_succ', Nat.div_div_eq_div_mul]
      · rw [havailable, ← Nat.mod_eq_sub_mod hle]
      · simp only at hbuffer ⊢
        rw [hbuffer, maskedChar_eq hb', CharBuffer.push_cons, hdiv, lowDigits, toNat_shiftRight]
    · have hlt := Nat.lt_of_not_le hle
      rw [if_neg hle, Nat.div_eq_of_lt hlt, Nat.mod_eq_of_lt hlt]
      exact .pure ⟨by simp, rfl, rfl⟩

lemma newDigit_bits {available : ℕ} (hb : 0 < b) (ha : available < b) (hw : b ≤ w) :
    (available + w) / b = (w - (b - available)) / b + 1 ∧
    (available + w) % b = (w - (b - available)) % b := by
  have hsub : available + w - b = w - (b - available) := by omega
  have hle : b ≤ available + w := by omega
  constructor
  · rw [Nat.div_eq_sub_div hb hle, hsub]
  · rw [Nat.mod_eq_sub_mod hle, hsub]

lemma cons_bits (hb : 0 < b) (available n : ℕ) : (available + w * (n + 1)) / b =
      (available + w) / b + ((available + w) % b + w * n) / b ∧
    (available + w * (n + 1)) % b = ((available + w) % b + w * n) % b := by
  have hbits : available + w * (n + 1) = b * ((available + w) / b) + ((available + w) % b + w * n) := by
    have := Nat.div_add_mod (available + w) b
    rw [Nat.mul_add, Nat.mul_one]
    omega
  constructor
  · rw [hbits, Nat.mul_add_div hb]
  · simp [hbits]

lemma cons_value (digit available : ℕ) (newDigit : BitVec w) (digits : List (BitVec w)) :
    digit + 2 ^ available * val (newDigit :: digits) = digit + 2 ^ available * newDigit.toNat +
        (2 ^ b) ^ ((available + w) / b) * (2 ^ ((available + w) % b) * val digits) := by
  have hpow : 2 ^ available * 2 ^ w = (2 ^ b) ^ ((available + w) / b) * 2 ^ ((available + w) % b) := by
    simp [← pow_mul, ← pow_add, Nat.div_add_mod]
  rw [val_cons]
  linear_combination val digits * hpow

lemma leftover_lt {digit available : ℕ} (hdigit : digit < 2 ^ available) (newDigit : BitVec w) :
    (digit + 2 ^ available * newDigit.toNat) / (2 ^ b) ^ ((available + w) / b) < 2 ^ ((available + w) % b) := by
  have hpow : 2 ^ ((available + w) % b) * (2 ^ b) ^ ((available + w) / b) = 2 ^ available * 2 ^ w := by
    simp [← pow_mul, ← pow_add, Nat.mod_add_div]
  rw [Nat.div_lt_iff_lt_mul (by positivity), hpow]
  calc digit + 2 ^ available * newDigit.toNat
      < 2 ^ available * (newDigit.toNat + 1) := by rw [Nat.mul_add]; omega
    _ ≤ 2 ^ available * 2 ^ w := Nat.mul_le_mul_left _ newDigit.isLt

/-- The characters that `available` bits in front of some whole digits make up. -/
lemma ensures_writeLowDigits (hb : 0 < b) (hb' : b ≤ 5) {digits : List (Digit W)}
    {digit : Digit W} {available : ℕ} {buffer : CharBuffer} (ha : available < b)
    (hdigit : digit.toNat < 2 ^ available)
    (hpos : (available + W.bits * digits.length) / b ≤ buffer.writePos) :
    Ensures (writeLowDigits b (2 ^ b - 1) digits digit available buffer) T fun out =>
      out.1.toNat = (digit.toNat + 2 ^ available * val digits) /
        (2 ^ b) ^ ((available + W.bits * digits.length) / b) ∧
      out.2.1 = (available + W.bits * digits.length) % b ∧
      out.2.2 = buffer.push (lowDigits (2 ^ b) ((available + W.bits * digits.length) / b)
        (digit.toNat + 2 ^ available * val digits)) := by
  have hw : b ≤ W.bits := by rcases W.bits_eq with h | h <;> omega
  induction digits generalizing digit available buffer with
  | nil =>
    unfold writeLowDigits
    simpa [Nat.div_eq_of_lt ha, Nat.mod_eq_of_lt ha] using .pure ⟨rfl, rfl, rfl⟩
  | cons newDigit digits ih =>
    obtain ⟨hcurrent, hrest⟩ := leftover_spec ha hw hdigit newDigit
    obtain ⟨hdiv₁, hmod₁⟩ := newDigit_bits hb ha hw
    obtain ⟨hdiv, hmod⟩ := cons_bits (w := W.bits) hb available digits.length
    have hlt := leftover_lt (b := b) hdigit newDigit
    rw [length_cons, hdiv] at hpos
    rw [length_cons, hdiv, hmod, cons_value (b := b)]
    -- The number made up of the leftover bits and the new digit.
    generalize digit.toNat + 2 ^ available * newDigit.toNat = n at hcurrent hrest hlt ⊢
    have hpos₀ : (W.bits - (b - available)) / b + 1 ≤ buffer.writePos := by
      rw [← hdiv₁]
      exact (Nat.le_add_right _ _).trans hpos
    unfold writeLowDigits
    apply (CharBuffer.ensures_put_digit (Nat.zero_lt_of_lt hpos₀) (maskedChar_eq hb' _)).bind
    rintro _ rfl
    have hpos₁ : (W.bits - (b - available)) / b ≤
        (buffer.push [(digit ||| newDigit <<< available).toNat % 2 ^ b]).writePos :=
      Nat.le_sub_one_of_lt hpos₀
    apply (ensures_writeAvailableBits hb hb' hpos₁).bind
    rintro ⟨digit', available', buffer'⟩ ⟨hdigit', rfl, rfl⟩
    rw [hrest, Nat.div_div_eq_div_mul, ← pow_succ', ← hdiv₁] at hdigit'
    have hpush : (buffer.push [(digit ||| newDigit <<< available).toNat % 2 ^ b]).push
        (lowDigits (2 ^ b) ((W.bits - (b - available)) / b)
          (newDigit >>> (b - available)).toNat) =
        buffer.push (lowDigits (2 ^ b) ((available + W.bits) / b) n) := by
      rw [CharBuffer.push_push, hcurrent, hrest, hdiv₁]
      rfl
    have hsplit : ∀ m, (n + (2 ^ b) ^ ((available + W.bits) / b) * m) /
        (2 ^ b) ^ ((available + W.bits) / b) = digit'.toNat + m := by
      intro m
      rw [Nat.add_mul_div_left _ _ (by positivity), hdigit']
    rw [← hmod₁]
    have hpos₂ : ((available + W.bits) % b + W.bits * digits.length) / b ≤
        (buffer.push (lowDigits (2 ^ b) ((available + W.bits) / b) n)).writePos := by
      simp only [CharBuffer.push, length_lowDigits]
      omega
    rw [← hpush] at hpos₂
    apply (ih (Nat.mod_lt _ hb) (by rw [hdigit']; exact hlt) hpos₂).imp
    rintro ⟨digit'', available'', buffer''⟩ ⟨hdigit'', havailable'', hbuffer''⟩
    refine ⟨?_, havailable'', ?_⟩
    · rw [hdigit'', pow_add, ← Nat.div_div_eq_div_mul, hsplit]
    · rw [hbuffer'', hpush, CharBuffer.push_push, lowDigits_add, lowDigits_add_mul (by positivity), hsplit]

/-- What the low digits leave over in front of the most significant one, and the characters they
complete. -/
lemma concat_value (low : List (BitVec w)) {msd : BitVec w} (hmsd : 0 < msd.toNat) :
    (val low + 2 ^ (w * low.length) * msd.toNat) / (2 ^ b) ^ (w * low.length / b) =
      val low / (2 ^ b) ^ (w * low.length / b) + 2 ^ (w * low.length % b) * msd.toNat ∧
    (val low + 2 ^ (w * low.length) * msd.toNat) / (2 ^ b) ^ (w * low.length / b) ≠ 0 ∧
    lowDigits (2 ^ b) (w * low.length / b) (val low + 2 ^ (w * low.length) * msd.toNat) =
      lowDigits (2 ^ b) (w * low.length / b) (val low) := by
  have hsplit : 2 ^ (w * low.length) * msd.toNat =
      (2 ^ b) ^ (w * low.length / b) * (2 ^ (w * low.length % b) * msd.toNat) := by
    rw [← Nat.mul_assoc, ← pow_mul, ← pow_add, Nat.div_add_mod]
  have hdiv : (val low + 2 ^ (w * low.length) * msd.toNat) / (2 ^ b) ^ (w * low.length / b) =
      val low / (2 ^ b) ^ (w * low.length / b) + 2 ^ (w * low.length % b) * msd.toNat := by
    rw [hsplit, Nat.add_mul_div_left _ _ (by positivity)]
  have hpos : 0 < 2 ^ (w * low.length % b) * msd.toNat := by positivity
  refine ⟨hdiv, ?_, ?_⟩
  · rw [hdiv]
    exact (Nat.add_pos_right _ hpos).ne'
  · rw [hsplit, lowDigits_add_mul (by positivity)]

end BitSlicing

/-! ## The algorithms -/

lemma WellFormed.numeral_toInt (hx : x.WellFormed) (radix : ℕ) :
    numeral radix x.toInt = (if x.isNegative then ['-'] else []) ++ magnitude radix x.mag := by
  have hneg := hx.toInt_neg_iff
  unfold numeral
  rw [natAbs_toInt]
  cases h : x.isNegative with
  | false => rw [if_neg (by rw [hneg, h]; decide)]; rfl
  | true => rw [if_pos (hneg.mpr h)]; rfl

lemma magnitude_of_ne_zero {radix n : ℕ} (hn : n ≠ 0) :
    magnitude radix n = (Nat.digits radix n).reverse.map digitChar := if_neg hn

lemma CeilDiv_le (n d : ℕ) : CeilDiv n d ≤ 1 + n := Nat.add_le_add_left ((Nat.div_le_self _ _).trans (Nat.sub_le _ _)) 1

lemma isPowerOfTwo_spec {radix : ℕ} (hr : 2 ≤ radix) (hr' : radix ≤ 36) (h : IsPowerOfTwo radix) :
    radix = 2 ^ countTrailingZeroes32 radix ∧ 0 < countTrailingZeroes32 radix ∧
    countTrailingZeroes32 radix ≤ 5 := by
  have hall : ∀ radix ≤ 36, 2 ≤ radix → IsPowerOfTwo radix →
      radix = 2 ^ countTrailingZeroes32 radix ∧ 0 < countTrailingZeroes32 radix ∧
      countTrailingZeroes32 radix ≤ 5 := by decide +kernel
  exact hall radix hr' hr h

/-- A numeral in base `2^b` has as many digits as `b` bits go into the bit length. -/
lemma WellFormed.length_digits_two_pow (hx : x.WellFormed) (h : x.digits ≠ []) {b : ℕ}
    (hb : 0 < b) : (Nat.digits (2 ^ b) x.mag).length = CeilDiv x.bitLength b := by
  obtain ⟨hpos, hlow, hhigh⟩ := hx.bitLength_spec h
  have hdiv := Nat.div_add_mod (x.bitLength - 1) b
  have hmod := Nat.mod_lt (x.bitLength - 1) hb
  unfold CeilDiv
  rw [Nat.add_comm]
  apply length_digits_of_bounds (Nat.one_lt_two_pow hb.ne')
  · calc (2 ^ b) ^ ((x.bitLength - 1) / b) = 2 ^ (b * ((x.bitLength - 1) / b)) := (pow_mul _ _ _).symm
      _ ≤ 2 ^ (x.bitLength - 1) := Nat.pow_le_pow_right (by norm_num) (Nat.mul_div_le _ _)
      _ ≤ x.mag := hlow
  · calc x.mag < 2 ^ x.bitLength := hhigh
      _ ≤ 2 ^ (b * ((x.bitLength - 1) / b + 1)) := by
          apply Nat.pow_le_pow_right (by norm_num)
          rw [Nat.mul_add, Nat.mul_one]
          omega
      _ = (2 ^ b) ^ ((x.bitLength - 1) / b + 1) := pow_mul _ _ _

lemma WellFormed.ensures_writeSign (hx : x.WellFormed) (h : x.digits ≠ []) {radix length : ℕ}
    (hlength : (Nat.digits radix x.mag).length + (if x.isNegative then 1 else 0) ≤ length) :
    Ensures (W := W)
      (writeSign x.isNegative ((CharBuffer.ofLength length).push (Nat.digits radix x.mag))) T
      fun b => b.writePos = length - (Nat.digits radix x.mag).length - (if x.isNegative then 1 else 0) ∧
        b.chars = numeral radix x.toInt := by
  have hroom : (if x.isNegative then 1 else 0) ≤
      ((CharBuffer.ofLength length).push (Nat.digits radix x.mag)).writePos := by
    simp only [CharBuffer.push, CharBuffer.ofLength]
    omega
  apply (BigInt.ensures_writeSign hroom).imp
  rintro b ⟨hpos, hchars⟩
  refine ⟨hpos, ?_⟩
  rw [hchars, hx.numeral_toInt, magnitude_of_ne_zero (hx.mag_pos h).ne']
  simp [CharBuffer.push, CharBuffer.ofLength]

lemma ensures_toStringBasePowerOfTwo (hx : x.WellFormed) (h : x.digits ≠ []) {radix : ℕ}
    (hr : 2 ≤ radix) (hr' : radix ≤ 36) (hpow : IsPowerOfTwo radix) :
    Ensures (toStringBasePowerOfTwo x radix) T fun s => s = numeral radix x.toInt := by
  obtain ⟨hradix, hb, hb'⟩ := isPowerOfTwo_spec hr hr' hpow
  have hle : radix ≤ 32 := by
    rw [hradix]
    exact Nat.pow_le_pow_right (by norm_num) hb'
  have hlen := hx.length_digits_two_pow h hb
  have hmax := hx.bitLength_le_max h
  obtain ⟨low, hlow, hlowlen⟩ := exists_msd h
  have hmsd := hx.msd_ne_zero h
  unfold toStringBasePowerOfTwo
  simp only [hx.bitLength_eq h]
  apply (ensures_mozAssert hpow).bind
  intro _ _
  apply (ensures_mozAssert ⟨hr, hle⟩).bind
  intro _ _
  apply (ensures_mozAssert (isZero_eq_false_iff.mpr h)).bind
  intro _ _
  generalize hbdef : countTrailingZeroes32 radix = b at *
  have htake : x.digits.take (x.digitLength - 1) = low := by
    rw [hlow, ← hlowlen, take_left' rfl]
  have hmsdmag : x.mag = val low + 2 ^ (W.bits * low.length) * (x.digit (x.digitLength - 1)).toNat := by
    rw [pow_mul, ← val_concat, ← hlow]
    rfl
  rw [htake]
  generalize hmsddef : x.digit (x.digitLength - 1) = msd at *
  apply (ensures_makeCharArray ?_).bind
  swap
  · have := CeilDiv_le x.bitLength b
    unfold MaxBitLength at hmax
    unfold MaxStringLength
    split <;> omega
  rintro _ rfl
  have hmsdpos : 0 < msd.toNat := Nat.pos_of_ne_zero fun h0 =>
    hmsd (BitVec.eq_of_toNat_eq (by simpa using h0))
  have hr1 : 1 < 2 ^ b := Nat.one_lt_two_pow hb.ne'
  obtain ⟨htop, htopne, hlowdigits⟩ := concat_value (b := b) low hmsdpos
  rw [← hmsdmag] at htop htopne hlowdigits
  set k := W.bits * low.length / b with hk
  have hdigits := digits_eq_lowDigits_append hr1 htopne
  rw [Nat.digits_eq_cons_digits_div hr1 htopne] at hdigits
  have hcount := congrArg List.length hdigits
  rw [List.length_append, length_cons, length_lowDigits, hlen] at hcount
  set buffer := CharBuffer.ofLength (CeilDiv x.bitLength b + if x.isNegative then 1 else 0)
    with hbufferdef
  have hroom : CeilDiv x.bitLength b ≤ buffer.writePos := Nat.le_add_right _ _
  rw [show radix - 1 = 2 ^ b - 1 by rw [← hradix]]
  apply (ensures_writeLowDigits hb hb' hb (by simp) (by rw [Nat.zero_add]; omega)).bind
  rintro ⟨digit, available, buffer'⟩ ⟨hdigit, rfl, rfl⟩
  simp only [BitVec.toNat_ofNat, Nat.zero_mod, Nat.zero_add, pow_zero, Nat.one_mul] at hdigit ⊢
  rw [← hk] at hdigit ⊢
  -- The most significant digit.
  have hdigitlt : digit.toNat < 2 ^ (W.bits * low.length % b) := by
    rw [hdigit, Nat.div_lt_iff_lt_mul (by positivity), ← pow_mul, ← pow_add, hk, Nat.mod_add_div, pow_mul]
    exact val_lt low
  have hbw : b ≤ W.bits := by rcases W.bits_eq with h | h <;> omega
  obtain ⟨hcurrent, hrest⟩ := leftover_spec (Nat.mod_lt _ hb) hbw hdigitlt msd
  rw [hdigit, ← htop] at hcurrent hrest
  have hpos₁ : 0 < (buffer.push (lowDigits (2 ^ b) k (val low))).writePos := by
    simp only [CharBuffer.push, length_lowDigits]
    omega
  apply (CharBuffer.ensures_put_digit hpos₁ (maskedChar_eq hb' _)).bind
  rintro _ rfl
  rw [CharBuffer.push_push, hcurrent]
  have hpos₂ : (Nat.digits (2 ^ b) (msd >>> (b - W.bits * low.length % b)).toNat).length ≤
      (buffer.push (lowDigits (2 ^ b) k (val low) ++ [x.mag / (2 ^ b) ^ k % 2 ^ b])).writePos := by
    rw [hrest]
    simp only [CharBuffer.push, List.length_append, length_lowDigits, length_singleton]
    omega
  apply (ensures_writeWhileNonZero hr1 (maskedChar_eq hb') (fun d => toNat_shiftRight d b) hpos₂).bind
  rintro _ rfl
  have hbuffer : (buffer.push (lowDigits (2 ^ b) k (val low) ++ [x.mag / (2 ^ b) ^ k % 2 ^ b])).push
        (Nat.digits (2 ^ b) (msd >>> (b - W.bits * low.length % b)).toNat) =
      buffer.push (Nat.digits radix x.mag) := by
    rw [hrest, CharBuffer.push_push, append_assoc, singleton_append, ← hlowdigits, ← hdigits, hradix]
  have hlen' : (Nat.digits radix x.mag).length = CeilDiv x.bitLength b := by rw [hradix, hlen]
  rw [hbuffer]
  apply (hx.ensures_writeSign h (by rw [hlen'])).bind
  rintro signed ⟨hpos, hchars⟩
  rw [hlen'] at hpos
  apply (ensures_mozAssert (by omega)).bind
  intro _ _
  rw [hchars]
  exact ensures_newStringCopyN _

/-! ### One digit -/

lemma digits10_spec (W : DigitWidth) : 2 ^ W.bits ≤ 10 ^ (digits10 W + 1) := by
  cases W <;> decide

lemma head_push_digits {radix : ℕ} (hr : 1 < radix) (hr' : radix ≤ 36) {n : ℕ} (hn : n ≠ 0) (length : ℕ) :
    ((CharBuffer.ofLength length).push (Nat.digits radix n)).chars.head? ≠ some '0' := by
  have hchars : ((CharBuffer.ofLength length).push (Nat.digits radix n)).chars = magnitude radix n := by
    rw [magnitude_of_ne_zero hn]
    simp [CharBuffer.push, CharBuffer.ofLength]
  rw [hchars, head?_eq_some_head (magnitude_ne_nil n)]
  exact fun h => magnitude_head_ne hr hr' hn (Option.some.inj h)

lemma decimalChar_eq (d : BitVec 32) : Char.ofNat ('0'.toNat + (d % 10#32).toNat) = digitChar (d.toNat % 10) := by
  have hmod : (d % 10#32).toNat = d.toNat % 10 := toNat_mod_ofNat (by norm_num) d
  have := Nat.mod_lt d.toNat (show 0 < 10 by norm_num)
  simp [digitChar, this]

lemma length_digits_ten_le {n m : ℕ} (h : n < 10 ^ m) : (Nat.digits 10 n).length ≤ m :=
  (Nat.digits_length_le_iff (by norm_num) n).mpr h

lemma ensures_int32ToString (hx : x.WellFormed) (h : x.digits ≠ []) (hlt : x.mag < 2 ^ 31) :
    Ensures (W := W) (int32ToString x.toInt) T fun s => s = numeral 10 x.toInt := by
  have hmag := (hx.mag_pos h).ne'
  have hindex : (BitVec.ofNat 32 x.toInt.natAbs).toNat = x.mag := by
    rw [natAbs_toInt, BitVec.toNat_ofNat, Nat.mod_eq_of_lt (by omega)]
  have hlen : (Nat.digits 10 x.mag).length ≤ 10 := length_digits_ten_le (hlt.trans (by norm_num))
  have hsign : decide (x.toInt < 0) = x.isNegative := by
    rw [Bool.eq_iff_iff, decide_eq_true_iff, hx.toInt_neg_iff]
  unfold int32ToString backfillIndexInCharBuffer
  rw [hsign]
  apply (ensures_writeDigits (by norm_num) decimalChar_eq
    (fun d => toNat_div_ofNat (n := 10) (by norm_num) d) (by rwa [hindex])
    (by rw [hindex]; exact hlen.trans (by decide))).bind
  rintro _ rfl
  rw [hindex]
  have hroom : (Nat.digits 10 x.mag).length + (if x.isNegative then 1 else 0) ≤ MaxLengthLatin1 := by
    unfold MaxLengthLatin1
    split <;> omega
  apply (hx.ensures_writeSign h hroom).bind
  rintro signed ⟨-, hchars⟩
  rw [hchars]
  exact ensures_newStringCopyN _

lemma ensures_toStringSingleDigitBaseTen (hx : x.WellFormed) (hlen : x.digitLength = 1) :
    Ensures (toStringSingleDigitBaseTen (x.digit 0) x.isNegative) T
      fun s => s = numeral 10 x.toInt := by
  have h : x.digits ≠ [] := length_pos_iff.mp (show 0 < x.digitLength by omega)
  have hmag := (hx.mag_pos h).ne'
  have hdigit := mag_of_length_one hlen
  have htoInt : (if x.isNegative then -((x.digit 0).toNat : ℤ) else (x.digit 0).toNat) =
      x.toInt := by rw [toInt, hdigit]
  have hlength : (Nat.digits 10 x.mag).length ≤ digits10 W + 1 := by
    apply length_digits_ten_le
    calc x.mag < 2 ^ W.bits := by rw [hdigit]; exact (x.digit 0).isLt
      _ ≤ 10 ^ (digits10 W + 1) := digits10_spec W
  unfold toStringSingleDigitBaseTen
  rw [htoInt]
  refine .ite (fun hle => ensures_int32ToString hx h (by omega)) fun _ => ?_
  have hten := radix_lt_two_pow (W := W) (n := 10) (by norm_num)
  apply (ensures_writeWhileNonZero (by norm_num) (remainderChar_eq (by norm_num) (by norm_num))
    (toNat_div_ofNat hten) (by rw [← hdigit]; omega)).bind
  rintro _ rfl
  rw [← hdigit]
  have hpos : 0 < (Nat.digits 10 x.mag).length := length_pos_iff.mpr (Nat.digits_ne_nil_iff_ne_zero.mpr hmag)
  apply (ensures_mozAssert (by simp only [CharBuffer.push]; omega)).bind
  intro _ _
  apply (ensures_mozAssert (head_push_digits (by norm_num) (by norm_num) hmag _)).bind
  intro _ _
  apply (hx.ensures_writeSign h (by split <;> omega)).bind
  rintro signed ⟨hsigned, hchars⟩
  apply (ensures_mozAssert (by omega)).bind
  intro _ _
  rw [hchars]
  exact ensures_newStringCopyN _

/-! ### Chunks -/

section Chunks

variable {radix : ℕ}

/-- The loop keeps a power of the radix and the exponent, and its fuel suffices. -/
lemma maxPowerLoop_spec (hr : 2 ≤ radix) (hr' : radix ≤ 36) {fuel : ℕ} {state : Digit W × ℕ}
    (hstate : state.1.toNat = radix ^ state.2) (hfuel : W.bits ≤ state.2 + fuel) :
    (maxPowerLoop radix fuel state).1.toNat = radix ^ (maxPowerLoop radix fuel state).2 ∧
    state.2 ≤ (maxPowerLoop radix fuel state).2 ∧
    (2 ^ W.bits - 1) / radix ≤ (maxPowerLoop radix fuel state).1.toNat := by
  have hB := radix_lt_two_pow (W := W) hr'
  induction fuel generalizing state with
  | zero =>
    have hle : 2 ^ W.bits ≤ state.1.toNat := by
      rw [hstate]
      calc 2 ^ W.bits ≤ 2 ^ state.2 := Nat.pow_le_pow_right (by norm_num) hfuel
        _ ≤ radix ^ state.2 := Nat.pow_le_pow_left hr _
    exact absurd state.1.isLt (Nat.not_lt_of_le hle)
  | succ fuel ih =>
    obtain ⟨result, exp⟩ := state
    have hbound : (BitVec.allOnes W.bits / BitVec.ofNat W.bits radix).toNat = (2 ^ W.bits - 1) / radix := by
      simp [toNat_div_ofNat hB]
    unfold maxPowerLoop
    split_ifs with hlt
    · rw [BitVec.lt_def, hbound] at hlt
      have hmul : result.toNat * radix < 2 ^ W.bits := by
        have := (Nat.le_div_iff_mul_le (show 0 < radix by omega)).mp hlt.le
        omega
      have hnext : (result * BitVec.ofNat W.bits radix).toNat = radix ^ (exp + 1) := by
        rw [BitVec.toNat_mul, BitVec.toNat_ofNat, Nat.mod_eq_of_lt hB, Nat.mod_eq_of_lt hmul, pow_succ, ← hstate]
      simp only at hfuel
      obtain ⟨hpow, hexp, hstop⟩ := @ih (result * BitVec.ofNat W.bits radix, exp + 1)
        hnext (by simp only; omega)
      exact ⟨hpow, (Nat.le_succ exp).trans hexp, hstop⟩
    · rw [BitVec.lt_def, hbound] at hlt
      exact ⟨hstate, le_refl _, Nat.le_of_not_lt hlt⟩

/-- The chunk divisor is a power of the radix, and a proper one. -/
lemma toStringInfo_spec (hr : 2 ≤ radix) (hr' : radix ≤ 36) : (toStringInfo W radix).maxPowerInDigit.toNat =
      radix ^ (toStringInfo W radix).maxExponentInDigit ∧
    1 < (toStringInfo W radix).maxPowerInDigit.toNat ∧
    0 < (toStringInfo W radix).maxExponentInDigit := by
  have hone : ((1#_, 0) : Digit W × ℕ).1.toNat = radix ^ 0 := toNat_one W.one_lt_bits
  obtain ⟨hpow, -, hstop⟩ := maxPowerLoop_spec hr hr' hone
    (show W.bits ≤ 0 + W.bits by simp)
  change _ ≤ (toStringInfo W radix).maxPowerInDigit.toNat at hstop
  have hlarge : 1 < (2 ^ W.bits - 1) / radix := by
    have h32 : 2 ^ 32 ≤ 2 ^ W.bits := by
      apply Nat.pow_le_pow_right (by norm_num)
      cases W <;> decide
    apply (Nat.le_div_iff_mul_le (show 0 < radix by omega)).mpr
    omega
  refine ⟨hpow, lt_of_lt_of_le hlarge hstop, Nat.pos_of_ne_zero fun h0 => ?_⟩
  change (toStringInfo W radix).maxPowerInDigit.toNat = radix ^ (toStringInfo W radix).maxExponentInDigit at hpow
  rw [h0, pow_zero] at hpow
  omega

lemma ensures_writeChunk (hr : 2 ≤ radix) (hr' : radix ≤ 36) {chunkChars : ℕ} {chunk : Digit W}
    {buffer : CharBuffer} (hpos : chunkChars ≤ buffer.writePos) :
    Ensures (writeChunk radix chunkChars chunk buffer) T fun out =>
      out.1.toNat = chunk.toNat / radix ^ chunkChars ∧
      out.2 = buffer.push (lowDigits radix chunkChars chunk.toNat) := by
  induction chunkChars generalizing chunk buffer with
  | zero => exact .pure ⟨by simp, rfl⟩
  | succ chunkChars ih =>
    unfold writeChunk
    apply (CharBuffer.ensures_put_digit (by omega) (remainderChar_eq (by omega) hr' _)).bind
    rintro _ rfl
    have hdiv := toNat_div_ofNat (radix_lt_two_pow (W := W) hr') chunk
    have hpos' : chunkChars ≤ (buffer.push [chunk.toNat % radix]).writePos := Nat.le_sub_one_of_lt hpos
    apply (ih hpos').imp
    rintro ⟨rest, buffer'⟩ ⟨hrest, rfl⟩
    refine ⟨?_, ?_⟩
    · rw [hrest, hdiv, pow_succ', Nat.div_div_eq_div_mul]
    · rw [CharBuffer.push_push, hdiv]
      rfl

/-- The digit at the top of what is left is where the code looks for it: a division by one digit
takes away at most one digit. -/
lemma nonZeroDigit_spec {q : BigInt W} {m z D : ℕ} (hz : 0 < z) (hD : 1 < D)
    (hD' : D < 2 ^ W.bits) (hlow : (2 ^ W.bits) ^ z ≤ m) (hhigh : m < (2 ^ W.bits) ^ (z + 1))
    (hq : q.mag = m / D) :
    let z' := if q.digit z = 0#_ then z - 1 else z
    q.digit z' ≠ 0#_ ∧ (2 ^ W.bits) ^ z' ≤ q.mag ∧ q.mag < (2 ^ W.bits) ^ (z' + 1) := by
  have hlt : q.mag < (2 ^ W.bits) ^ (z + 1) := by
    rw [hq]
    exact lt_of_le_of_lt (Nat.div_le_self _ _) hhigh
  have htop : ∀ k, q.mag < (2 ^ W.bits) ^ (k + 1) → (q.digit k = 0#_ ↔ q.mag < (2 ^ W.bits) ^ k) := by
    intro k hk
    have hdigit : (q.digit k).toNat = q.mag / (2 ^ W.bits) ^ k := by
      rw [digit_toNat, Nat.mod_eq_of_lt]
      rw [Nat.div_lt_iff_lt_mul (by positivity), ← pow_succ']
      exact hk
    constructor
    · intro h0
      rw [h0, BitVec.toNat_ofNat, Nat.zero_mod] at hdigit
      exact (Nat.div_eq_zero_iff_lt (by positivity)).mp hdigit.symm
    · intro hlt'
      rw [Nat.div_eq_of_lt hlt'] at hdigit
      exact BitVec.eq_of_toNat_eq (by simpa using hdigit)
  by_cases h0 : q.digit z = 0#_
  · have hlt' := (htop z hlt).mp h0
    obtain ⟨k, rfl⟩ : ∃ k, z = k + 1 := ⟨z - 1, by omega⟩
    have hge : (2 ^ W.bits) ^ k ≤ q.mag := by
      rw [hq, Nat.le_div_iff_mul_le (by omega)]
      calc (2 ^ W.bits) ^ k * D ≤ (2 ^ W.bits) ^ k * 2 ^ W.bits := Nat.mul_le_mul_left _ hD'.le
        _ = (2 ^ W.bits) ^ (k + 1) := (pow_succ _ _).symm
        _ ≤ m := hlow
    simp [h0, htop, hlt', hge]
  · simp only [h0, if_false]
    exact ⟨h0, Nat.le_of_not_lt fun h => h0 ((htop z hlt).mpr h), hlt⟩

/-- The quotient and the remainder of one round, wherever the quotient goes. -/
lemma ensures_divideChunk {dividend : BigInt W} {rest : Option (BigInt W)} {chunkDivisor : Digit W}
    (hlen : dividend.digitLength ≤ MaxDigitLength W)
    (hrest : ∀ q ∈ rest, q.digitLength = dividend.digitLength) (hD : 1 < chunkDivisor.toNat) :
    Ensures (absoluteDivWithDigitDivisor dividend chunkDivisor (some rest) dividend.isNegative) T
      fun r => ∃ q, r.1 = some q ∧ q.digitLength = dividend.digitLength ∧ q.mag = dividend.mag / chunkDivisor.toNat ∧
        r.2.toNat = dividend.mag % chunkDivisor.toNat := by
  cases rest with
  | none =>
    apply (ensures_absoluteDivWithDigitDivisor_new hlen hD).imp
    rintro r ⟨q, hq, -, hqlen, hquot, hrem⟩
    exact ⟨q, hq, hqlen, hquot, hrem⟩
  | some q => exact ensures_absoluteDivWithDigitDivisor_inPlace (hrest q rfl) hD

/-- The chunks are the low digits of the magnitude, and the digit returned is what is left. -/
lemma ensures_writeChunks (hr : 2 ≤ radix) (hr' : radix ≤ 36) {chunkChars : ℕ}
    {chunkDivisor : Digit W} (hpow : chunkDivisor.toNat = radix ^ chunkChars)
    (hD : 1 < chunkDivisor.toNat) (hchars : 0 < chunkChars) {rounds : ℕ} {dividend : BigInt W}
    {rest : Option (BigInt W)} {nonZeroDigit : ℕ} {buffer : CharBuffer}
    (hlen : dividend.digitLength ≤ MaxDigitLength W)
    (hrest : ∀ q ∈ rest, q.digitLength = dividend.digitLength) (hz : 0 < nonZeroDigit)
    (hlow : (2 ^ W.bits) ^ nonZeroDigit ≤ dividend.mag)
    (hhigh : dividend.mag < (2 ^ W.bits) ^ (nonZeroDigit + 1))
    (hrounds : (Nat.digits radix dividend.mag).length ≤ rounds)
    (hpos : (Nat.digits radix dividend.mag).length ≤ buffer.writePos) :
    Ensures (writeChunks radix chunkChars chunkDivisor rounds dividend rest nonZeroDigit buffer) T
      fun out => out.1.toNat ≠ 0 ∧ ∃ k, out.1.toNat = dividend.mag / radix ^ k ∧
        out.2 = buffer.push (lowDigits radix k dividend.mag) := by
  have hr1 : 1 < radix := by omega
  induction rounds generalizing dividend rest nonZeroDigit buffer with
  | zero =>
    have hne : dividend.mag ≠ 0 := by
      have : 0 < (2 ^ W.bits) ^ nonZeroDigit := by positivity
      omega
    have := length_pos_iff.mpr (Nat.digits_ne_nil_iff_ne_zero (b := radix).mpr hne)
    omega
  | succ rounds ih =>
    unfold writeChunks
    apply (ensures_divideChunk hlen hrest hD).bind
    rintro ⟨quotient, chunk⟩ ⟨q, rfl, hqlen, hquot, hrem⟩
    obtain ⟨hnonzero, hqlow, hqhigh⟩ := nonZeroDigit_spec hz hD chunkDivisor.isLt hlow hhigh hquot
    rw [hpow] at hquot
    have hqne : dividend.mag / radix ^ chunkChars ≠ 0 := by
      rw [← hquot]
      exact (lt_of_lt_of_le (by positivity) hqlow).ne'
    have hcount := length_digits_eq_add hr1 hqne
    rw [← hquot] at hcount
    have hchunk : lowDigits radix chunkChars chunk.toNat = lowDigits radix chunkChars dividend.mag := by
      simp only at hrem
      rw [hrem, hpow, lowDigits_mod (by omega)]
    simp only
    apply (ensures_writeChunk hr hr' (by omega)).bind
    rintro ⟨chunk', buffer'⟩ ⟨hchunk', rfl⟩
    rw [hchunk]
    have hzero : chunk' = 0#_ := by
      apply BitVec.eq_of_toNat_eq
      simp only at hchunk' hrem
      rw [hchunk', hrem, hpow, Nat.div_eq_of_lt (Nat.mod_lt _ (by positivity))]
      simp
    apply (ensures_mozAssert hzero).bind
    intro _ _
    simp only at hnonzero hqlow hqhigh ⊢
    generalize (if q.digit nonZeroDigit = 0#_ then nonZeroDigit - 1 else nonZeroDigit) = z at *
    apply (ensures_mozAssert hnonzero).bind
    intro _ _
    refine .ite (fun hz' => ?_) fun hz' => .pure ?_
    · refine Ensures.imp (ih (by rw [hqlen]; exact hlen) (by simp) hz' hqlow hqhigh (by omega)
        (by simp only [CharBuffer.push, length_lowDigits]; omega)) ?_
      rintro ⟨lastDigit, buffer''⟩ ⟨hlast, k, hk, rfl⟩
      refine ⟨hlast, chunkChars + k, ?_, ?_⟩
      · rw [hk, hquot, Nat.div_div_eq_div_mul, pow_add]
      · simp [lowDigits_add, hquot]
    · obtain rfl : z = 0 := by omega
      have hdigit : (q.digit 0).toNat = q.mag := by
        simp [digit_toNat, Nat.mod_eq_of_lt (by simpa using hqhigh)]
      refine ⟨?_, chunkChars, ?_, rfl⟩
      · rw [hdigit, hquot]
        exact hqne
      · rw [hdigit, hquot]

end Chunks

/-! ### The generic algorithm -/

/-- Thirty-two times the logarithm of a radix lies between the table entry less one and the table
entry. -/
lemma maxBitsPerCharTable_spec {radix : ℕ} (hr : 2 ≤ radix) (hr' : radix ≤ 36) : 32 ≤ maxBitsPerCharTable.getD radix 0 ∧
    2 ^ (maxBitsPerCharTable.getD radix 0 - 1) ≤ radix ^ 32 ∧
    radix ^ 32 ≤ 2 ^ maxBitsPerCharTable.getD radix 0 := by
  have hall : ∀ radix ≤ 36, 2 ≤ radix → 32 ≤ maxBitsPerCharTable.getD radix 0 ∧
      2 ^ (maxBitsPerCharTable.getD radix 0 - 1) ≤ radix ^ 32 ∧
      radix ^ 32 ≤ 2 ^ maxBitsPerCharTable.getD radix 0 := by decide
  exact hall radix hr' hr

lemma le_mul_CeilDiv (n : ℕ) {d : ℕ} (hd : 0 < d) : n ≤ d * CeilDiv n d := by
  have hdiv := Nat.div_add_mod (n - 1) d
  have hmod := Nat.mod_lt (n - 1) hd
  unfold CeilDiv
  rw [Nat.mul_add, Nat.mul_one]
  omega

/-- The estimate of the number of characters is safe. -/
lemma WellFormed.length_digits_le (hx : x.WellFormed) (h : x.digits ≠ []) {radix : ℕ}
    (hr : 2 ≤ radix) (hr' : radix ≤ 36) :
    (Nat.digits radix x.mag).length + (if x.isNegative then 1 else 0) ≤ calculateMaximumCharactersRequired x radix := by
  obtain ⟨htable, hlow, -⟩ := maxBitsPerCharTable_spec hr hr'
  obtain ⟨-, -, hhigh⟩ := hx.bitLength_spec h
  unfold calculateMaximumCharactersRequired
  simp only [hx.bitLength_eq h]
  apply Nat.add_le_add_right
  apply (Nat.digits_length_le_iff (by omega) _).mpr
  calc x.mag < 2 ^ x.bitLength := hhigh
    _ ≤ radix ^ CeilDiv (bitsPerCharTableMultiplier * x.bitLength)
          (maxBitsPerCharTable.getD radix 0 - 1) :=
        pow_le_pow_of_scaled (by norm_num) (by norm_num) hlow (le_mul_CeilDiv _ (by omega))

lemma WellFormed.calculateMaximumCharactersRequired_le (hx : x.WellFormed) (h : x.digits ≠ [])
    (radix : ℕ) : calculateMaximumCharactersRequired x radix ≤ MaxStringLength := by
  have hmax := hx.bitLength_le_max h
  unfold calculateMaximumCharactersRequired
  simp only [hx.bitLength_eq h]
  have hle := CeilDiv_le (bitsPerCharTableMultiplier * x.bitLength)
    (maxBitsPerCharTable.getD radix 0 - 1)
  have hmul : bitsPerCharTableMultiplier * x.bitLength ≤ 32 * (1024 * 1024) := Nat.mul_le_mul_left _ hmax
  unfold MaxStringLength
  split <;> omega

lemma removeLeadingZeroes_of_head_ne {writePos : ℕ} {chars : List Char}
    (h : chars.head? ≠ some '0') : removeLeadingZeroes writePos chars = ⟨writePos, chars⟩ := by
  match chars with
  | [] => rfl
  | [_] => rfl
  | c :: c' :: chars =>
    have hc : c ≠ '0' := by simpa using h
    simp [removeLeadingZeroes, hc]

lemma ensures_writeAllChunks (hx : x.WellFormed) (h : x.digits ≠ []) {radix : ℕ} (hr : 2 ≤ radix)
    (hr' : radix ≤ 36) {buffer : CharBuffer}
    (hpos : (Nat.digits radix x.mag).length ≤ buffer.writePos) :
    Ensures (writeAllChunks x radix buffer) T fun out => out.1.toNat ≠ 0 ∧
      ∃ k, out.1.toNat = x.mag / radix ^ k ∧ out.2 = buffer.push (lowDigits radix k x.mag) := by
  obtain ⟨hpow, hD, hchars⟩ := toStringInfo_spec (W := W) hr hr'
  have hlen : 0 < x.digitLength := length_pos_iff.mpr h
  unfold writeAllChunks
  refine .ite (fun hone => .pure ?_) fun hmany => ?_
  · have hdigit := mag_of_length_one hone
    refine ⟨?_, 0, ?_, rfl⟩
    · rw [← hdigit]
      exact (hx.mag_pos h).ne'
    · simp [← hdigit]
  · apply (ensures_mozAssert (hx.msd_ne_zero h)).bind
    intro _ _
    have hhigh : x.mag < (2 ^ W.bits) ^ (x.digitLength - 1 + 1) := by
      rw [Nat.sub_add_cancel hlen]
      exact x.mag_lt
    exact ensures_writeChunks hr hr' hpow hD hchars hx.length_le (by simp) (by omega)
      (hx.noHighZero.le_val h) hhigh hpos hpos

lemma ensures_toStringGeneric (hx : x.WellFormed) (h : x.digits ≠ []) {radix : ℕ} (hr : 2 ≤ radix) (hr' : radix ≤ 36) :
    Ensures (toStringGeneric x radix) T fun s => s = numeral radix x.toInt := by
  have hr1 : 1 < radix := by omega
  have hlength := hx.length_digits_le h hr hr'
  unfold toStringGeneric
  apply (ensures_mozAssert ⟨hr, hr'⟩).bind
  intro _ _
  apply (ensures_mozAssert (isZero_eq_false_iff.mpr h)).bind
  intro _ _
  apply (ensures_makeCharArray (hx.calculateMaximumCharactersRequired_le h radix)).bind
  rintro _ rfl
  generalize calculateMaximumCharactersRequired x radix = length at hlength ⊢
  have hroom : (Nat.digits radix x.mag).length ≤ length := (Nat.le_add_right _ _).trans hlength
  have hnil := length_pos_iff.mpr
    (Nat.digits_ne_nil_iff_ne_zero (b := radix).mpr (hx.mag_pos h).ne')
  apply (ensures_writeAllChunks hx h hr hr' (by exact hroom)).bind
  rintro ⟨lastDigit, buffer⟩ ⟨hlast, k, hk, rfl⟩
  -- The last digit is what the chunks have left of the magnitude.
  have hne : x.mag / radix ^ k ≠ 0 := hk ▸ hlast
  have hdigits := digits_eq_lowDigits_append hr1 hne
  have hcount := length_digits_eq_add hr1 hne
  have hpos : (Nat.digits radix lastDigit.toNat).length ≤
      ((CharBuffer.ofLength length).push (lowDigits radix k x.mag)).writePos := by
    simp only at hk
    rw [hk]
    simp only [CharBuffer.push, CharBuffer.ofLength, length_lowDigits]
    omega
  apply (ensures_writeDigits hr1 (remainderChar_eq (by omega) hr')
    (toNat_div_ofNat (radix_lt_two_pow hr')) hlast hpos).bind
  rintro _ rfl
  simp only at hk
  rw [CharBuffer.push_push, hk, ← hdigits]
  apply (ensures_mozAssert (by simp only [CharBuffer.push, CharBuffer.ofLength]; omega)).bind
  intro _ _
  simp only [removeLeadingZeroes_of_head_ne
    (head_push_digits hr1 hr' (hx.mag_pos h).ne' length)]
  apply (hx.ensures_writeSign h hlength).bind
  rintro signed ⟨hsigned, hchars⟩
  apply (ensures_mozAssert (by omega)).bind
  intro _ _
  rw [hchars]
  exact ensures_newStringCopyN _

/-- `toString` returns the numeral, unless it is kept from allocating. -/
theorem ensures_toString (hx : x.WellFormed) {radix : ℕ} (hr : 2 ≤ radix) (hr' : radix ≤ 36) (allowGC : Bool) :
    Ensures (toString allowGC x radix) T fun s =>
      s = some (numeral radix x.toInt) ∨ allowGC = false ∧ s = none := by
  have hsome : ∀ {m : Run W (List Char)}, Ensures m T (fun s => s = numeral radix x.toInt) →
      Ensures (some <$> m) T fun s =>
        s = some (numeral radix x.toInt) ∨ allowGC = false ∧ s = none := by
    intro m hm
    rw [map_eq_pure_bind]
    exact hm.bind fun s hs => .pure (.inl (congrArg some hs))
  unfold toString
  refine .ite (fun h => .pure (.inl ?_)) fun h => ?_
  · rw [isZero_iff] at h
    rw [hx.toInt_eq_zero_iff.mpr h]
    rfl
  rw [isZero_iff] at h
  refine .ite (fun hpow => hsome (ensures_toStringBasePowerOfTwo hx h hr hr' hpow)) fun _ => ?_
  refine .ite (fun hten => hsome ?_) fun _ => ?_
  · rw [hten.1]
    exact ensures_toStringSingleDigitBaseTen hx hten.2
  refine .ite (fun hgc => .pure (.inr ⟨hgc, rfl⟩)) fun _ => ?_
  exact hsome (ensures_toStringGeneric hx h hr hr')

end BigInt

end SpiderMonkey
