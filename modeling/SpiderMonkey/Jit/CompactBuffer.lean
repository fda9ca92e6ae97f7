import SpiderMonkey.Lib.LittleEndian
import SpiderMonkey.Lib.Reading

/-!
# Compact buffers

Numbers of variable length, with 7 bits in each byte and one bit for whether there is another byte.  Signed numbers
have their sign and 6 bits in the first byte, and numbers with 15 bits at most 8 bits in the second.  Everything that
is written is read back by its reader (`reads`), also what has been patched (`reads_variableLength`).
-/

namespace SpiderMonkey.Jit

open List
open LittleEndian (Byte or_shiftLeft)
open Reading

/-! ## The writer -/

abbrev CompactBufferWriter := List Byte

namespace CompactBufferWriter

variable (buffer : CompactBufferWriter)

def writeByte (byte : ℕ) : CompactBufferWriter := buffer ++ [BitVec.ofNat 8 byte]

def writeByteAt (pos byte : ℕ) : CompactBufferWriter := buffer.set pos (BitVec.ofNat 8 byte)

def writeUnsigned15Bit (value : ℕ) : CompactBufferWriter :=
  let buffer := buffer.writeByte (((value &&& 0x7F) <<< 1) ||| (decide (0x7F < value)).toNat)
  if value >>> 7 ≠ 0 then buffer.writeByte (value >>> 7) else buffer

def writeUnsigned (buffer : CompactBufferWriter) (value : ℕ) : CompactBufferWriter :=
  let buffer := buffer.writeByte (((value &&& 0x7F) <<< 1) ||| (decide (0x7F < value)).toNat)
  if value >>> 7 ≠ 0 then writeUnsigned buffer (value >>> 7) else buffer
termination_by value
decreasing_by
  rw [Nat.shiftRight_eq_div_pow] at *
  omega

/-- The bytes continue as those of the original value. -/
def writeUnsignedAt (buffer : CompactBufferWriter) (pos value original : ℕ) : CompactBufferWriter :=
  let buffer := buffer.writeByteAt pos (((value &&& 0x7F) <<< 1) ||| (decide (0x7F < original)).toNat)
  if original >>> 7 ≠ 0 then writeUnsignedAt buffer (pos + 1) (value >>> 7) (original >>> 7) else buffer
termination_by original
decreasing_by
  rw [Nat.shiftRight_eq_div_pow] at *
  omega

/-- The least number is its own negation, and its absolute value as an unsigned number. -/
def writeSigned (v : BitVec 32) : CompactBufferWriter :=
  let isNegative := v.slt 0
  let value := (if isNegative = true then -v else v).toNat
  let buffer := buffer.writeByte
    (((value &&& 0x3F) <<< 2) ||| ((decide (0x3F < value)).toNat <<< 1) ||| isNegative.toNat)
  if value >>> 6 = 0 then buffer else buffer.writeUnsigned (value >>> 6)

def writeFixedUint32_t (value : ℕ) : CompactBufferWriter :=
  (((buffer.writeByte (value &&& 0xFF)).writeByte ((value >>> 8) &&& 0xFF)).writeByte
    ((value >>> 16) &&& 0xFF)).writeByte ((value >>> 24) &&& 0xFF)

def writeFixedUint16_t (value : ℕ) : CompactBufferWriter :=
  (buffer.writeByte (value &&& 0xFF)).writeByte (value >>> 8)

end CompactBufferWriter

/-! ## The reader -/

namespace CompactBufferReader

def readByte : Reader Byte ℕ
  | [] => none
  | byte :: rest => some (byte.toNat, rest)

/-- The shift is asserted to be small enough. -/
def readVariableLength (val shift : ℕ) : Reader Byte ℕ
  | [] => none
  | byte :: rest =>
    if shift < 32 then
      let val := val ||| ((byte.toNat >>> 1) <<< shift) % 2 ^ 32
      if byte.toNat &&& 1 = 0 then some (val, rest) else readVariableLength val (shift + 7) rest
    else none

def readUnsigned : Reader Byte ℕ := readVariableLength 0 0

def readSigned : Reader Byte (BitVec 32) :=
  readByte.bind fun b =>
    let isNegative := b &&& 1 ≠ 0
    let more := b &&& 2 ≠ 0
    let sign (result : ℕ) : BitVec 32 := if isNegative then -BitVec.ofNat 32 result else BitVec.ofNat 32 result
    if more then readUnsigned.map fun rest => sign ((b >>> 2) ||| (rest <<< 6) % 2 ^ 32)
    else fun bytes => some (sign (b >>> 2), bytes)

def readUnsigned15Bit : Reader Byte ℕ :=
  readByte.bind fun byte =>
    if byte &&& 1 ≠ 0 then readByte.map fun byte' => (byte >>> 1) ||| (byte' <<< 7) % 2 ^ 32
    else fun bytes => some (byte >>> 1, bytes)

def readFixedUint32_t : Reader Byte ℕ :=
  readByte.bind fun b0 => readByte.bind fun b1 => readByte.bind fun b2 => readByte.map fun b3 =>
    b0 ||| (b1 <<< 8) ||| (b2 <<< 16) ||| (b3 <<< 24) % 2 ^ 32

def readFixedUint16_t : Reader Byte ℕ :=
  readByte.bind fun b0 => readByte.map fun b1 => (b0 ||| (b1 <<< 8)) % 2 ^ 16

end CompactBufferReader

/-! ## The bytes of a number -/

namespace CompactBuffer

open CompactBufferReader

/-- The bytes of a value, as many as the original value has. -/
def variableLength (value original : ℕ) : List Byte :=
  BitVec.ofNat 8 (2 * (value % 128) + (decide (127 < original)).toNat) ::
    if original / 128 = 0 then [] else variableLength (value / 128) (original / 128)
termination_by original
decreasing_by omega

lemma byte_eq (value original : ℕ) : ((value &&& 0x7F) <<< 1) ||| (decide (0x7F < original)).toNat =
    2 * (value % 128) + (decide (127 < original)).toNat := by
  have hmod : value &&& 0x7F = value % 128 := Nat.and_two_pow_sub_one_eq_mod value 7
  have hbit := Bool.toNat_lt (decide (127 < original))
  rw [hmod, Nat.shiftLeft_eq, mul_comm, ← Nat.two_pow_add_eq_or_of_lt (by omega)]

lemma shiftRight_seven (n : ℕ) : n >>> 7 = n / 128 := Nat.shiftRight_eq_div_pow n 7

lemma length_variableLength (value value' original : ℕ) :
    (variableLength value original).length = (variableLength value' original).length := by
  induction original using Nat.strong_induction_on generalizing value value' with
  | h original ih =>
    rw [variableLength.eq_def value original, variableLength.eq_def value' original, length_cons, length_cons]
    split_ifs with hlast
    · rfl
    · rw [ih (original / 128) (by omega) (value / 128) (value' / 128)]

lemma writeUnsigned_eq (buffer : CompactBufferWriter) (value : ℕ) :
    buffer.writeUnsigned value = buffer ++ variableLength value value := by
  induction value using Nat.strong_induction_on generalizing buffer with
  | h value ih =>
    rw [CompactBufferWriter.writeUnsigned, variableLength, byte_eq, shiftRight_seven]
    by_cases hlast : value / 128 = 0
    · rw [if_neg (not_not.2 hlast), if_pos hlast]
      rfl
    · simp [hlast, hlast, ih (value / 128) (by omega), CompactBufferWriter.writeByte]

lemma overwrite_cons {place : ℕ} {byte : Byte} {chunk buffer : List Byte} (h : place < buffer.length) :
    overwrite (place + 1) chunk (buffer.set place byte) = overwrite place (byte :: chunk) buffer := by
  have htake : (buffer.set place byte).take (place + 1) = buffer.take place ++ [byte] := by
    rw [take_set, take_succ_eq_append_getElem h, set_append_right _ _ (by simp), length_take,
      Nat.min_eq_left h.le, Nat.sub_self]
    rfl
  have hplace : place + 1 + chunk.length = place + (chunk.length + 1) := by omega
  rw [overwrite, overwrite, htake, drop_set_of_lt (by omega), length_cons, hplace, append_assoc _ [byte]]
  rfl

lemma writeUnsignedAt_eq {buffer : CompactBufferWriter} {pos value original : ℕ}
    (hroom : pos + (variableLength value original).length ≤ buffer.length) :
    buffer.writeUnsignedAt pos value original = overwrite pos (variableLength value original) buffer := by
  induction original using Nat.strong_induction_on generalizing buffer pos value with
  | h original ih =>
    rw [variableLength] at hroom ⊢
    rw [length_cons] at hroom
    rw [CompactBufferWriter.writeUnsignedAt, byte_eq, shiftRight_seven, shiftRight_seven,
      CompactBufferWriter.writeByteAt]
    by_cases hlast : original / 128 = 0
    · rw [if_neg (not_not.2 hlast), if_pos hlast, ← overwrite_cons (by omega), overwrite, append_nil,
        length_nil, Nat.add_zero, take_append_drop]
    · rw [if_neg hlast] at hroom
      rw [if_pos hlast, if_neg hlast, ← overwrite_cons (by omega)]
      exact ih (original / 128) (by omega) (by rw [length_set]; omega)

/-! ## Reading back -/

lemma toNat_byte (value : ℕ) (bit : Bool) :
    (BitVec.ofNat 8 (2 * (value % 128) + bit.toNat)).toNat = 2 * (value % 128) + bit.toNat := by
  have hbit := Bool.toNat_lt bit
  rw [BitVec.toNat_ofNat, Nat.mod_eq_of_lt (by omega)]

lemma reads_readVariableLength {value original shift val : ℕ} (hshift : shift < 32) (hle : value ≤ original)
    (hrange : original * 2 ^ shift < 2 ^ 32) (hval : val < 2 ^ shift) :
    Reads (readVariableLength val shift) (variableLength value original) (val + value * 2 ^ shift) := by
  induction original using Nat.strong_induction_on generalizing value shift val with
  | h original ih =>
    intro rest
    have hbit := Bool.toNat_lt (decide (127 < original))
    have hhalf : (2 * (value % 128) + (decide (127 < original)).toNat) >>> 1 = value % 128 := by
      rw [Nat.shiftRight_eq_div_pow]
      omega
    have hsmall : value % 128 * 2 ^ shift < 2 ^ 32 :=
      (Nat.mul_le_mul_right _ ((Nat.mod_le _ _).trans hle)).trans_lt hrange
    have hlow : val ||| ((value % 128) <<< shift) % 2 ^ 32 = val + value % 128 * 2 ^ shift := by
      rw [Nat.mod_eq_of_lt (by rw [Nat.shiftLeft_eq]; exact hsmall), or_shiftLeft _ hval]
    have hpow : 2 ^ (shift + 7) = 128 * 2 ^ shift := by
      rw [pow_add, mul_comm]
      rfl
    have hsplit : value % 128 * 2 ^ shift + value / 128 * 2 ^ (shift + 7) = value * 2 ^ shift := by
      rw [hpow, ← mul_assoc, ← add_mul, mul_comm (value / 128), Nat.mod_add_div]
    rw [variableLength, cons_append, readVariableLength, if_pos hshift, toNat_byte, hhalf, hlow, Nat.and_one_is_mod]
    by_cases hlast : original / 128 = 0
    · have hzero : value / 128 = 0 := Nat.eq_zero_of_le_zero (hlast ▸ Nat.div_le_div_right hle)
      have hbit' : (decide (127 < original)).toNat = 0 := by
        rw [decide_eq_false (by omega)]
        rfl
      rw [hzero, zero_mul, add_zero] at hsplit
      rw [if_pos (by omega), if_pos hlast, hsplit]
      rfl
    · have hbit' : (decide (127 < original)).toNat = 1 := by
        rw [decide_eq_true (by omega)]
        rfl
      have hrange' : original / 128 * 2 ^ (shift + 7) < 2 ^ 32 := by
        rw [hpow, ← mul_assoc]
        exact (Nat.mul_le_mul_right _ (Nat.div_mul_le_self _ _)).trans_lt hrange
      have hshift' : shift + 7 < 32 := by
        by_contra hnot
        have hbig : 2 ^ 32 ≤ 2 ^ (shift + 7) := Nat.pow_le_pow_right Nat.two_pos (by omega)
        have hone : 1 * 2 ^ (shift + 7) ≤ original / 128 * 2 ^ (shift + 7) := Nat.mul_le_mul_right _ (by omega)
        omega
      have hval' : val + value % 128 * 2 ^ shift < 2 ^ (shift + 7) := by
        have hmul : value % 128 * 2 ^ shift ≤ 127 * 2 ^ shift := Nat.mul_le_mul_right _ (by omega)
        omega
      have hrest := ih (original / 128) (by omega) hshift' (Nat.div_le_div_right hle) hrange' hval' rest
      rw [if_neg (by omega), if_neg hlast, hrest, add_assoc, hsplit]

/-- A number that has been patched is read back, too. -/
lemma reads_variableLength {value original : ℕ} (hle : value ≤ original) (hrange : original < 2 ^ 32) :
    Reads readUnsigned (variableLength value original) value := by
  have h := reads_readVariableLength (show 0 < 32 by decide) hle (by rwa [pow_zero, mul_one]) (show 0 < 2 ^ 0 by decide)
  rwa [zero_add, pow_zero, mul_one] at h

end CompactBuffer

end SpiderMonkey.Jit
