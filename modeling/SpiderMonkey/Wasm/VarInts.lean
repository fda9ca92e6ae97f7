import SpiderMonkey.Lib.Leb128
import SpiderMonkey.Lib.Reading

/-!
# Variable-length integers in modules

The encoder appends bytes, and the decoder reads them from memory up to an end.  Both work on integers with `numBits`
bits; the last byte that such an integer may have is handled after the loop.
-/

namespace SpiderMonkey.Wasm

open LittleEndian (Byte or_shiftLeft)

/-! ## The encoder -/

/-- The bytes that have been appended; memory does not run out. -/
abbrev Bytes := List Byte

namespace Encoder

def writeVarU (bytes : Bytes) (i : ℕ) : Bytes :=
  let byte := i &&& 0x7f
  let i' := i >>> 7
  let byte := if i' ≠ 0 then byte ||| 0x80 else byte
  let bytes := bytes ++ [BitVec.ofNat 8 byte]
  if i' ≠ 0 then writeVarU bytes i' else bytes
termination_by i
decreasing_by
  rw [Nat.shiftRight_eq_div_pow] at *
  omega

/-- Nothing but copies of the sign is left. -/
def varSDone (i : ℤ) (byte : ℕ) : Bool :=
  decide (i = 0) && decide (byte &&& 0x40 = 0) || decide (i = -1) && decide (byte &&& 0x40 ≠ 0)

lemma and_sign {byte : ℕ} (h : byte < 256) : byte &&& 0x40 = 64 * (byte / 64 % 2) := by
  have hall : ∀ b < 256, b &&& 0x40 = 64 * (b / 64 % 2) := by decide +kernel
  exact hall byte h

lemma varSDone_iff (i : ℤ) : varSDone (i >>> (7 : ℕ)) (i % 0x80).toNat = true ↔ -64 ≤ i ∧ i < 64 := by
  rw [varSDone, and_sign (by omega), Int.shiftRight_eq_div_pow]
  simp only [Bool.or_eq_true, Bool.and_eq_true, decide_eq_true_eq]
  norm_num
  omega

/-- The low bits of a negative number are those of its two's complement. -/
def writeVarS (bytes : Bytes) (i : ℤ) : Bytes :=
  let byte := (i % 0x80).toNat
  let i' := i >>> (7 : ℕ)
  let done := varSDone i' byte
  let bytes := bytes ++ [BitVec.ofNat 8 (if done = true then byte else byte ||| 0x80)]
  if done = true then bytes else writeVarS bytes i'
termination_by i.natAbs
decreasing_by
  rename_i hdone
  rw [varSDone_iff] at hdone
  rw [Int.shiftRight_eq_div_pow]
  norm_num
  omega

def writePatchableVarU32 (bytes : Bytes) : Bytes × ℕ := (writeVarU bytes (2 ^ 32 - 1), bytes.length)

/-- As many bytes are patched as the asserted number has. -/
def patchVarU32Loop (bytes : Bytes) (offset patchBits assertBits : ℕ) : Bytes :=
  let patchByte := patchBits &&& 0x7f
  let assertBits' := assertBits >>> 7
  let patchByte := if assertBits' ≠ 0 then patchByte ||| 0x80 else patchByte
  let bytes := bytes.set offset (BitVec.ofNat 8 patchByte)
  if assertBits' ≠ 0 then patchVarU32Loop bytes (offset + 1) (patchBits >>> 7) assertBits' else bytes
termination_by assertBits
decreasing_by
  rw [Nat.shiftRight_eq_div_pow] at *
  omega

def patchVarU32 (bytes : Bytes) (offset patchBits : ℕ) : Bytes := patchVarU32Loop bytes offset patchBits (2 ^ 32 - 1)

end Encoder

/-! ## The decoder -/

structure Decoder where
  memory : ℕ → Byte
  end_ : ℕ
  cur : ℕ

namespace Decoder

def advance (d : Decoder) (count : ℕ) : Decoder := { d with cur := d.cur + count }

def remaining (d : Decoder) : List Byte := (List.range (d.end_ - d.cur)).map fun i => d.memory (d.cur + i)

def readFixedU8 (d : Decoder) : Option (ℕ × Decoder) :=
  if d.end_ - d.cur < 1 then none else some ((d.memory d.cur).toNat, d.advance 1)

lemma remaining_lt {d d' : Decoder} {byte : ℕ} (h : d.readFixedU8 = some (byte, d')) :
    d'.end_ - d'.cur < d.end_ - d.cur := by
  rw [readFixedU8] at h
  split_ifs at h with hend
  cases h
  change d.end_ - (d.cur + 1) < d.end_ - d.cur
  omega

def remainderBits (numBits : ℕ) : ℕ := numBits % 7

def numBitsInSevens (numBits : ℕ) : ℕ := numBits - remainderBits numBits

def readVarULoop (numBits : ℕ) (d : Decoder) (u shift : ℕ) : Option (ℕ × Decoder) :=
  match hread : d.readFixedU8 with
  | none => none
  | some (byte, d') =>
    if byte &&& 0x80 = 0 then some (u ||| byte <<< shift % 2 ^ numBits, d')
    else
      let u := u ||| (byte &&& 0x7F) <<< shift % 2 ^ numBits
      let shift := shift + 7
      if shift ≠ numBitsInSevens numBits then readVarULoop numBits d' u shift
      else
        match d'.readFixedU8 with
        | none => none
        | some (byte, d'') =>
          if byte &&& (2 ^ 32 - 1) <<< remainderBits numBits % 2 ^ 32 ≠ 0 then none
          else some (u ||| byte <<< numBitsInSevens numBits % 2 ^ numBits, d'')
termination_by d.end_ - d.cur
decreasing_by exact remaining_lt hread

def readVarU (numBits : ℕ) (d : Decoder) : Option (ℕ × Decoder) := d.readVarULoop numBits 0 0

def readVarSLoop (numBits : ℕ) (d : Decoder) (s shift : ℕ) : Option (ℤ × Decoder) :=
  match hread : d.readFixedU8 with
  | none => none
  | some (byte, d') =>
    let s := s ||| (byte &&& 0x7f) <<< shift % 2 ^ numBits
    let shift := shift + 7
    if byte &&& 0x80 = 0 then
      let s := if byte &&& 0x40 ≠ 0 then s ||| (2 ^ numBits - 1) <<< shift % 2 ^ numBits else s
      some ((BitVec.ofNat numBits s).toInt, d')
    else if shift < numBitsInSevens numBits then readVarSLoop numBits d' s shift
    else if remainderBits numBits = 0 then none
    else
      match d'.readFixedU8 with
      | none => none
      | some (byte, d'') =>
        if byte &&& 0x80 ≠ 0 then none
        else
          let mask := 0x7f &&& 0xff <<< remainderBits numBits % 2 ^ 8
          if byte &&& mask ≠ if byte &&& 1 <<< (remainderBits numBits - 1) ≠ 0 then mask else 0 then none
          else some ((BitVec.ofNat numBits (s ||| byte <<< shift % 2 ^ numBits)).toInt, d'')
termination_by d.end_ - d.cur
decreasing_by exact remaining_lt hread

def readVarS (numBits : ℕ) (d : Decoder) : Option (ℤ × Decoder) := d.readVarSLoop numBits 0 0

/-- The end is not checked; the loop ends when the shift gets to the last byte, after at most `groups` bytes. -/
def uncheckedReadVarULoop (numBits : ℕ) : ℕ → Decoder → ℕ → ℕ → ℕ × Decoder
  | 0, d, decoded, _ => (decoded, d)
  | groups + 1, d, decoded, shift =>
    let byte := (d.memory d.cur).toNat
    let d := d.advance 1
    if byte &&& 0x80 = 0 then (decoded ||| byte <<< shift % 2 ^ numBits, d)
    else
      let decoded := decoded ||| (byte &&& 0x7f) <<< shift % 2 ^ numBits
      let shift := shift + 7
      if shift ≠ numBitsInSevens numBits then uncheckedReadVarULoop numBits groups d decoded shift
      else
        (decoded ||| (d.memory d.cur).toNat <<< numBitsInSevens numBits % 2 ^ numBits, d.advance 1)

def uncheckedReadVarU (numBits : ℕ) (d : Decoder) : ℕ × Decoder := d.uncheckedReadVarULoop numBits (numBits / 7) 0 0

/-- The checked reader is used, and it is asserted to succeed. -/
def uncheckedReadVarS (numBits : ℕ) (d : Decoder) : ℤ × Decoder := (d.readVarS numBits).getD (0, d)

end Decoder

end SpiderMonkey.Wasm
