import SpiderMonkey.Jit.CompactBuffer

/-!
# Values in a compact buffer

Values are written one after the other, and numbers may be patched later by smaller ones.  They are read back in the
same order, each from its own bytes (`CompactLog.reads_back`).
-/

namespace SpiderMonkey.Jit

open List
open LittleEndian (Byte or_shiftLeft)
open Reading

/-! ## One value -/

inductive CompactValue
  | unsigned (value : BitVec 32)
  | signed (value : BitVec 32)
  | unsigned15Bit (value : BitVec 15)
  | byte (value : BitVec 8)
  | fixedUint16 (value : BitVec 16)
  | fixedUint32 (value : BitVec 32)
  deriving DecidableEq

inductive CompactKind
  | unsigned
  | signed
  | unsigned15Bit
  | byte
  | fixedUint16
  | fixedUint32
  deriving DecidableEq

namespace CompactValue

def kind : CompactValue → CompactKind
  | .unsigned _ => .unsigned
  | .signed _ => .signed
  | .unsigned15Bit _ => .unsigned15Bit
  | .byte _ => .byte
  | .fixedUint16 _ => .fixedUint16
  | .fixedUint32 _ => .fixedUint32

def write (buffer : CompactBufferWriter) : CompactValue → CompactBufferWriter
  | .unsigned value => buffer.writeUnsigned value.toNat
  | .signed value => buffer.writeSigned value
  | .unsigned15Bit value => buffer.writeUnsigned15Bit value.toNat
  | .byte value => buffer.writeByte value.toNat
  | .fixedUint16 value => buffer.writeFixedUint16_t value.toNat
  | .fixedUint32 value => buffer.writeFixedUint32_t value.toNat

end CompactValue

/-- The matching reader. -/
def CompactKind.read : CompactKind → Reader Byte CompactValue
  | .unsigned => CompactBufferReader.readUnsigned.map fun n => .unsigned (BitVec.ofNat 32 n)
  | .signed => CompactBufferReader.readSigned.map fun v => .signed v
  | .unsigned15Bit => CompactBufferReader.readUnsigned15Bit.map fun n => .unsigned15Bit (BitVec.ofNat 15 n)
  | .byte => CompactBufferReader.readByte.map fun n => .byte (BitVec.ofNat 8 n)
  | .fixedUint16 => CompactBufferReader.readFixedUint16_t.map fun n => .fixedUint16 (BitVec.ofNat 16 n)
  | .fixedUint32 => CompactBufferReader.readFixedUint32_t.map fun n => .fixedUint32 (BitVec.ofNat 32 n)

namespace CompactBuffer

open CompactBufferReader CompactBufferWriter Nat

lemma reads_readByte {n : ℕ} (h : n < 256) : Reads readByte [BitVec.ofNat 8 n] n := by
  intro rest
  simp [readByte, mod_eq_of_lt h]

lemma toNat_decide (p : Prop) [Decidable p] : (decide p).toNat = 1 ↔ p := by
  simp

lemma reads_readByte_bind {γ : Type*} {f : ℕ → Reader Byte γ} {chunk : List Byte} {c : γ} {n : ℕ} (h : n < 256)
    (hrest : Reads (f n) chunk c) : Reads (readByte.bind f) (BitVec.ofNat 8 n :: chunk) c :=
  (reads_readByte h).bind hrest

/-! ## Signed numbers -/

/-- What the first byte of a signed number has. -/
def signedByte (value : ℕ) (isNegative : Bool) : ℕ := 4 * (value % 64) + 2 * (decide (63 < value)).toNat + isNegative.toNat

lemma signedByte_eq (value : ℕ) (isNegative : Bool) :
    ((value &&& 0x3F) <<< 2) ||| ((decide (0x3F < value)).toNat <<< 1) ||| isNegative.toNat =
      signedByte value isNegative := by
  have hmod : value &&& 0x3F = value % 64 := and_two_pow_sub_one_eq_mod value 6
  have hmore := Bool.toNat_lt (decide (63 < value))
  have hneg := Bool.toNat_lt isNegative
  have hlow : ((decide (0x3F < value)).toNat <<< 1) ||| isNegative.toNat =
      2 * (decide (63 < value)).toNat + isNegative.toNat := by
    rw [shiftLeft_eq, mul_comm, ← two_pow_add_eq_or_of_lt (by omega)]
  rw [Nat.or_assoc, hlow, hmod, shiftLeft_eq, mul_comm, ← two_pow_add_eq_or_of_lt (by omega), signedByte]
  omega

lemma signedByte_lt (value : ℕ) (isNegative : Bool) : signedByte value isNegative < 256 := by
  have hmore := Bool.toNat_lt (decide (63 < value))
  have hneg := Bool.toNat_lt isNegative
  rw [signedByte]
  omega

lemma and_two {b : ℕ} (h : b < 256) : b &&& 2 = 2 * (b / 2 % 2) := by
  have hall : ∀ b < 256, b &&& 2 = 2 * (b / 2 % 2) := by decide +kernel
  exact hall b h

/-- The sign and the absolute value of a number. -/
def magnitude (v : BitVec 32) : ℕ := (if v.slt 0 = true then -v else v).toNat

lemma magnitude_lt (v : BitVec 32) : magnitude v < 2 ^ 32 := BitVec.isLt _

lemma ofNat_magnitude (v : BitVec 32) :
    (if v.slt 0 = true then -BitVec.ofNat 32 (magnitude v) else BitVec.ofNat 32 (magnitude v)) = v := by
  rw [magnitude, BitVec.ofNat_toNat, BitVec.setWidth_eq]
  split_ifs
  · simp
  · rfl

variable (buffer : CompactBufferWriter)

lemma writeSigned_eq (v : BitVec 32) :
    buffer.writeSigned v = buffer ++ (BitVec.ofNat 8 (signedByte (magnitude v) (v.slt 0)) ::
      if magnitude v / 64 = 0 then [] else variableLength (magnitude v / 64) (magnitude v / 64)) := by
  have hshift : magnitude v >>> 6 = magnitude v / 64 := shiftRight_eq_div_pow _ 6
  rw [writeSigned, ← magnitude, signedByte_eq, hshift]
  split_ifs with hlast
  · rfl
  · simp [writeUnsigned_eq, writeByte]

lemma reads_readSigned (v : BitVec 32) : Reads readSigned (BitVec.ofNat 8 (signedByte (magnitude v) (v.slt 0)) ::
      if magnitude v / 64 = 0 then [] else variableLength (magnitude v / 64) (magnitude v / 64)) v := by
  have hmagnitude := magnitude_lt v
  have hneg := Bool.toNat_lt (v.slt 0)
  have hmore := Bool.toNat_lt (decide (63 < magnitude v))
  have hbyte : signedByte (magnitude v) (v.slt 0) =
      4 * (magnitude v % 64) + 2 * (decide (63 < magnitude v)).toNat + (v.slt 0).toNat := rfl
  have hsign : signedByte (magnitude v) (v.slt 0) % 2 ≠ 0 ↔ v.slt 0 = true := by
    rw [← Bool.toNat_eq_one]
    omega
  have hmore' : 2 * (signedByte (magnitude v) (v.slt 0) / 2 % 2) ≠ 0 ↔ 63 < magnitude v := by
    have hiff := toNat_decide (63 < magnitude v)
    omega
  have hlow : signedByte (magnitude v) (v.slt 0) >>> 2 = magnitude v % 64 := by
    rw [shiftRight_eq_div_pow]
    omega
  refine reads_readByte_bind (signedByte_lt _ _) ?_
  simp only [and_one_is_mod, and_two (signedByte_lt _ _), hsign, hmore', hlow]
  by_cases hlast : magnitude v / 64 = 0
  · have hmod : magnitude v % 64 = magnitude v := mod_eq_of_lt (by omega)
    rw [if_pos hlast, if_neg (by omega), hmod, ofNat_magnitude]
    exact fun rest => rfl
  · have hhigh : magnitude v % 64 ||| (magnitude v / 64) <<< 6 % 2 ^ 32 = magnitude v := by
      have hsmall : (magnitude v / 64) <<< 6 < 2 ^ 32 := by
        rw [shiftLeft_eq]
        omega
      rw [mod_eq_of_lt hsmall, or_shiftLeft _ (show magnitude v % 64 < 2 ^ 6 from mod_lt _ (by decide))]
      omega
    rw [if_neg hlast, if_pos (by omega)]
    have h := (reads_variableLength (le_refl (magnitude v / 64)) (by omega)).map fun rest =>
      if v.slt 0 = true then -BitVec.ofNat 32 (magnitude v % 64 ||| rest <<< 6 % 2 ^ 32)
      else BitVec.ofNat 32 (magnitude v % 64 ||| rest <<< 6 % 2 ^ 32)
    rwa [hhigh, ofNat_magnitude] at h

/-! ## Numbers with 15 bits, and numbers of fixed width -/

lemma writeUnsigned15Bit_eq (value : ℕ) :
    buffer.writeUnsigned15Bit value = buffer ++ (BitVec.ofNat 8 (2 * (value % 128) + (decide (127 < value)).toNat) ::
      if value / 128 = 0 then [] else [BitVec.ofNat 8 (value / 128)]) := by
  rw [writeUnsigned15Bit, byte_eq, shiftRight_seven]
  by_cases hlast : value / 128 = 0
  · rw [if_neg (not_not.2 hlast), if_pos hlast]
    rfl
  · simp [hlast, writeByte]

lemma reads_readUnsigned15Bit {value : ℕ} (hvalue : value < 2 ^ 15) :
    Reads readUnsigned15Bit (BitVec.ofNat 8 (2 * (value % 128) + (decide (127 < value)).toNat) ::
      if value / 128 = 0 then [] else [BitVec.ofNat 8 (value / 128)]) value := by
  have hbit := Bool.toNat_lt (decide (127 < value))
  have hmore : (2 * (value % 128) + (decide (127 < value)).toNat) % 2 ≠ 0 ↔ 127 < value := by
    have hiff := toNat_decide (127 < value)
    omega
  have hhalf : (2 * (value % 128) + (decide (127 < value)).toNat) >>> 1 = value % 128 := by
    rw [shiftRight_eq_div_pow]
    omega
  refine reads_readByte_bind (by omega) ?_
  simp only [and_one_is_mod, hmore, hhalf]
  by_cases hlast : value / 128 = 0
  · have hmod : value % 128 = value := mod_eq_of_lt (by omega)
    rw [if_pos hlast, if_neg (by omega), hmod]
    exact fun rest => rfl
  · have hhigh : value % 128 ||| (value / 128) <<< 7 % 2 ^ 32 = value := by
      have hsmall : (value / 128) <<< 7 < 2 ^ 32 := by
        rw [shiftLeft_eq]
        omega
      rw [mod_eq_of_lt hsmall, or_shiftLeft _ (show value % 128 < 2 ^ 7 from mod_lt _ (by decide))]
      omega
    rw [if_neg hlast, if_pos (by omega)]
    have h := (reads_readByte (show value / 128 < 256 by omega)).map fun byte' =>
      value % 128 ||| byte' <<< 7 % 2 ^ 32
    rwa [hhigh] at h

lemma and_byte (n : ℕ) : n &&& 0xFF = n % 256 := and_two_pow_sub_one_eq_mod n 8

lemma writeFixedUint16_t_eq (value : ℕ) :
    buffer.writeFixedUint16_t value = buffer ++ [BitVec.ofNat 8 (value % 256), BitVec.ofNat 8 (value / 256)] := by
  have hshift : value >>> 8 = value / 256 := shiftRight_eq_div_pow value 8
  rw [writeFixedUint16_t, and_byte, hshift, writeByte,
    writeByte, append_assoc]
  rfl

lemma reads_readFixedUint16_t {value : ℕ} (hvalue : value < 2 ^ 16) :
    Reads readFixedUint16_t [BitVec.ofNat 8 (value % 256), BitVec.ofNat 8 (value / 256)] value := by
  have hall : (value % 256 ||| (value / 256) <<< 8) % 2 ^ 16 = value := by
    rw [or_shiftLeft _ (show value % 256 < 2 ^ 8 from mod_lt _ (by decide))]
    omega
  have h := (reads_readByte (show value / 256 < 256 by omega)).map fun b1 => (value % 256 ||| (b1 <<< 8)) % 2 ^ 16
  rw [hall] at h
  exact reads_readByte_bind (mod_lt value (by decide)) h

lemma writeFixedUint32_t_eq (value : ℕ) :
    buffer.writeFixedUint32_t value = buffer ++ [BitVec.ofNat 8 (value % 256), BitVec.ofNat 8 (value / 2 ^ 8 % 256),
      BitVec.ofNat 8 (value / 2 ^ 16 % 256), BitVec.ofNat 8 (value / 2 ^ 24 % 256)] := by
  simp [writeFixedUint32_t, and_byte, and_byte, and_byte, and_byte, shiftRight_eq_div_pow, shiftRight_eq_div_pow, shiftRight_eq_div_pow, writeByte, writeByte, writeByte, writeByte, append_assoc, append_assoc, append_assoc]

lemma reads_readFixedUint32_t {value : ℕ} (hvalue : value < 2 ^ 32) :
    Reads readFixedUint32_t [BitVec.ofNat 8 (value % 256), BitVec.ofNat 8 (value / 2 ^ 8 % 256),
      BitVec.ofNat 8 (value / 2 ^ 16 % 256), BitVec.ofNat 8 (value / 2 ^ 24 % 256)] value := by
  have hbyte (n : ℕ) : n % 256 < 256 := mod_lt n (by decide)
  have hall : value % 256 ||| (value / 2 ^ 8 % 256) <<< 8 ||| (value / 2 ^ 16 % 256) <<< 16 |||
      (value / 2 ^ 24 % 256) <<< 24 % 2 ^ 32 = value := by
    have hsmall : (value / 2 ^ 24 % 256) <<< 24 < 2 ^ 32 := by
      rw [shiftLeft_eq]
      omega
    rw [mod_eq_of_lt hsmall, or_shiftLeft _ (show value % 256 < 2 ^ 8 from hbyte value),
      or_shiftLeft _ (show value % 256 + value / 2 ^ 8 % 256 * 2 ^ 8 < 2 ^ 16 by omega),
      or_shiftLeft _ (show value % 256 + value / 2 ^ 8 % 256 * 2 ^ 8 + value / 2 ^ 16 % 256 * 2 ^ 16 < 2 ^ 24 by omega)]
    omega
  intro rest
  have hread (n : ℕ) (rest : List Byte) : readByte (BitVec.ofNat 8 (n % 256) :: rest) = some (n % 256, rest) :=
    reads_readByte (hbyte n) rest
  simp only [readFixedUint32_t, Reader.bind, Reader.map, cons_append, nil_append, hread, hall]

/-! ## The bytes of a value -/

end CompactBuffer

namespace CompactValue

open CompactBuffer

def bytes (v : CompactValue) : List Byte := v.write []

lemma write_eq (buffer : CompactBufferWriter) (v : CompactValue) : v.write buffer = buffer ++ v.bytes := by
  cases v with
  | unsigned value => exact (writeUnsigned_eq buffer _).trans (congrArg _ (writeUnsigned_eq [] _).symm)
  | signed value => exact (writeSigned_eq buffer _).trans (congrArg _ (writeSigned_eq [] _).symm)
  | unsigned15Bit value => exact (writeUnsigned15Bit_eq buffer _).trans (congrArg _ (writeUnsigned15Bit_eq [] _).symm)
  | byte value => rfl
  | fixedUint16 value => exact (writeFixedUint16_t_eq buffer _).trans (congrArg _ (writeFixedUint16_t_eq [] _).symm)
  | fixedUint32 value => exact (writeFixedUint32_t_eq buffer _).trans (congrArg _ (writeFixedUint32_t_eq [] _).symm)

lemma bytes_unsigned (value : BitVec 32) : (unsigned value).bytes = variableLength value.toNat value.toNat :=
  writeUnsigned_eq [] _

lemma reads_bytes (v : CompactValue) : Reads v.kind.read v.bytes v := by
  cases v with
  | unsigned value =>
    have h := (reads_variableLength (le_refl value.toNat) value.isLt).map fun n => unsigned (BitVec.ofNat 32 n)
    rw [BitVec.ofNat_toNat, BitVec.setWidth_eq] at h
    rw [bytes_unsigned]
    exact h
  | signed value =>
    have hbytes : (signed value).bytes = _ := writeSigned_eq [] value
    rw [hbytes]
    exact (reads_readSigned value).map fun v => signed v
  | unsigned15Bit value =>
    have hbytes : (unsigned15Bit value).bytes = _ := writeUnsigned15Bit_eq [] value.toNat
    have h := (reads_readUnsigned15Bit value.isLt).map fun n => unsigned15Bit (BitVec.ofNat 15 n)
    rw [BitVec.ofNat_toNat, BitVec.setWidth_eq] at h
    rw [hbytes]
    exact h
  | byte value =>
    have h := (reads_readByte value.isLt).map fun n => byte (BitVec.ofNat 8 n)
    rw [BitVec.ofNat_toNat, BitVec.setWidth_eq] at h
    have hbytes : (byte value).bytes = [BitVec.ofNat 8 value.toNat] := rfl
    rw [hbytes, BitVec.ofNat_toNat, BitVec.setWidth_eq]
    exact h
  | fixedUint16 value =>
    have hbytes : (fixedUint16 value).bytes = _ := writeFixedUint16_t_eq [] value.toNat
    have h := (reads_readFixedUint16_t value.isLt).map fun n => fixedUint16 (BitVec.ofNat 16 n)
    rw [BitVec.ofNat_toNat, BitVec.setWidth_eq] at h
    rw [hbytes]
    exact h
  | fixedUint32 value =>
    have hbytes : (fixedUint32 value).bytes = _ := writeFixedUint32_t_eq [] value.toNat
    have h := (reads_readFixedUint32_t value.isLt).map fun n => fixedUint32 (BitVec.ofNat 32 n)
    rw [BitVec.ofNat_toNat, BitVec.setWidth_eq] at h
    rw [hbytes]
    exact h

end CompactValue

/-! ## Writing and patching -/

/-- A value is written, or an unsigned number that has been written is replaced. -/
inductive CompactAction
  | write (v : CompactValue)
  | patch (index : ℕ) (value : BitVec 32)

/-- The positions and the values as they have been written. -/
structure CompactLog where
  buffer : CompactBufferWriter
  written : List (ℕ × CompactValue)

namespace CompactLog

def empty : CompactLog := ⟨[], []⟩

def step (log : CompactLog) : CompactAction → CompactLog
  | .write v => ⟨v.write log.buffer, log.written ++ [(log.buffer.length, v)]⟩
  | .patch index value =>
    match log.written[index]? with
    | some (pos, .unsigned original) =>
      { log with buffer := log.buffer.writeUnsignedAt pos value.toNat original.toNat }
    | _ => log

/-- A patch is that of an unsigned number, and is not greater than it. -/
def Allows (log : CompactLog) : CompactAction → Prop
  | .write _ => True
  | .patch index value =>
    ∃ pos original, log.written[index]? = some (pos, .unsigned original) ∧ value.toNat ≤ original.toNat

def run (log : CompactLog) : List CompactAction → CompactLog
  | [] => log
  | action :: rest => run (log.step action) rest

def AllowsAll (log : CompactLog) : List CompactAction → Prop
  | [] => True
  | action :: rest => log.Allows action ∧ (log.step action).AllowsAll rest

end CompactLog

/-- The values that are expected, with those that have been patched replaced. -/
def expectedValues (values : List CompactValue) : List CompactAction → List CompactValue
  | [] => values
  | .write v :: rest => expectedValues (values ++ [v]) rest
  | .patch index value :: rest => expectedValues (values.set index (.unsigned value)) rest

namespace CompactLog

open CompactBuffer

/-- The buffer is made of chunks, one for each value, and as long as when the value was written. -/
structure Chunked (log : CompactLog) (values : List CompactValue) (chunks : List (List Byte)) : Prop where
  buffer : log.buffer = chunks.flatten
  reads : List.Forall₂ (fun v chunk => Reads v.kind.read chunk v) values chunks
  written : List.Forall₂ (fun w chunk => chunk.length = w.2.bytes.length) log.written chunks
  positions : ∀ index w, log.written[index]? = some w → w.1 = place chunks index

variable {log : CompactLog} {values : List CompactValue} {chunks : List (List Byte)}

section

variable (h : log.Chunked values chunks)

include h

lemma Chunked.length_eq : log.written.length = chunks.length := h.written.length_eq

lemma Chunked.write (v : CompactValue) : (log.step (.write v)).Chunked (values ++ [v]) (chunks ++ [v.bytes]) where
  buffer := by
    simp [step, CompactValue.write_eq, h.buffer]
  reads := rel_append h.reads (.cons v.reads_bytes .nil)
  written := rel_append h.written (.cons rfl .nil)
  positions index w hw := by
    rw [step] at hw
    dsimp only at hw
    by_cases hindex : index < log.written.length
    · rw [getElem?_append_left hindex] at hw
      rw [place_append _ _ (h.length_eq ▸ hindex.le)]
      exact h.positions index w hw
    · rw [getElem?_append_right (by omega), getElem?_singleton] at hw
      split_ifs at hw with hlast
      cases hw
      have hindex' : index = chunks.length := by
        rw [← h.length_eq]
        omega
      simp [hindex', place_append _ _ le_rfl, h.buffer]

/-- The patched number has as many bytes as the original one. -/
lemma Chunked.patch {index pos : ℕ} {value original : BitVec 32}
    (hwritten : log.written[index]? = some (pos, .unsigned original)) (hle : value.toNat ≤ original.toNat) :
    (log.step (.patch index value)).Chunked (values.set index (.unsigned value))
      (chunks.set index (variableLength value.toNat original.toNat)) := by
  obtain ⟨hindex, hget⟩ := List.getElem?_eq_some_iff.1 hwritten
  have hchunk : index < chunks.length := h.length_eq ▸ hindex
  have hlength : (chunks.get ⟨index, hchunk⟩).length = (CompactValue.unsigned original).bytes.length := by
    have hat := h.written.get hindex hchunk
    have hw : log.written.get ⟨index, hindex⟩ = (pos, .unsigned original) := hget
    rwa [hw] at hat
  rw [CompactValue.bytes_unsigned] at hlength
  have hlength' : (variableLength value.toNat original.toNat).length = (chunks.get ⟨index, hchunk⟩).length :=
    (length_variableLength _ _ _).trans hlength.symm
  have hstep : log.step (.patch index value) =
      { log with buffer := log.buffer.writeUnsignedAt pos value.toNat original.toNat } := by
    rw [step, hwritten]
  have hpos : pos = place chunks index := h.positions index _ hwritten
  rw [hstep]
  refine ⟨?_, ?_, ?_, fun other w hw => ?_⟩
  · have hroom : pos + (variableLength value.toNat original.toNat).length ≤ log.buffer.length := by
      rw [hpos, hlength', ← place_succ hchunk, h.buffer]
      exact place_le chunks (index + 1)
    rw [writeUnsignedAt_eq hroom, hpos, h.buffer, overwrite_place hchunk hlength']
  · refine forall₂_set h.reads ?_ index
    have hread := (reads_variableLength hle original.isLt).map fun n => CompactValue.unsigned (BitVec.ofNat 32 n)
    rw [BitVec.ofNat_toNat, BitVec.setWidth_eq] at hread
    exact hread
  · have hset := forall₂_set h.written (i := (pos, .unsigned original))
      ((hlength'.trans hlength).trans (congrArg List.length (CompactValue.bytes_unsigned original)).symm) index
    rwa [← hget, set_getElem_self] at hset
  · rw [place_set hchunk hlength']
    exact h.positions other w hw

lemma Chunked.step {action : CompactAction} (hallows : log.Allows action) :
    ∃ chunks', (log.step action).Chunked (expectedValues values [action]) chunks' := by
  cases action with
  | write v => exact ⟨_, h.write v⟩
  | patch index value =>
    obtain ⟨pos, original, hwritten, hle⟩ := hallows
    exact ⟨_, h.patch hwritten hle⟩

end

lemma Chunked.run {actions : List CompactAction} (h : log.Chunked values chunks) (hallows : log.AllowsAll actions) :
    ∃ chunks', (log.run actions).Chunked (expectedValues values actions) chunks' := by
  induction actions generalizing log values chunks with
  | nil => exact ⟨chunks, h⟩
  | cons action rest ih =>
    obtain ⟨chunks', h'⟩ := h.step hallows.1
    have hsplit : expectedValues values (action :: rest) = expectedValues (expectedValues values [action]) rest := by
      cases action <;> rfl
    rw [hsplit]
    exact ih h' hallows.2

lemma chunked_empty : empty.Chunked [] [] := ⟨rfl, .nil, .nil, nofun⟩

/-- The values before a position are read from the bytes before it, and everything is read at the end. -/
lemma Chunked.reads_take (h : log.Chunked values chunks) (index : ℕ) :
    readList ((values.take index).map fun v => v.kind.read) log.buffer =
      some (values.take index, log.buffer.drop (place chunks index)) := by
  have hreads := reads_readList (fun v : CompactValue => v.kind.read) (fun v => v)
    (forall₂_take index h.reads)
  have hsplit : log.buffer = (chunks.take index).flatten ++ (chunks.drop index).flatten := by
    simp [h.buffer, ← flatten_append]
  have hdrop : log.buffer.drop (place chunks index) = (chunks.drop index).flatten := by
    rw [h.buffer, drop_place]
  rw [hdrop]
  conv_lhs => rw [hsplit]
  rw [hreads, map_id']

/-- What has been written and patched is read back: everything from all of the bytes, and the values before any other
one from exactly the bytes before its position. -/
theorem reads_back (actions : List CompactAction) (h : empty.AllowsAll actions) :
    readList ((expectedValues [] actions).map fun v => v.kind.read) (empty.run actions).buffer =
        some (expectedValues [] actions, []) ∧
      ∀ index pos v, (empty.run actions).written[index]? = some (pos, v) →
        readList (((expectedValues [] actions).take index).map fun v => v.kind.read) (empty.run actions).buffer =
          some ((expectedValues [] actions).take index, (empty.run actions).buffer.drop pos) := by
  obtain ⟨chunks, hchunked⟩ := chunked_empty.run h
  refine ⟨?_, fun index pos v hwritten => ?_⟩
  · have hall := hchunked.reads_take chunks.length
    rw [← hchunked.reads.length_eq, take_length, hchunked.reads.length_eq, place_length, hchunked.buffer,
      drop_length, ← hchunked.buffer] at hall
    exact hall
  · have hpos : pos = place chunks index := hchunked.positions index _ hwritten
    rw [hpos]
    exact hchunked.reads_take index

/-- A number is patched, and what follows is read as before. -/
theorem reads_back_patched : readList [CompactKind.read .unsigned, CompactKind.read .signed]
        (empty.run [.write (.unsigned 300#32), .write (.signed (-2147483648)), .patch 0 5#32]).buffer =
      some ([.unsigned 5#32, .signed (-2147483648)], []) :=
  (reads_back [.write (.unsigned 300#32), .write (.signed (-2147483648)), .patch 0 5#32]
    ⟨trivial, trivial, ⟨0, 300#32, rfl, by decide⟩, trivial⟩).1

end CompactLog

end SpiderMonkey.Jit
