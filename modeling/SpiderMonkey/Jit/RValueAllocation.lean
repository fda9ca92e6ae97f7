import SpiderMonkey.Jit.CompactValues

/-!
# Allocations of values in snapshots

An allocation has a mode and at most two payloads.  A mode with a known type has the type in its low bits when it is
written.  The bytes of an allocation are read back as the allocation (`RValueAllocation.reads_bytes`).
-/

namespace SpiderMonkey.Jit

open List
open LittleEndian (Byte)
open Reading

/-- How values are boxed on the platform. -/
inductive ValueBoxing
  | nunbox32
  | punbox64
  deriving DecidableEq

inductive PayloadType
  | none
  | index
  | stackOffset
  | gpr
  | fpu
  | packedTag
  deriving DecidableEq

structure Layout where
  type1 : PayloadType
  type2 : PayloadType
  deriving DecidableEq

/-- There are at most 256 registers and 16 types. -/
def PayloadType.InRange (type : PayloadType) (p : BitVec 32) : Prop :=
  match type with
  | .none => p = 0
  | .index => True
  | .stackOffset => True
  | .gpr => p.toNat < 256
  | .fpu => p.toNat < 256
  | .packedTag => p.toNat < 16

/-- The payloads are as wide as an index; registers are given by their codes. -/
structure RValueAllocation where
  mode_ : ℕ
  arg1 : BitVec 32
  arg2 : BitVec 32
  deriving DecidableEq

namespace RValueAllocation

open CompactBufferReader CompactBuffer CompactBufferWriter CompactValue

def CONSTANT : ℕ := 0x00
def CST_UNDEFINED : ℕ := 0x01
def CST_NULL : ℕ := 0x02
def DOUBLE_REG : ℕ := 0x03
def ANY_FLOAT_REG : ℕ := 0x04
def ANY_FLOAT_STACK : ℕ := 0x05
def UNTYPED_REG_REG : ℕ := 0x06
def UNTYPED_REG_STACK : ℕ := 0x07
def UNTYPED_STACK_REG : ℕ := 0x08
def UNTYPED_STACK_STACK : ℕ := 0x09
def UNTYPED_REG : ℕ := 0x06
def UNTYPED_STACK : ℕ := 0x07
def RECOVER_INSTRUCTION : ℕ := 0x0a
def RI_WITH_DEFAULT_CST : ℕ := 0x0b
def TYPED_REG_MIN : ℕ := 0x10
def TYPED_REG_MAX : ℕ := 0x1f
def TYPED_STACK_MIN : ℕ := 0x20
def TYPED_STACK_MAX : ℕ := 0x2f
def RECOVER_SIDE_EFFECT_MASK : ℕ := 0x80
def MODE_BITS_MASK : ℕ := 0x17f
def PACKED_TAG_MASK : ℕ := 0x0f

/-- Other modes crash. -/
def layoutFromMode (boxing : ValueBoxing) (mode : ℕ) : Option Layout :=
  if mode = CONSTANT then some ⟨.index, .none⟩
  else if mode = CST_UNDEFINED then some ⟨.none, .none⟩
  else if mode = CST_NULL then some ⟨.none, .none⟩
  else if mode = DOUBLE_REG then some ⟨.fpu, .none⟩
  else if mode = ANY_FLOAT_REG then some ⟨.fpu, .none⟩
  else if mode = ANY_FLOAT_STACK then some ⟨.stackOffset, .none⟩
  else if boxing = .nunbox32 ∧ mode = UNTYPED_REG_REG then some ⟨.gpr, .gpr⟩
  else if boxing = .nunbox32 ∧ mode = UNTYPED_REG_STACK then some ⟨.gpr, .stackOffset⟩
  else if boxing = .nunbox32 ∧ mode = UNTYPED_STACK_REG then some ⟨.stackOffset, .gpr⟩
  else if boxing = .nunbox32 ∧ mode = UNTYPED_STACK_STACK then some ⟨.stackOffset, .stackOffset⟩
  else if boxing = .punbox64 ∧ mode = UNTYPED_REG then some ⟨.gpr, .none⟩
  else if boxing = .punbox64 ∧ mode = UNTYPED_STACK then some ⟨.stackOffset, .none⟩
  else if mode = RECOVER_INSTRUCTION then some ⟨.index, .none⟩
  else if mode = RI_WITH_DEFAULT_CST then some ⟨.index, .index⟩
  else if TYPED_REG_MIN ≤ mode ∧ mode ≤ TYPED_REG_MAX then some ⟨.packedTag, .gpr⟩
  else if TYPED_STACK_MIN ≤ mode ∧ mode ≤ TYPED_STACK_MAX then some ⟨.packedTag, .stackOffset⟩
  else none

variable (alloc : RValueAllocation)

def mode : ℕ := alloc.mode_ &&& MODE_BITS_MASK

/-! ## Writing and reading -/

/-- A type is put into the byte of the mode, which has just been written. -/
def writePayload (writer : CompactBufferWriter) (type : PayloadType) (p : BitVec 32) : CompactBufferWriter :=
  match type with
  | .none => writer
  | .index => writer.writeUnsigned p.toNat
  | .stackOffset => writer.writeSigned p
  | .gpr => writer.writeByte p.toNat
  | .fpu => writer.writeByte p.toNat
  | .packedTag => writer.dropLast ++ (writer.getLast?.map fun mode => mode ||| BitVec.ofNat 8 p.toNat).toList

def ALLOCATION_TABLE_ALIGNMENT : ℕ := 2

def writePadding (writer : CompactBufferWriter) : CompactBufferWriter :=
  if writer.length % ALLOCATION_TABLE_ALIGNMENT ≠ 0 then writePadding (writer.writeByte 0x7f) else writer
termination_by writer.length % ALLOCATION_TABLE_ALIGNMENT
decreasing_by
  rw [writeByte, List.length_append, length_singleton, ALLOCATION_TABLE_ALIGNMENT] at *
  omega

def write (boxing : ValueBoxing) (writer : CompactBufferWriter) : Option CompactBufferWriter :=
  (layoutFromMode boxing alloc.mode).map fun layout =>
    writePadding (writePayload (writePayload (writer.writeByte alloc.mode_) layout.type1 alloc.arg1) layout.type2 alloc.arg2)

/-- A type is taken out of the mode. -/
def readPayload (type : PayloadType) (mode : ℕ) : Reader Byte (ℕ × BitVec 32) :=
  match type with
  | .none => fun bytes => some ((mode, 0), bytes)
  | .index => readUnsigned.map fun index => (mode, BitVec.ofNat 32 index)
  | .stackOffset => readSigned.map fun offset => (mode, offset)
  | .gpr => readByte.map fun code => (mode, BitVec.ofNat 32 code)
  | .fpu => readByte.map fun code => (mode, BitVec.ofNat 32 code)
  | .packedTag => fun bytes =>
    some ((mode &&& (0xff ^^^ PACKED_TAG_MASK), BitVec.ofNat 32 (mode &&& PACKED_TAG_MASK)), bytes)

def read (boxing : ValueBoxing) : Reader Byte RValueAllocation :=
  readByte.bind fun mode =>
    match layoutFromMode boxing (mode &&& MODE_BITS_MASK) with
    | some layout =>
      (readPayload layout.type1 mode).bind fun p => (readPayload layout.type2 p.1).map fun p' => ⟨p'.1, p.2, p'.2⟩
    | none => fun _ => none

/-! ## What may be written -/

/-- The mode is one of those of the platform, maybe with the flag for side effects, and without a type. -/
def Valid (boxing : ValueBoxing) : Prop :=
  ∃ layout, layoutFromMode boxing alloc.mode = some layout ∧ alloc.mode_ < 256 ∧
    layout.type1.InRange alloc.arg1 ∧ layout.type2.InRange alloc.arg2 ∧
    (layout.type1 = .packedTag → alloc.mode_ &&& PACKED_TAG_MASK = 0)

/-! ## The bytes of an allocation -/

def payloadBytes (type : PayloadType) (p : BitVec 32) : List Byte :=
  match type with
  | .none => []
  | .index => (unsigned p).bytes
  | .stackOffset => (signed p).bytes
  | .gpr => [BitVec.ofNat 8 p.toNat]
  | .fpu => [BitVec.ofNat 8 p.toNat]
  | .packedTag => []

lemma writePayload_eq (writer : CompactBufferWriter) {type : PayloadType} (htype : type ≠ .packedTag) (p : BitVec 32) :
    writePayload writer type p = writer ++ payloadBytes type p := by
  cases type with
  | none => exact (append_nil _).symm
  | index => exact write_eq writer (.unsigned p)
  | stackOffset => exact write_eq writer (.signed p)
  | gpr => rfl
  | fpu => rfl
  | packedTag => exact absurd rfl htype

lemma reads_readPayload {type : PayloadType} (htype : type ≠ .packedTag) {p : BitVec 32} (hrange : type.InRange p)
    (mode : ℕ) : Reads (readPayload type mode) (payloadBytes type p) (mode, p) := by
  have hcode (hcode : p.toNat < 256) : Reads (readByte.map fun code => (mode, BitVec.ofNat 32 code))
      [BitVec.ofNat 8 p.toNat] (mode, p) := by
    have hsame : BitVec.ofNat 32 p.toNat = p := by simp
    have h := (reads_readByte hcode).map fun code => (mode, BitVec.ofNat 32 code)
    rwa [hsame] at h
  cases type with
  | none =>
    have hzero : p = 0 := hrange
    rw [hzero]
    exact fun rest => rfl
  | index =>
    have h := (reads_variableLength (le_refl p.toNat) p.isLt).map fun index =>
      (mode, BitVec.ofNat 32 index)
    rw [BitVec.ofNat_toNat, BitVec.setWidth_eq] at h
    have hbytes : payloadBytes .index p = _ := bytes_unsigned p
    rw [hbytes]
    exact h
  | stackOffset =>
    have hbytes : payloadBytes .stackOffset p = _ := writeSigned_eq [] p
    rw [hbytes]
    exact (reads_readSigned p).map fun offset => (mode, offset)
  | gpr => exact hcode hrange
  | fpu => exact hcode hrange
  | packedTag => exact absurd rfl htype

/-- The byte of the mode, with the type in it if there is one. -/
def modeByte (type : PayloadType) : ℕ := if type = .packedTag then alloc.mode_ ||| alloc.arg1.toNat else alloc.mode_

lemma packedTag_bits : ∀ mode < 256, ∀ tag < 16, mode &&& PACKED_TAG_MASK = 0 →
    (mode ||| tag) &&& PACKED_TAG_MASK = tag ∧ (mode ||| tag) &&& (0xff ^^^ PACKED_TAG_MASK) = mode ∧ mode ||| tag < 256 ∧
      BitVec.ofNat 8 mode ||| BitVec.ofNat 8 tag = BitVec.ofNat 8 (mode ||| tag) := by
  decide +kernel

lemma layoutFromMode_or (boxing : ValueBoxing) : ∀ mode < 256, ∀ tag < 16, mode &&& PACKED_TAG_MASK = 0 →
    ((layoutFromMode boxing (mode &&& MODE_BITS_MASK)).map Layout.type1 ≠ some .packedTag ∨
      layoutFromMode boxing ((mode ||| tag) &&& MODE_BITS_MASK) = layoutFromMode boxing (mode &&& MODE_BITS_MASK)) := by
  cases boxing <;> decide +kernel

lemma layoutFromMode_type2 (boxing : ValueBoxing) : ∀ mode < 256,
    (layoutFromMode boxing (mode &&& MODE_BITS_MASK)).map Layout.type2 ≠ some .packedTag := by
  cases boxing <;> decide +kernel

/-- The mode and the payloads, without the padding. -/
def bytes (layout : Layout) : List Byte :=
  BitVec.ofNat 8 (alloc.modeByte layout.type1) :: (payloadBytes layout.type1 alloc.arg1 ++ payloadBytes layout.type2 alloc.arg2)

/-- What a valid allocation has. -/
structure Laid (boxing : ValueBoxing) (layout : Layout) : Prop where
  eq_layout : layoutFromMode boxing alloc.mode = some layout
  mode_lt : alloc.mode_ < 256
  arg1 : layout.type1.InRange alloc.arg1
  arg2 : layout.type2.InRange alloc.arg2
  tag : layout.type1 = .packedTag → alloc.mode_ &&& PACKED_TAG_MASK = 0

variable {alloc} {boxing : ValueBoxing} {layout : Layout}

lemma Laid.type2_ne (h : alloc.Laid boxing layout) : layout.type2 ≠ .packedTag := by
  intro hsnd
  refine layoutFromMode_type2 boxing alloc.mode_ h.mode_lt ?_
  have hlayout : layoutFromMode boxing (alloc.mode_ &&& MODE_BITS_MASK) = some layout := h.eq_layout
  simp [hlayout, hsnd]

lemma Laid.write_eq (h : alloc.Laid boxing layout) (writer : CompactBufferWriter) :
    alloc.write boxing writer = some (writePadding (writer ++ alloc.bytes layout)) := by
  have hhead : writePayload (writer.writeByte alloc.mode_) layout.type1 alloc.arg1 =
      writer ++ (BitVec.ofNat 8 (alloc.modeByte layout.type1) :: payloadBytes layout.type1 alloc.arg1) := by
    rw [modeByte]
    by_cases htag : layout.type1 = .packedTag
    · have htag' : alloc.arg1.toNat < 16 := by
        have hrange := h.arg1
        rwa [htag] at hrange
      rw [if_pos htag, htag, writePayload, writeByte, dropLast_concat, getLast?_concat,
        Option.map_some, (packedTag_bits _ h.mode_lt _ htag' (h.tag htag)).2.2.2]
      rfl
    · simp [htag, writePayload_eq _ htag, writeByte]
  simp [write, h.eq_layout, Option.map_some, hhead, writePayload_eq _ h.type2_ne, bytes]

/-- An allocation is read back from its bytes. -/
lemma Laid.reads_bytes (h : alloc.Laid boxing layout) : Reads (read boxing) (alloc.bytes layout) alloc := by
  have hlayout : layoutFromMode boxing (alloc.mode_ &&& MODE_BITS_MASK) = some layout := h.eq_layout
  have hsnd := (reads_readPayload h.type2_ne h.arg2 alloc.mode_).map fun p' : ℕ × BitVec 32 =>
    (⟨p'.1, alloc.arg1, p'.2⟩ : RValueAllocation)
  rw [bytes, read, modeByte]
  by_cases htag : layout.type1 = .packedTag
  · have htag' : alloc.arg1.toNat < 16 := by
      have hrange := h.arg1
      rwa [htag] at hrange
    obtain ⟨htype, hmode, hbyte, -⟩ := packedTag_bits _ h.mode_lt _ htag' (h.tag htag)
    have hsame := (layoutFromMode_or boxing _ h.mode_lt _ htag' (h.tag htag)).resolve_left
      (not_not.2 (by simp [hlayout, htag]))
    have hread : Reads (readPayload layout.type1 (alloc.mode_ ||| alloc.arg1.toNat)) [] (alloc.mode_, alloc.arg1) := by
      intro rest
      rw [htag, readPayload, htype, hmode, BitVec.ofNat_toNat, BitVec.setWidth_eq]
      rfl
    rw [if_pos htag]
    refine reads_readByte_bind hbyte ?_
    rw [hsame, hlayout]
    have hpayload : payloadBytes layout.type1 alloc.arg1 = [] := by rw [htag, payloadBytes]
    rw [hpayload]
    exact hread.bind hsnd
  · rw [if_neg htag]
    refine reads_readByte_bind h.mode_lt ?_
    rw [hlayout]
    exact (reads_readPayload htag h.arg1 alloc.mode_).bind hsnd

lemma Valid.laid (h : alloc.Valid boxing) : ∃ layout, alloc.Laid boxing layout := by
  obtain ⟨layout, hlayout, hmode, harg1, harg2, htag⟩ := h
  exact ⟨layout, hlayout, hmode, harg1, harg2, htag⟩

/-- There is at most one byte of padding. -/
lemma writePadding_eq (writer : CompactBufferWriter) :
    ∃ padding, writePadding writer = writer ++ padding ∧ (writer ++ padding).length % 2 = 0 := by
  by_cases heven : writer.length % ALLOCATION_TABLE_ALIGNMENT = 0
  · refine ⟨[], ?_, ?_⟩
    · rw [writePadding, if_neg (not_not.2 heven), append_nil]
    · rw [append_nil]
      exact heven
  · have hlength : (writer.writeByte 0x7f).length % 2 = 0 := by
      rw [writeByte, List.length_append, length_singleton]
      rw [ALLOCATION_TABLE_ALIGNMENT] at heven
      omega
    refine ⟨[BitVec.ofNat 8 0x7f], ?_, hlength⟩
    have hlength' : (writer.writeByte 0x7f).length % ALLOCATION_TABLE_ALIGNMENT = 0 := hlength
    rw [writePadding, if_pos heven, writePadding, if_neg (not_not.2 hlength')]
    rfl

end RValueAllocation

end SpiderMonkey.Jit
