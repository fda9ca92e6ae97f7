import SpiderMonkey.Lib.LittleEndian

/-!
# The format of structured clones

The words of the serialized form: a word is a tag above 32 bits of data, a double, a pointer or a part of
an array.  Bytes are in little-endian order and pointers have 64 bits.
-/

namespace SpiderMonkey.StructuredClone

open LittleEndian

/-! ## Tags -/

/-- The tags of `StructuredDataType` that stand for one thing each. -/
inductive StructuredDataType
  | SCTAG_HEADER
  | SCTAG_NULL
  | SCTAG_UNDEFINED
  | SCTAG_BOOLEAN
  | SCTAG_INT32
  | SCTAG_STRING
  | SCTAG_DATE_OBJECT
  | SCTAG_REGEXP_OBJECT
  | SCTAG_ARRAY_OBJECT
  | SCTAG_OBJECT_OBJECT
  | SCTAG_ARRAY_BUFFER_OBJECT
  | SCTAG_BOOLEAN_OBJECT
  | SCTAG_STRING_OBJECT
  | SCTAG_NUMBER_OBJECT
  | SCTAG_BACK_REFERENCE_OBJECT
  | SCTAG_DO_NOT_USE_1
  | SCTAG_DO_NOT_USE_2
  | SCTAG_TYPED_ARRAY_OBJECT
  | SCTAG_MAP_OBJECT
  | SCTAG_SET_OBJECT
  | SCTAG_END_OF_KEYS
  | SCTAG_DO_NOT_USE_3
  | SCTAG_DATA_VIEW_OBJECT
  | SCTAG_SAVED_FRAME_OBJECT
  | SCTAG_JSPRINCIPALS
  | SCTAG_NULL_JSPRINCIPALS
  | SCTAG_RECONSTRUCTED_SAVED_FRAME_PRINCIPALS_IS_SYSTEM
  | SCTAG_RECONSTRUCTED_SAVED_FRAME_PRINCIPALS_IS_NOT_SYSTEM
  | SCTAG_SHARED_ARRAY_BUFFER_OBJECT
  | SCTAG_SHARED_WASM_MEMORY_OBJECT
  | SCTAG_BIGINT
  | SCTAG_BIGINT_OBJECT
  | SCTAG_TRANSFER_MAP_HEADER
  | SCTAG_TRANSFER_MAP_PENDING_ENTRY
  | SCTAG_TRANSFER_MAP_ARRAY_BUFFER
  | SCTAG_TRANSFER_MAP_STORED_ARRAY_BUFFER
  deriving DecidableEq

namespace StructuredDataType

def code : StructuredDataType → ℕ
  | SCTAG_HEADER => 0xFFF10000
  | SCTAG_NULL => 0xFFFF0000
  | SCTAG_UNDEFINED => 0xFFFF0001
  | SCTAG_BOOLEAN => 0xFFFF0002
  | SCTAG_INT32 => 0xFFFF0003
  | SCTAG_STRING => 0xFFFF0004
  | SCTAG_DATE_OBJECT => 0xFFFF0005
  | SCTAG_REGEXP_OBJECT => 0xFFFF0006
  | SCTAG_ARRAY_OBJECT => 0xFFFF0007
  | SCTAG_OBJECT_OBJECT => 0xFFFF0008
  | SCTAG_ARRAY_BUFFER_OBJECT => 0xFFFF0009
  | SCTAG_BOOLEAN_OBJECT => 0xFFFF000A
  | SCTAG_STRING_OBJECT => 0xFFFF000B
  | SCTAG_NUMBER_OBJECT => 0xFFFF000C
  | SCTAG_BACK_REFERENCE_OBJECT => 0xFFFF000D
  | SCTAG_DO_NOT_USE_1 => 0xFFFF000E
  | SCTAG_DO_NOT_USE_2 => 0xFFFF000F
  | SCTAG_TYPED_ARRAY_OBJECT => 0xFFFF0010
  | SCTAG_MAP_OBJECT => 0xFFFF0011
  | SCTAG_SET_OBJECT => 0xFFFF0012
  | SCTAG_END_OF_KEYS => 0xFFFF0013
  | SCTAG_DO_NOT_USE_3 => 0xFFFF0014
  | SCTAG_DATA_VIEW_OBJECT => 0xFFFF0015
  | SCTAG_SAVED_FRAME_OBJECT => 0xFFFF0016
  | SCTAG_JSPRINCIPALS => 0xFFFF0017
  | SCTAG_NULL_JSPRINCIPALS => 0xFFFF0018
  | SCTAG_RECONSTRUCTED_SAVED_FRAME_PRINCIPALS_IS_SYSTEM => 0xFFFF0019
  | SCTAG_RECONSTRUCTED_SAVED_FRAME_PRINCIPALS_IS_NOT_SYSTEM => 0xFFFF001A
  | SCTAG_SHARED_ARRAY_BUFFER_OBJECT => 0xFFFF001B
  | SCTAG_SHARED_WASM_MEMORY_OBJECT => 0xFFFF001C
  | SCTAG_BIGINT => 0xFFFF001D
  | SCTAG_BIGINT_OBJECT => 0xFFFF001E
  | SCTAG_TRANSFER_MAP_HEADER => 0xFFFF0200
  | SCTAG_TRANSFER_MAP_PENDING_ENTRY => 0xFFFF0201
  | SCTAG_TRANSFER_MAP_ARRAY_BUFFER => 0xFFFF0202
  | SCTAG_TRANSFER_MAP_STORED_ARRAY_BUFFER => 0xFFFF0203

/-- The tag that a number is, if it is one of them. -/
def ofCode? : ℕ → Option StructuredDataType
  | 0xFFF10000 => some SCTAG_HEADER
  | 0xFFFF0000 => some SCTAG_NULL
  | 0xFFFF0001 => some SCTAG_UNDEFINED
  | 0xFFFF0002 => some SCTAG_BOOLEAN
  | 0xFFFF0003 => some SCTAG_INT32
  | 0xFFFF0004 => some SCTAG_STRING
  | 0xFFFF0005 => some SCTAG_DATE_OBJECT
  | 0xFFFF0006 => some SCTAG_REGEXP_OBJECT
  | 0xFFFF0007 => some SCTAG_ARRAY_OBJECT
  | 0xFFFF0008 => some SCTAG_OBJECT_OBJECT
  | 0xFFFF0009 => some SCTAG_ARRAY_BUFFER_OBJECT
  | 0xFFFF000A => some SCTAG_BOOLEAN_OBJECT
  | 0xFFFF000B => some SCTAG_STRING_OBJECT
  | 0xFFFF000C => some SCTAG_NUMBER_OBJECT
  | 0xFFFF000D => some SCTAG_BACK_REFERENCE_OBJECT
  | 0xFFFF000E => some SCTAG_DO_NOT_USE_1
  | 0xFFFF000F => some SCTAG_DO_NOT_USE_2
  | 0xFFFF0010 => some SCTAG_TYPED_ARRAY_OBJECT
  | 0xFFFF0011 => some SCTAG_MAP_OBJECT
  | 0xFFFF0012 => some SCTAG_SET_OBJECT
  | 0xFFFF0013 => some SCTAG_END_OF_KEYS
  | 0xFFFF0014 => some SCTAG_DO_NOT_USE_3
  | 0xFFFF0015 => some SCTAG_DATA_VIEW_OBJECT
  | 0xFFFF0016 => some SCTAG_SAVED_FRAME_OBJECT
  | 0xFFFF0017 => some SCTAG_JSPRINCIPALS
  | 0xFFFF0018 => some SCTAG_NULL_JSPRINCIPALS
  | 0xFFFF0019 => some SCTAG_RECONSTRUCTED_SAVED_FRAME_PRINCIPALS_IS_SYSTEM
  | 0xFFFF001A => some SCTAG_RECONSTRUCTED_SAVED_FRAME_PRINCIPALS_IS_NOT_SYSTEM
  | 0xFFFF001B => some SCTAG_SHARED_ARRAY_BUFFER_OBJECT
  | 0xFFFF001C => some SCTAG_SHARED_WASM_MEMORY_OBJECT
  | 0xFFFF001D => some SCTAG_BIGINT
  | 0xFFFF001E => some SCTAG_BIGINT_OBJECT
  | 0xFFFF0200 => some SCTAG_TRANSFER_MAP_HEADER
  | 0xFFFF0201 => some SCTAG_TRANSFER_MAP_PENDING_ENTRY
  | 0xFFFF0202 => some SCTAG_TRANSFER_MAP_ARRAY_BUFFER
  | 0xFFFF0203 => some SCTAG_TRANSFER_MAP_STORED_ARRAY_BUFFER
  | _ => none

@[simp] lemma ofCode?_code (t : StructuredDataType) : ofCode? t.code = some t := by
  cases t <;> rfl

lemma code_of_ofCode? {n : ℕ} {t : StructuredDataType} (h : ofCode? n = some t) : t.code = n := by
  unfold ofCode? at h
  split at h <;> first | (obtain rfl := Option.some.inj h; rfl) | simp at h

lemma code_lt (t : StructuredDataType) : t.code < 2 ^ 32 := by cases t <;> decide

lemma code_injective : Function.Injective code := by
  intro t t' h
  exact Option.some.inj ((ofCode?_code t).symm.trans ((congrArg ofCode? h).trans (ofCode?_code t')))

end StructuredDataType

def SCTAG_FLOAT_MAX : ℕ := 0xFFF00000

def SCTAG_TYPED_ARRAY_V1_MIN : ℕ := 0xFFFF0100

/-- `SCTAG_TYPED_ARRAY_V1_UINT8_CLAMPED`. -/
def SCTAG_TYPED_ARRAY_V1_MAX : ℕ := SCTAG_TYPED_ARRAY_V1_MIN + 8

/-! ## Scopes and ownership -/

inductive StructuredCloneScope
  | SameProcess
  | DifferentProcess
  | DifferentProcessForIndexedDB
  | Unassigned
  | UnknownDestination
  deriving DecidableEq

def StructuredCloneScope.toNat : StructuredCloneScope → ℕ
  | SameProcess => 1
  | DifferentProcess => 2
  | DifferentProcessForIndexedDB => 3
  | Unassigned => 4
  | UnknownDestination => 5

/-- `TransferableOwnership`; numbers from `SCTAG_TMO_USER_MIN` on are the embedding's. -/
def SCTAG_TMO_UNFILLED : ℕ := 0

def SCTAG_TMO_UNOWNED : ℕ := 1

def SCTAG_TMO_FIRST_OWNED : ℕ := 2

def SCTAG_TMO_ALLOC_DATA : ℕ := 2

def SCTAG_TMO_MAPPED_DATA : ℕ := 3

/-- `TransferableMapHeader`. -/
def SCTAG_TM_UNREAD : ℕ := 0

def SCTAG_TM_TRANSFERRED : ℕ := 1

/-! ## Words -/

def pairToUInt64 (tag data : ℕ) : ℕ := data % 2 ^ 32 + 2 ^ 32 * tag

lemma pairToUInt64_div (tag data : ℕ) : pairToUInt64 tag data / 2 ^ 32 = tag := by
  unfold pairToUInt64
  omega

lemma pairToUInt64_mod {tag data : ℕ} (h : data < 2 ^ 32) : pairToUInt64 tag data % 2 ^ 32 = data := by
  unfold pairToUInt64
  omega

lemma pairToUInt64_lt {tag data : ℕ} (h : tag < 2 ^ 32) : pairToUInt64 tag data < (2 ^ 8) ^ 8 := by
  unfold pairToUInt64
  omega

/-- `ComputePadding`: the bytes that fill up the last word of an array. -/
def computePadding (nelems elemSize : ℕ) : ℕ := padding 8 (nelems % 8 * elemSize)

/-- The bytes of an array, filled up with zeros to words. -/
def arrayBytes (elemSize : ℕ) (p : List ℕ) : List Byte :=
  encodeArray elemSize p ++ List.replicate (computePadding p.length elemSize) 0#8

end SpiderMonkey.StructuredClone
