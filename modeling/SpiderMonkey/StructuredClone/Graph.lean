import SpiderMonkey.BigInt.Basic
import SpiderMonkey.Lib.DoubleArith
import SpiderMonkey.StructuredClone.Format
import SpiderMonkey.Vm.Value

/-!
# What is cloned

The values and objects that the writer of a structured clone finds and that its reader makes.  Objects
refer to each other by names of any type.  A number is an int32 or a double, as the engine represents it,
and a string has a representation too; `CloneValue.toValue` is the value of the language.
-/

namespace SpiderMonkey.StructuredClone

open Binary64 LittleEndian

/-! ## Strings and property keys -/

/-- `JSString::MAX_LENGTH`. -/
def MAX_LENGTH : ℕ := 2 ^ 30 - 2

/-- A `JSLinearString`: its characters, and whether they are stored as Latin-1 characters. -/
structure LinearString where
  chars : JSString
  hasLatin1Chars : Bool
  latin1 : hasLatin1Chars = true → ∀ c ∈ chars, c.toNat < 2 ^ 8
  length_le : chars.length ≤ MAX_LENGTH
  deriving DecidableEq

inductive Id
  | int (i : ℕ)
  | atom (s : LinearString)
  deriving DecidableEq

/-! ## Values -/

inductive CloneValue (O : Type)
  | undefined
  | null
  | boolean (b : Bool)
  | int32 (i : BitVec 32)
  | double (d : Double)
  | string (s : LinearString)
  | symbol (id : ℕ)
  | bigint (n : BigInt .bits64)
  | object (obj : O)
  deriving DecidableEq

def Id.toValue {O : Type} : Id → CloneValue O
  | int i => .int32 (BitVec.ofNat 32 i)
  | atom s => .string s

/-- `NumberValue` of a `uint32_t`. -/
def numberValue {O : Type} (n : ℕ) : CloneValue O :=
  if n < 2 ^ 31 then .int32 (BitVec.ofNat 32 n) else .double (ofInt n)

def canonicalizeNaN (d : Double) : Double := if IsNaN d then Binary64.nan else d

/-- `Value::setNumber`: a double that is the number of an int32 is one. -/
def setNumber {O : Type} (d : Double) : CloneValue O :=
  let i := BitVec.ofInt 32 (scaledInt d / 2 ^ 1074)
  if ofInt i.toInt = d then .int32 i else .double d

namespace CloneValue

variable {O : Type}

/-- The value of the language, once objects have got other names. -/
def toValue (name : O → ℕ) : CloneValue O → Value
  | undefined => .undefined
  | null => .null
  | boolean b => .boolean b
  | int32 i => .number (ofInt i.toInt)
  | double d => if IsNaN d then .nan else .number d
  | string s => .string s.chars
  | symbol id => .symbol id
  | bigint n => .bigint n.toInt
  | object obj => .object (name obj)

def object? : CloneValue O → Option O
  | object obj => some obj
  | _ => none

end CloneValue

/-! ## Objects -/

/-- `Scalar::Type`, as far as there are typed arrays of it. -/
inductive ScalarType
  | Int8
  | Uint8
  | Int16
  | Uint16
  | Int32
  | Uint32
  | Float32
  | Float64
  | Uint8Clamped
  | BigInt64
  | BigUint64
  deriving DecidableEq

namespace ScalarType

def code : ScalarType → ℕ
  | Int8 => 0
  | Uint8 => 1
  | Int16 => 2
  | Uint16 => 3
  | Int32 => 4
  | Uint32 => 5
  | Float32 => 6
  | Float64 => 7
  | Uint8Clamped => 8
  | BigInt64 => 9
  | BigUint64 => 10

def ofCode? : ℕ → Option ScalarType
  | 0 => some Int8
  | 1 => some Uint8
  | 2 => some Int16
  | 3 => some Uint16
  | 4 => some Int32
  | 5 => some Uint32
  | 6 => some Float32
  | 7 => some Float64
  | 8 => some Uint8Clamped
  | 9 => some BigInt64
  | 10 => some BigUint64
  | _ => none

/-- `TypedArrayElemSize`. -/
def byteSize : ScalarType → ℕ
  | Int8 | Uint8 | Uint8Clamped => 1
  | Int16 | Uint16 => 2
  | Int32 | Uint32 | Float32 => 4
  | Float64 | BigInt64 | BigUint64 => 8

end ScalarType

/-- `ArrayBufferObject::BufferKind`. -/
inductive BufferKind
  | INLINE_DATA
  | MALLOCED
  | NO_DATA
  | USER_OWNED
  | WASM
  | MAPPED
  | EXTERNAL
  deriving DecidableEq

/-- The contents of an array buffer; `data` is the pointer that is transferred, to the contents or to the
copy that is made of them. -/
structure ArrayBufferData where
  bytes : List Byte
  data : ℕ
  kind : BufferKind
  isPreparedForAsmJS : Bool

/-- The principals of a saved frame; those of an embedding have a name. -/
inductive Principals
  | null
  | isSystem
  | isNotSystem
  | embedding (id : ℕ)
  deriving DecidableEq

/-- The slots of a `SavedFrame`, except for its parent. -/
structure FrameSlots where
  principals : Principals
  mutedErrors : Bool
  source : LinearString
  line : ℕ
  column : ℕ
  functionDisplayName : Option LinearString
  asyncCause : Option LinearString

/-- The slot for the parent of a `SavedFrame`. -/
inductive ParentSlot (O : Type)
  | uninitialized
  | null
  | frame (obj : O)
  deriving DecidableEq

/-- The value of the parent as it is written. -/
def ParentSlot.toValue {O : Type} : ParentSlot O → CloneValue O
  | frame obj => .object obj
  | _ => .null

/-- An object, with what a clone of it depends on.  The properties are the own enumerable ones whose keys
are no symbols, in their order.  `other` is everything else. -/
inductive CloneObject (O : Type)
  | plain (properties : List (Id × CloneValue O))
  | array (length : ℕ) (properties : List (Id × CloneValue O))
  | booleanObject (b : Bool)
  | stringObject (s : LinearString)
  | numberObject (d : Double)
  | bigintObject (n : BigInt .bits64)
  | date (t : Double)
  | regexp (flags : ℕ) (source : LinearString)
  | arrayBuffer (buffer : ArrayBufferData)
  | detachedArrayBuffer
  | sharedArrayBuffer (rawbuf : ℕ) (byteLength : ℕ)
  | typedArray (type : ScalarType) (length : ℕ) (byteOffset : ℕ) (buffer : O)
  | dataView (byteLength : ℕ) (byteOffset : ℕ) (buffer : O)
  | map (entries : List (CloneValue O × CloneValue O))
  | set (keys : List (CloneValue O))
  | savedFrame (slots : FrameSlots) (parent : ParentSlot O)
  | sharedWasmMemory (buffer : O)
  | unsharedWasmMemory
  | other

/-- The properties that are cloned. -/
def CloneObject.properties {O : Type} : CloneObject O → List (Id × CloneValue O)
  | plain properties => properties
  | array _ properties => properties
  | _ => []

end SpiderMonkey.StructuredClone
