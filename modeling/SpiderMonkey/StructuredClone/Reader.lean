import SpiderMonkey.Lib.ScriptLoop
import SpiderMonkey.StructuredClone.Graph

/-!
# Reading a structured clone

`JSStructuredCloneReader` without callbacks: an explicit stack of the objects whose entries are read, and
next to it the `ChildCounter`, whose assertions are assertions here.  The data are bytes in segments, of
which a word is read only where the rest of a segment has room for it.  New objects are put at the end of a
heap.
-/

namespace SpiderMonkey.StructuredClone

open LittleEndian
open Binary64 (Double IsFinite IsNaN scaledInt ofInt)

/-! ## The reader and its surroundings -/

/-- What ends the reading. -/
inductive ReadError
  | JSMSG_SC_BAD_SERIALIZED_DATA (what : String)
  | JSMSG_SC_UNSUPPORTED_TYPE
  | JSMSG_SC_SAB_DISABLED
  | JSMSG_BIGINT_TOO_LARGE
  | JSMSG_BAD_ARRAY_LENGTH
  | JSMSG_TYPED_ARRAY_CONSTRUCT_BOUNDS
  | JSMSG_OFFSET_OUT_OF_BUFFER
  | JSMSG_INVALID_DATA_VIEW_LENGTH
  | JSMSG_BAD_INDEX
  | JSMSG_CANT_REDEFINE_PROP
  | JS_SCERR_TRANSFERABLE
  | JS_SCERR_NOT_CLONABLE (what : String)
  | JS_SCERR_NOT_CLONABLE_WITH_COOP_COEP (what : String)
  | syntaxError
  | outOfMemory
  | silent
  deriving DecidableEq

/-- What is fixed while a clone is read. -/
structure ReadContext where
  /-- The sizes of the segments of the data. -/
  segments : List ℕ
  areIntraClusterClonableSharedObjectsAllowed : Bool
  areSharedMemoryObjectsAllowed : Bool
  sharedMemoryAndAtomicsEnabled : Bool
  coopAndCoepEnabled : Bool
  /-- `irregexp::CheckPatternSyntax`. -/
  checkPatternSyntax : JSString → ℕ → Bool
  /-- The hook `readPrincipals`, for the bytes that are left: the principals, and how many words it reads. -/
  readPrincipals : Option (List Byte → Option (ℕ × ℕ))
  /-- The bytes at a pointer. -/
  contents : ℕ → List Byte
  /-- Whether there is memory for an array buffer with the contents at a pointer. -/
  canAdopt : ℕ → Bool

/-- `JSStructuredCloneReader`, with the `ChildCounter` of `read`.  The top of a stack is its head, and
`allObjs` has `none` in the place of an object that is not there yet. -/
structure Reader where
  data : List Byte
  point : ℕ
  allowedScope : StructuredCloneScope
  objs : List ℕ
  allObjs : List (Option ℕ)
  heap : List (CloneObject ℕ)
  counts : List ℕ
  objsLength : ℕ
  objCountsIndex : ℕ

abbrev ReadOp := Script Reader ReadError

namespace Reader

def init (data : List Byte) (allowedScope : StructuredCloneScope) : Reader :=
  ⟨data, 0, allowedScope, [], [], [], [], 0, 0⟩

/-- `BufferIterator::advance`, which stops at the end of the data. -/
def advance (size : ℕ) (r : Reader) : Reader := { r with point := min (r.point + size) r.data.length }

def seekTo (point : ℕ) (r : Reader) : Reader := { r with point := point }

/-- Put a new object on the heap. -/
def alloc (c : CloneObject ℕ) (r : Reader) : Reader := { r with heap := r.heap ++ [c] }

def setObject (ref : ℕ) (c : CloneObject ℕ) (r : Reader) : Reader := { r with heap := r.heap.set ref c }

def append (entry : Option ℕ) (r : Reader) : Reader := { r with allObjs := r.allObjs ++ [entry] }

def fill (index ref : ℕ) (r : Reader) : Reader := { r with allObjs := r.allObjs.set index (some ref) }

def pushObj (ref : ℕ) (r : Reader) : Reader := { r with objs := ref :: r.objs }

end Reader

/-- What is left of the segment at `point`. -/
def remainingInSegment : List ℕ → ℕ → ℕ
  | [], _ => 0
  | size :: sizes, point => if point < size then size - point else remainingInSegment sizes (point - size)

namespace ReadOp

open Script

variable (cx : ReadContext)

/-! ## Input -/

def reportTruncated {α : Type} : ReadOp α := throw (.JSMSG_SC_BAD_SERIALIZED_DATA "truncated")

def peek : ReadOp ℕ := do
  let r ← get
  assert (8 ≤ remainingInSegment cx.segments r.point)
  pure (Radix.val ((r.data.drop r.point).take 8))

def get : ReadOp ℕ := do
  let r ← Script.get
  if 8 ≤ remainingInSegment cx.segments r.point then peek cx else reportTruncated

def read : ReadOp ℕ := do
  let u ← get cx
  modify (Reader.advance 8)
  pure u

def splitPair (u : ℕ) : ℕ × ℕ := (u / 2 ^ 32 % 2 ^ 32, u % 2 ^ 32)

def getPair : ReadOp (ℕ × ℕ) := do
  let u ← get cx
  pure (splitPair u)

def readPair : ReadOp (ℕ × ℕ) := do
  let u ← read cx
  pure (splitPair u)

def readDouble : ReadOp Double := do
  let u ← read cx
  pure (canonicalizeNaN (BitVec.ofNat 64 u))

/-- `BufferIterator::readBytes`, which goes to the end of the data when they are too short. -/
def readRaw (size : ℕ) : ReadOp (List Byte) := do
  let r ← Script.get
  Script.modify (Reader.advance size)
  if r.point + size ≤ r.data.length then pure ((r.data.drop r.point).take size) else Script.throw .silent

def readArray (elemSize nelems : ℕ) : ReadOp (List ℕ) :=
  if nelems = 0 then pure []
  else if 2 ^ 64 ≤ nelems * elemSize then reportTruncated
  else do
    let bytes ← readRaw (nelems * elemSize)
    modify (Reader.advance (computePadding nelems elemSize))
    pure (decodeArray elemSize nelems bytes)

def readBytes (nbytes : ℕ) : ReadOp (List Byte) := do
  let ns ← readArray 1 nbytes
  pure (ns.map (BitVec.ofNat 8))

/-! ## Strings and BigInts -/

/-- The string of these characters, if it is not too long. -/
def linearString? (latin1 : Bool) (ns : List ℕ) : Option LinearString :=
  let chars : JSString := ns.map fun n => UInt16.ofNat (if latin1 = true then n % 2 ^ 8 else n)
  if h : chars.length ≤ MAX_LENGTH ∧ (latin1 = true → ∀ c ∈ chars, c.toNat < 2 ^ 8) then
    some ⟨chars, latin1, h.2, h.1⟩
  else none

def readString (data : ℕ) : ReadOp LinearString := do
  let nchars := data % 2 ^ 31
  let latin1 := decide (2 ^ 31 ≤ data)
  if MAX_LENGTH < nchars then throw (.JSMSG_SC_BAD_SERIALIZED_DATA "string length")
  else do
    let ns ← readArray (if latin1 = true then 1 else 2) nchars
    match linearString? latin1 ns with
    | some s => pure s
    | none => stuck

def readBigInt (data : ℕ) : ReadOp (BigInt .bits64) := do
  let length := data % 2 ^ 31
  if length = 0 then pure ⟨false, []⟩
  else if BigInt.MaxDigitLength .bits64 < length then throw .JSMSG_BIGINT_TOO_LARGE
  else do
    let ns ← readArray 8 length
    pure ⟨decide (2 ^ 31 ≤ data), ns.map (BitVec.ofNat 64)⟩

/-! ## Property keys -/

/-- `AtomizeString`: the representation of an atom depends on its characters. -/
def atomizeString (s : LinearString) : LinearString where
  chars := s.chars
  hasLatin1Chars := decide (∀ c ∈ s.chars, c.toNat < 2 ^ 8)
  latin1 := of_decide_eq_true
  length_le := s.length_le

/-- The decimal digits of a number as characters. -/
def decimalChars (n : ℕ) : JSString := JSString.ofAscii (toString n)

/-- `JSLinearString::isIndex`: the number that a string is the canonical form of. -/
def isIndex (chars : JSString) : Option ℕ :=
  let n := Nat.ofDigits 10 (chars.reverse.map fun c => c.toNat - 48)
  if decimalChars n = chars ∧ n < 2 ^ 32 - 1 then some n else none

def atomToId (s : LinearString) : Id :=
  match isIndex s.chars with
  | some n => if n < 2 ^ 31 then .int n else .atom s
  | none => .atom s

/-- The string of an int32. -/
def int32ToString (i : ℤ) : JSString :=
  if i < 0 then JSString.ofAscii "-" ++ decimalChars i.natAbs else decimalChars i.natAbs

/-- `PrimitiveValueToId`, for the values that can be keys of properties. -/
def primitiveValueToId : CloneValue ℕ → Option Id
  | .string s => some (atomToId (atomizeString s))
  | .int32 i =>
    if 0 ≤ i.toInt then some (.int i.toNat)
    else
      let chars := int32ToString i.toInt
      if h : chars.length ≤ MAX_LENGTH then
        some (.atom (atomizeString ⟨chars, false, fun h => absurd h (by decide), h⟩))
      else none
  | _ => none

/-! ## Properties, maps and sets -/

/-- Where a new property comes in the order of properties: integers first, in ascending order. -/
def insertProperty (id : Id) (v : CloneValue ℕ) : List (Id × CloneValue ℕ) → List (Id × CloneValue ℕ)
  | [] => [(id, v)]
  | (id', v') :: rest =>
    match id, id' with
    | .int i, .int i' =>
      if i < i' then (id, v) :: (id', v') :: rest else (id', v') :: insertProperty id v rest
    | .int _, .atom _ => (id, v) :: (id', v') :: rest
    | .atom _, _ => (id', v') :: insertProperty id v rest

def putProperty (id : Id) (v : CloneValue ℕ) (properties : List (Id × CloneValue ℕ)) : List (Id × CloneValue ℕ) :=
  if id ∈ properties.map Prod.fst then
    properties.map fun p => if p.1 = id then (id, v) else p
  else insertProperty id v properties

/-- `IdIsIndex`. -/
def Id.index? : Id → Option ℕ
  | .int i => some i
  | .atom s => isIndex s.chars

/-- Whether a key is `length`. -/
def isLength : Id → Bool
  | .atom s => s.chars == JSString.ofAscii "length"
  | .int _ => false

/-- `DefineDataProperty`, which cannot make the length of an array enumerable. -/
def defineDataProperty (ref : ℕ) (id : Id) (v : CloneValue ℕ) : ReadOp Unit := do
  let r ← Script.get
  match r.heap[ref]? with
  | some (.plain properties) => Script.modify (Reader.setObject ref (.plain (putProperty id v properties)))
  | some (.array length properties) =>
    if isLength id = true then Script.throw .JSMSG_CANT_REDEFINE_PROP
    else
      let length' := match Id.index? id with
        | some index => max length (index + 1)
        | none => length
      Script.modify (Reader.setObject ref (.array length' (putProperty id v properties)))
  | _ => Script.stuck

/-- `HashableValue::setValue`. -/
def hashableValue : CloneValue ℕ → CloneValue ℕ
  | .string s => .string (atomizeString s)
  | .double d =>
    let i := BitVec.ofInt 32 (scaledInt d / 2 ^ 1074)
    if IsFinite d ∧ scaledInt d = i.toInt * 2 ^ 1074 then .int32 i else .double (canonicalizeNaN d)
  | v => v

def putEntry (key v : CloneValue ℕ) (entries : List (CloneValue ℕ × CloneValue ℕ)) :
    List (CloneValue ℕ × CloneValue ℕ) :=
  if key ∈ entries.map Prod.fst then entries.map fun e => if e.1 = key then (key, v) else e
  else entries ++ [(key, v)]

/-! ## Objects without entries -/

def newObject (c : CloneObject ℕ) : ReadOp ℕ := do
  let r ← Script.get
  Script.modify (Reader.alloc c)
  pure r.heap.length

def newValue (c : CloneObject ℕ) : ReadOp (CloneValue ℕ) := do
  let ref ← newObject c
  pure (.object ref)

def newEntries (c : CloneObject ℕ) : ReadOp (CloneValue ℕ) := do
  let ref ← newObject c
  modify (Reader.pushObj ref)
  pure (.object ref)

/-- The largest size of an array buffer. -/
def MaxBufferByteLength : ℕ := 2 ^ 31 - 1

/-- A buffer of the malloc heap.  Where its contents are does not matter. -/
def newBuffer (bytes : List Byte) : CloneObject ℕ := .arrayBuffer ⟨bytes, 0, .MALLOCED, false⟩

/-- `ArrayBufferObject::createZeroed`, and then its contents are read. -/
def readArrayBuffer (nbytes : ℕ) : ReadOp (CloneValue ℕ) := do
  if MaxBufferByteLength < nbytes then throw .JSMSG_BAD_ARRAY_LENGTH
  else do
    let bytes ← readBytes nbytes
    newValue (newBuffer bytes)

/-- The error for shared memory that the policy does not allow. -/
def notClonable {α : Type} (what : String) : ReadOp α :=
  if cx.coopAndCoepEnabled then throw (.JS_SCERR_NOT_CLONABLE_WITH_COOP_COEP what)
  else throw (.JS_SCERR_NOT_CLONABLE what)

/-- The policy allows shared memory. -/
def sharedAllowed : Bool :=
  cx.areIntraClusterClonableSharedObjectsAllowed && cx.areSharedMemoryObjectsAllowed

def readSharedArrayBuffer : ReadOp (CloneValue ℕ) := do
  if sharedAllowed cx = false then notClonable cx "SharedArrayBuffer"
  else do
    let byteLength ← readBytes 4
    let p ← readBytes 8
    if cx.sharedMemoryAndAtomicsEnabled = false then throw .JSMSG_SC_SAB_DISABLED
    else newValue (.sharedArrayBuffer (Radix.val p) (Radix.val byteLength))

variable (heap : List (CloneObject ℕ))

def byteLength? (ref : ℕ) : Option ℕ :=
  match heap[ref]? with
  | some (.arrayBuffer buffer) => some buffer.bytes.length
  | some (.sharedArrayBuffer _ byteLength) => some byteLength
  | _ => none

/-- `TypedArrayObjectTemplate::fromBuffer`: a negative length is one that the buffer decides. -/
def newTypedArray (type : ScalarType) (buffer bufferByteLength byteOffset nelems : ℕ) : ReadOp (CloneValue ℕ) :=
  if byteOffset % type.byteSize ≠ 0 then throw .JSMSG_TYPED_ARRAY_CONSTRUCT_BOUNDS
  else
    let bounds : Bool := if 2 ^ 31 ≤ nelems then
        bufferByteLength % type.byteSize != 0 || bufferByteLength < byteOffset
      else bufferByteLength < byteOffset + nelems * type.byteSize
    let len := if 2 ^ 31 ≤ nelems then (bufferByteLength - byteOffset) / type.byteSize else nelems
    if bounds = true ∨ MaxBufferByteLength / type.byteSize ≤ len then
      throw .JSMSG_TYPED_ARRAY_CONSTRUCT_BOUNDS
    else newValue (.typedArray type len byteOffset buffer)

def newDataView (buffer bufferByteLength byteOffset byteLength : ℕ) : ReadOp (CloneValue ℕ) :=
  if bufferByteLength < byteOffset then throw .JSMSG_OFFSET_OUT_OF_BUFFER
  else if 2 ^ 31 ≤ byteLength then throw .JSMSG_BAD_INDEX
  else if bufferByteLength < byteOffset + byteLength then throw .JSMSG_INVALID_DATA_VIEW_LENGTH
  else newValue (.dataView byteLength byteOffset buffer)

/-- Add the object that a value is to `allObjs`. -/
def appendValue : CloneValue ℕ → ReadOp (CloneValue ℕ)
  | .object ref => do
    modify (Reader.append (some ref))
    pure (.object ref)
  | v => pure v

/-- Put the object that a value is in the place that was kept for it. -/
def fillPlaceholder (index : ℕ) : CloneValue ℕ → ReadOp (CloneValue ℕ)
  | .object ref => do
    modify (Reader.fill index ref)
    pure (.object ref)
  | _ => stuck

/-! ## Reading a value -/

section StartRead

-- what reads the values inside of an object
variable (inner : ReadOp (CloneValue ℕ))

/-- Read the buffer of a view, with its length. -/
def checkBuffer (what : String) (v : CloneValue ℕ) : ReadOp (ℕ × ℕ) :=
  match v with
  | .object ref => do
    let r ← Script.get
    match byteLength? r.heap ref with
    | some byteLength => pure (ref, byteLength)
    | none => Script.throw (.JSMSG_SC_BAD_SERIALIZED_DATA what)
  | _ => Script.throw (.JSMSG_SC_BAD_SERIALIZED_DATA what)

def readV1ArrayBuffer (type : ScalarType) (nelems : ℕ) : ReadOp (CloneValue ℕ) :=
  if 2 ^ 32 - 1 < nelems * type.byteSize then
    throw (.JSMSG_SC_BAD_SERIALIZED_DATA "invalid typed array size")
  else if MaxBufferByteLength < nelems * type.byteSize then throw .JSMSG_BAD_ARRAY_LENGTH
  else do
    let ns ← readArray type.byteSize nelems
    newValue (newBuffer (encodeArray type.byteSize ns))

/-- The buffer of a typed array and the offset in it. -/
def readBufferAndOffset (type : ScalarType) (nelems : ℕ) (v1Read : Bool) : ReadOp (CloneValue ℕ × ℕ) :=
  if v1Read = true then do
    let v ← readV1ArrayBuffer type nelems
    pure (v, 0)
  else do
    let v ← inner
    let n ← read cx
    pure (v, n % 2 ^ 32)

def readTypedArray (arrayType nelems : ℕ) (v1Read : Bool) : ReadOp (CloneValue ℕ) := do
  match ScalarType.ofCode? arrayType with
  | none => Script.throw (.JSMSG_SC_BAD_SERIALIZED_DATA "unhandled typed array element type")
  | some type =>
    if v1Read = true ∧ ScalarType.Uint8Clamped.code < arrayType then
      Script.throw (.JSMSG_SC_BAD_SERIALIZED_DATA "unhandled typed array element type")
    else do
      let r ← Script.get
      let placeholderIndex := r.allObjs.length
      Script.modify (Reader.append none)
      let (v, byteOffset) ← readBufferAndOffset cx inner type nelems v1Read
      let (buffer, bufferByteLength) ← checkBuffer "typed array must be backed by an ArrayBuffer" v
      let v ← newTypedArray type buffer bufferByteLength byteOffset nelems
      fillPlaceholder placeholderIndex v

def readDataView (byteLength : ℕ) : ReadOp (CloneValue ℕ) := do
  let r ← Script.get
  let placeholderIndex := r.allObjs.length
  Script.modify (Reader.append none)
  let v ← inner
  let (buffer, bufferByteLength) ← checkBuffer "DataView must be backed by an ArrayBuffer" v
  let byteOffset ← read cx
  let v ← newDataView buffer bufferByteLength (byteOffset % 2 ^ 32) byteLength
  fillPlaceholder placeholderIndex v

def readSharedWasmMemory (nbytes : ℕ) : ReadOp (CloneValue ℕ) := do
  if nbytes ≠ 0 then Script.throw (.JSMSG_SC_BAD_SERIALIZED_DATA "invalid shared wasm memory tag")
  else if sharedAllowed cx = false then notClonable cx "WebAssembly.Memory"
  else do
    let payload ← inner
    let backed : ReadError :=
      .JSMSG_SC_BAD_SERIALIZED_DATA "shared wasm memory must be backed by a SharedArrayBuffer"
    match payload with
    | .object ref => do
      let r ← Script.get
      match r.heap[ref]? with
      | some (.sharedArrayBuffer _ _) => newValue (.sharedWasmMemory ref)
      | _ => Script.throw backed
    | _ => Script.throw backed

/-- The principals of a saved frame. -/
def readPrincipals (principalsTag : ℕ) : ReadOp Principals :=
  match StructuredDataType.ofCode? principalsTag with
  | some .SCTAG_JSPRINCIPALS =>
    match cx.readPrincipals with
    | none => Script.throw .JSMSG_SC_UNSUPPORTED_TYPE
    | some readPrincipals => do
      let r ← Script.get
      match readPrincipals (r.data.drop r.point) with
      | none => Script.throw .silent
      | some (id, words) => do
        Script.modify (Reader.advance (8 * words))
        pure (.embedding id)
  | some .SCTAG_RECONSTRUCTED_SAVED_FRAME_PRINCIPALS_IS_SYSTEM => pure .isSystem
  | some .SCTAG_RECONSTRUCTED_SAVED_FRAME_PRINCIPALS_IS_NOT_SYSTEM => pure .isNotSystem
  | some .SCTAG_NULL_JSPRINCIPALS => pure .null
  | _ => Script.throw (.JSMSG_SC_BAD_SERIALIZED_DATA "bad SavedFrame principals")

/-- The boolean, which old data lack, and the source of a saved frame. -/
def readMutedErrorsAndSource : ReadOp (Bool × LinearString) := do
  let mutedErrors ← inner
  match mutedErrors with
  | .boolean b => do
    let source ← inner
    match source with
    | .string s => pure (b, s)
    | _ => throw .silent
  | .string s => pure (true, s)
  | _ => throw .silent

/-- The integer that a number is cut to. -/
def toUint32 : CloneValue ℕ → Option ℕ
  | .int32 i => some i.toNat
  | .double d =>
    some (if IsFinite d then ((scaledInt d).tdiv (2 ^ 1074) % 2 ^ 32).toNat else 0)
  | _ => none

def readUint32 : ReadOp ℕ := do
  let v ← inner
  match toUint32 v with
  | some n => pure n
  | none => throw .silent

def readOptionalString : ReadOp (Option LinearString) := do
  let v ← inner
  match v with
  | .string s => pure (some (atomizeString s))
  | .null => pure none
  | _ => throw (.JSMSG_SC_BAD_SERIALIZED_DATA "invalid saved frame cause")

def readSavedFrame (principalsTag : ℕ) : ReadOp (CloneObject ℕ) := do
  let principals ← readPrincipals cx principalsTag
  let (mutedErrors, source) ← readMutedErrorsAndSource inner
  let line ← readUint32 inner
  let column ← readUint32 inner
  let functionDisplayName ← readOptionalString inner
  let asyncCause ← readOptionalString inner
  pure (.savedFrame ⟨principals, mutedErrors, atomizeString source, line, column, functionDisplayName,
    asyncCause⟩ .uninitialized)

def timeClip (time : Double) : Double :=
  if IsFinite time ∧ |scaledInt time| ≤ 8640000000000000 * 2 ^ 1074 then
    ofInt ((scaledInt time).tdiv (2 ^ 1074))
  else Binary64.nan

def numbersAreIdentical (d d' : Double) : Prop := d = d' ∨ IsNaN d ∧ IsNaN d'

instance (d d' : Double) : Decidable (numbersAreIdentical d d') := inferInstanceAs (Decidable (_ ∨ _))

def AllFlags : ℕ := 0x3F

def readRegExp (data : ℕ) : ReadOp (CloneValue ℕ) :=
  if data &&& AllFlags ≠ data then throw (.JSMSG_SC_BAD_SERIALIZED_DATA "regexp")
  else do
    let (tag2, stringData) ← readPair cx
    if tag2 ≠ StructuredDataType.SCTAG_STRING.code then
      throw (.JSMSG_SC_BAD_SERIALIZED_DATA "regexp")
    else do
      let str ← readString stringData
      if cx.checkPatternSyntax str.chars data = true then newValue (.regexp data (atomizeString str))
      else throw .syntaxError

def readBackReference (data : ℕ) : ReadOp (CloneValue ℕ) := do
  let r ← Script.get
  match r.allObjs[data]? with
  | some (some ref) => pure (.object ref)
  | _ => Script.throw (.JSMSG_SC_BAD_SERIALIZED_DATA "invalid back reference in input")

/-- The part of `startRead` for the tags that stand for one thing each. -/
def startReadTag (data : ℕ) : StructuredDataType → ReadOp (CloneValue ℕ)
  | .SCTAG_NULL => pure .null
  | .SCTAG_UNDEFINED => pure .undefined
  | .SCTAG_INT32 => pure (.int32 (BitVec.ofNat 32 data))
  | .SCTAG_BOOLEAN => pure (.boolean (data != 0))
  | .SCTAG_BOOLEAN_OBJECT => newValue (.booleanObject (data != 0)) >>= appendValue
  | .SCTAG_STRING => do
    let s ← readString data
    pure (.string s)
  | .SCTAG_STRING_OBJECT => do
    let s ← readString data
    newValue (.stringObject s) >>= appendValue
  | .SCTAG_NUMBER_OBJECT => do
    let d ← readDouble cx
    newValue (.numberObject (canonicalizeNaN d)) >>= appendValue
  | .SCTAG_BIGINT => do
    let bi ← readBigInt data
    pure (.bigint bi)
  | .SCTAG_BIGINT_OBJECT => do
    let bi ← readBigInt data
    newValue (.bigintObject bi) >>= appendValue
  | .SCTAG_DATE_OBJECT => do
    let d ← readDouble cx
    if numbersAreIdentical d (timeClip d) then newValue (.date (timeClip d)) >>= appendValue
    else throw (.JSMSG_SC_BAD_SERIALIZED_DATA "date")
  | .SCTAG_REGEXP_OBJECT => readRegExp cx data >>= appendValue
  | .SCTAG_ARRAY_OBJECT => newEntries (.array data []) >>= appendValue
  | .SCTAG_OBJECT_OBJECT => newEntries (.plain []) >>= appendValue
  | .SCTAG_BACK_REFERENCE_OBJECT => readBackReference data
  | .SCTAG_TRANSFER_MAP_HEADER | .SCTAG_TRANSFER_MAP_PENDING_ENTRY =>
    throw (.JSMSG_SC_BAD_SERIALIZED_DATA "invalid input")
  | .SCTAG_ARRAY_BUFFER_OBJECT => readArrayBuffer data >>= appendValue
  | .SCTAG_SHARED_ARRAY_BUFFER_OBJECT => readSharedArrayBuffer cx >>= appendValue
  | .SCTAG_SHARED_WASM_MEMORY_OBJECT => readSharedWasmMemory cx inner data >>= appendValue
  | .SCTAG_TYPED_ARRAY_OBJECT => do
    let arrayType ← read cx
    readTypedArray cx inner (arrayType % 2 ^ 32) data false
  | .SCTAG_DATA_VIEW_OBJECT => readDataView cx inner data
  | .SCTAG_MAP_OBJECT => newEntries (.map []) >>= appendValue
  | .SCTAG_SET_OBJECT => newEntries (.set []) >>= appendValue
  | .SCTAG_SAVED_FRAME_OBJECT => do
    let frame ← readSavedFrame cx inner data
    newEntries frame >>= appendValue
  | _ => throw (.JSMSG_SC_BAD_SERIALIZED_DATA "unsupported type")

def startReadWith : ReadOp (CloneValue ℕ) := do
  let (tag, data) ← readPair cx
  match StructuredDataType.ofCode? tag with
  | some type => startReadTag cx inner data type
  | none =>
    if tag ≤ SCTAG_FLOAT_MAX then pure (setNumber (canonicalizeNaN (BitVec.ofNat 64 (pairToUInt64 tag data))))
    else if SCTAG_TYPED_ARRAY_V1_MIN ≤ tag ∧ tag ≤ SCTAG_TYPED_ARRAY_V1_MAX then
      readTypedArray cx inner (tag - SCTAG_TYPED_ARRAY_V1_MIN) data true
    else throw (.JSMSG_SC_BAD_SERIALIZED_DATA "unsupported type")

end StartRead

/-- `startRead` to a depth. -/
def startRead : ℕ → ReadOp (CloneValue ℕ)
  | 0 => stuck
  | depth + 1 => startReadWith cx (startRead depth)

/-! ## The header and the transfer map -/

/-- The scope in the header, which old data lack. -/
def readStoredScope : ReadOp ℕ := do
  let (tag, data) ← getPair cx
  if tag = StructuredDataType.SCTAG_HEADER.code then do
    let _ ← readPair cx
    pure data
  else pure StructuredCloneScope.DifferentProcessForIndexedDB.toNat

def readHeader : ReadOp Unit := do
  let stored ← readStoredScope cx
  -- 0 used to be the scope of the same thread
  let storedScope := if stored = 0 then StructuredCloneScope.SameProcess.toNat else stored
  let r ← Script.get
  if storedScope < StructuredCloneScope.SameProcess.toNat ∨
      StructuredCloneScope.DifferentProcessForIndexedDB.toNat < storedScope then
    Script.throw (.JSMSG_SC_BAD_SERIALIZED_DATA "invalid structured clone scope")
  else if r.allowedScope = .DifferentProcessForIndexedDB then
    Script.modify fun r => { r with allowedScope := .DifferentProcess }
  else if storedScope < r.allowedScope.toNat then
    Script.throw (.JSMSG_SC_BAD_SERIALIZED_DATA "incompatible structured clone scope")
  else pure ()

/-- Overwrite a word of the data. -/
def writeWord (pos u : ℕ) : ReadOp Unit := do
  assert (8 ≤ remainingInSegment cx.segments pos)
  modify fun r => { r with data := r.data.take pos ++ encode 8 u ++ r.data.drop (pos + 8) }

/-- `NewArrayBufferWithContents` or `NewMappedArrayBufferWithContents`. -/
def newBufferWithContents (kind : BufferKind) (nbytes content : ℕ) : ReadOp ℕ :=
  if kind = .MALLOCED ∧ content = 0 then newObject (newBuffer [])
  else if cx.canAdopt content = false then throw .outOfMemory
  else newObject (.arrayBuffer ⟨(cx.contents content).take nbytes, content, kind, false⟩)

/-- The buffer of an entry of the transfer map whose contents are stored behind the entry. -/
def readStoredArrayBuffer (pos extraData : ℕ) : ReadOp ℕ := do
  let r ← Script.get
  Script.modify (Reader.seekTo pos)
  Script.modify (Reader.advance extraData)
  if r.data.length < pos + extraData then Script.throw .silent
  else do
    let (tag, data) ← readPair cx
    if tag ≠ StructuredDataType.SCTAG_ARRAY_BUFFER_OBJECT.code then Script.throw .JS_SCERR_TRANSFERABLE
    else do
      let v ← readArrayBuffer data
      Script.modify (Reader.seekTo r.point)
      match v with
      | .object ref => pure ref
      | _ => Script.stuck

/-- The object of an entry of the transfer map. -/
def readTransferred (pos tag data content extraData : ℕ) : ReadOp ℕ := do
  let r ← Script.get
  match StructuredDataType.ofCode? tag with
  | some .SCTAG_TRANSFER_MAP_ARRAY_BUFFER =>
    if r.allowedScope = .DifferentProcess ∨ r.allowedScope = .DifferentProcessForIndexedDB then
      Script.throw .JS_SCERR_TRANSFERABLE
    else if data = SCTAG_TMO_ALLOC_DATA then newBufferWithContents cx .MALLOCED extraData content
    else if data = SCTAG_TMO_MAPPED_DATA then newBufferWithContents cx .MAPPED extraData content
    else Script.throw .silent
  | some .SCTAG_TRANSFER_MAP_STORED_ARRAY_BUFFER => readStoredArrayBuffer cx pos extraData
  | _ => Script.throw .JS_SCERR_TRANSFERABLE

def readTransferMapEntries : ℕ → ReadOp Unit
  | 0 => pure ()
  | numTransferables + 1 => do
    let r ← Script.get
    let (tag, data) ← readPair cx
    if tag = StructuredDataType.SCTAG_TRANSFER_MAP_PENDING_ENTRY.code then
      Script.throw .JS_SCERR_TRANSFERABLE
    else do
      let content ← read cx
      let extraData ← read cx
      let obj ← readTransferred cx r.point tag data content extraData
      writeWord cx r.point (pairToUInt64 tag SCTAG_TMO_UNOWNED)
      Script.modify (Reader.append (some obj))
      readTransferMapEntries numTransferables

def readTransferMap : ReadOp Unit := do
  let r ← Script.get
  let (tag, data) ← getPair cx
  if tag ≠ StructuredDataType.SCTAG_TRANSFER_MAP_HEADER.code ∨ data = SCTAG_TM_TRANSFERRED then pure ()
  else do
    let _ ← readPair cx
    let numTransferables ← read cx
    readTransferMapEntries cx numTransferables
    writeWord cx r.point
      (pairToUInt64 StructuredDataType.SCTAG_TRANSFER_MAP_HEADER.code SCTAG_TM_TRANSFERRED)

/-! ## `ChildCounter` -/

/-- Whether the object on top of the stack is a saved frame. -/
def topIsSavedFrame (r : Reader) : Bool :=
  match r.objs with
  | [] => false
  | ref :: _ =>
    match r.heap[ref]? with
    | some (.savedFrame _ _) => true
    | _ => false

def noteObjIsOnTopOfStack : ReadOp Unit := modify fun r =>
  { r with objCountsIndex := if r.counts = [] then 2 ^ 64 - 1 else r.counts.length - 1 }

def postStartRead : ReadOp Unit := do
  let r ← Script.get
  if r.objs.length = r.objsLength then pure ()
  else do
    Script.assert (r.objs.length = r.objsLength + 1)
    Script.modify fun r =>
      { r with
        objsLength := r.objs.length
        counts := if topIsSavedFrame r = true then 0 :: r.counts else r.counts }

def handleEndOfChildren : ReadOp Unit := do
  let r ← Script.get
  Script.assert (0 < r.objsLength)
  Script.modify fun r => { r with objsLength := r.objsLength - 1 }
  if topIsSavedFrame r = true then
    match r.counts with
    | [] => Script.stuck
    | count :: counts =>
      if count ≠ 1 then
        Script.throw (.JSMSG_SC_BAD_SERIALIZED_DATA "must have single SavedFrame parent")
      else Script.modify fun r => { r with counts := counts }
  else pure ()

/-- Count a parent of the object that was on top of the stack, and tell whether it is the first one. -/
def checkSingleParentFrame : ReadOp Bool := do
  let r ← Script.get
  Script.assert (r.objCountsIndex < r.counts.length)
  let index := r.counts.length - 1 - r.objCountsIndex
  let count := r.counts.getD index 0 + 1
  Script.modify fun r => { r with counts := r.counts.set index count }
  pure (decide (count = 1))

/-! ## `read` -/

/-- `SavedFrame::initParent`, for a frame that has no parent yet. -/
def initParent (ref : ℕ) (parent : ParentSlot ℕ) : ReadOp Unit := do
  let r ← Script.get
  match r.heap[ref]? with
  | some (.savedFrame slots .uninitialized) =>
    Script.modify (Reader.setObject ref (.savedFrame slots parent))
  | _ => Script.stuck

def parentFrame : CloneValue ℕ → Option (ParentSlot ℕ)
  | .null => some .null
  | .object ref =>
    match heap[ref]? with
    | some (.savedFrame _ _) => some (.frame ref)
    | _ => none
  | _ => none

def popObj : ReadOp Unit := modify fun r => { r with objs := r.objs.tail }

/-- Define the property of a key and a value that have been read. -/
def defineProperty (ref : ℕ) (key val : CloneValue ℕ) : ReadOp Unit :=
  match key with
  | .string _ | .int32 _ =>
    match primitiveValueToId key with
    | some id => defineDataProperty ref id val
    | none => throw .outOfMemory
  | _ => throw (.JSMSG_SC_BAD_SERIALIZED_DATA "property key expected")

/-- What is done with a key and a value that have been read for the object `ref`. -/
def putPair (ref : ℕ) (key val : CloneValue ℕ) : ReadOp Unit := do
  let r ← Script.get
  match r.heap[ref]? with
  | some (.map entries) =>
    Script.modify (Reader.setObject ref (.map (putEntry (hashableValue key) val entries)))
  | _ => defineProperty ref key val

/-- What is done with a value that has been read for the object `ref`. -/
def readChild (depth ref : ℕ) (key : CloneValue ℕ) : ReadOp Unit := do
  let r ← Script.get
  match r.heap[ref]? with
  | some (.set keys) =>
    Script.modify (Reader.setObject ref (.set (if hashableValue key ∈ keys then keys
      else keys ++ [hashableValue key])))
  | some (.savedFrame _ _) =>
    match parentFrame r.heap key with
    | none => Script.throw (.JSMSG_SC_BAD_SERIALIZED_DATA "invalid SavedFrame parent")
    | some parent => do
      let first ← checkSingleParentFrame
      if first = true then initParent ref parent else pure ()
  | _ => do
    let val ← startRead cx depth
    postStartRead
    putPair ref key val

/-- The objects for which null is no end of the entries. -/
def takesNull (ref : ℕ) : Bool :=
  match heap[ref]? with
  | some (.map _) | some (.set _) | some (.savedFrame _ _) => true
  | _ => false

/-- A round of the loop of `read`, which tells whether there is another one. -/
def readRound (depth : ℕ) : ReadOp Bool := do
  let r ← Script.get
  match r.objs with
  | [] => pure false
  | ref :: _ => do
    noteObjIsOnTopOfStack
    let (tag, _) ← getPair cx
    if tag = StructuredDataType.SCTAG_END_OF_KEYS.code then do
      handleEndOfChildren
      let _ ← readPair cx
      popObj
      pure true
    else do
      let key ← startRead cx depth
      postStartRead
      if key = .null ∧ takesNull r.heap ref = false then do
        handleEndOfChildren
        popObj
        pure true
      else do
        readChild cx depth ref key
        pure true

/-- The part of `read` before its loop. -/
def readFirst (depth : ℕ) : ReadOp (CloneValue ℕ) := do
  readHeader cx
  readTransferMap cx
  let v ← startRead cx depth
  postStartRead
  pure v

/-- `JSStructuredCloneReader::read`, with at most so many rounds of its loop. -/
def readClone (depth rounds : ℕ) : ReadOp (CloneValue ℕ) := do
  let v ← readFirst cx depth
  iterate (readRound cx depth) rounds
  pure v

end ReadOp

end SpiderMonkey.StructuredClone
