import SpiderMonkey.Lib.ScriptLoop
import SpiderMonkey.StructuredClone.Graph

/-!
# Writing a structured clone

`JSStructuredCloneWriter`: an explicit stack of objects whose entries are left to write, in front of which
the header and the transfer map stand.  Nothing happens to the objects while they are written, except that
the array buffers of the transfer list are detached in the end.
-/

namespace SpiderMonkey.StructuredClone

open LittleEndian
open Binary64 (ofInt)

variable {O : Type} [DecidableEq O]

/-! ## The writer and its surroundings -/

/-- What ends the writing. -/
inductive WriteError
  | JS_SCERR_DUP_TRANSFERABLE
  | JS_SCERR_TRANSFERABLE
  | JS_SCERR_UNSUPPORTED_TYPE
  | JS_SCERR_SHMEM_TRANSFERABLE
  | JS_SCERR_TYPED_ARRAY_DETACHED
  | JS_SCERR_WASM_NO_TRANSFER
  | JS_SCERR_NOT_CLONABLE (what : String)
  | JS_SCERR_NOT_CLONABLE_WITH_COOP_COEP (what : String)
  | JSMSG_SC_SHMEM_POLICY
  | JSMSG_NEED_DIET (what : String)
  | JSMSG_WASM_NO_TRANSFER
  | callback
  | outOfMemory
  | silent
  deriving DecidableEq

/-- What a `write` callback does with the writer: it writes words, or a typed array. -/
inductive CallbackWrite (O : Type)
  | words (ws : List ℕ)
  | typedArray (v : CloneValue O)

/-- The callbacks of the embedding; a result `none` means that the callback failed. -/
structure Callbacks (O : Type) where
  /-- The result is whether the object requires the scope `SameProcess`. -/
  canTransfer : Option (O → Option Bool)
  write : Option (O → Option (List (CallbackWrite O) × Bool))
  /-- The result is the tag, the ownership, the content and the extra data. -/
  writeTransfer : Option (O → Option (ℕ × ℕ × ℕ × ℕ))
  sabCloned : Option Bool
  /-- `JSPrincipals::write`. -/
  writePrincipals : ℕ → Option (List ℕ)

/-- What is fixed while a clone is written. -/
structure WriteContext (O : Type) where
  object : O → CloneObject O
  nodup : ∀ obj, ((object obj).properties.map Prod.fst).Nodup
  callbacks : Callbacks O
  areSharedMemoryObjectsAllowed : Bool
  coopAndCoepEnabled : Bool
  /-- Whether there is memory for a copy of the contents of an array buffer. -/
  canCopy : O → Bool
  /-- The order in which a set of objects is gone through. -/
  order : List O → List O
  order_perm : ∀ objs, (order objs).Perm objs

/-- `JSStructuredCloneWriter`.  The top of a stack is its head, and the index of an object is its place in
`memory`.  `refsHeld` are the shared buffers whose pointers are in the output, and `extracted` the contents
of array buffers that are. -/
structure Writer (O : Type) where
  out : List Byte
  scope_ : StructuredCloneScope
  refsHeld : List ℕ
  objs : List O
  counts : List ℕ
  objectEntries : List Id
  otherEntries : List (CloneValue O)
  memory : List O
  transferableObjects : List O
  detached : List O
  extracted : List ℕ

abbrev WriteOp (O : Type) := Script (Writer O) WriteError

namespace Writer

def scope (w : Writer O) : StructuredCloneScope :=
  if w.scope_ = .UnknownDestination then .DifferentProcess else w.scope_

def init (scope : StructuredCloneScope) : Writer O :=
  ⟨[], scope, [], [], [], [], [], [], [], [], []⟩

def emit (bytes : List Byte) (w : Writer O) : Writer O := { w with out := w.out ++ bytes }

/-- `JSStructuredCloneData::sameProcessScopeRequired`. -/
def narrow (w : Writer O) : Writer O :=
  { w with scope_ := if w.scope_ = .UnknownDestination then .SameProcess else w.scope_ }

def hold (rawbuf : ℕ) (w : Writer O) : Writer O := { w with refsHeld := w.refsHeld ++ [rawbuf] }

def remember (obj : O) (w : Writer O) : Writer O := { w with memory := w.memory ++ [obj] }

def push (obj : O) (count : ℕ) (ids : List Id) (vs : List (CloneValue O)) (w : Writer O) : Writer O :=
  { w with
    objs := obj :: w.objs
    counts := count :: w.counts
    objectEntries := ids ++ w.objectEntries
    otherEntries := vs ++ w.otherEntries }

end Writer

namespace WriteOp

open Script Writer

/-! ## Output -/

def write (u : ℕ) : WriteOp O Unit := modify (emit (encode 8 u))

variable (tag : StructuredDataType)

def writePair (data : ℕ) : WriteOp O Unit := write (pairToUInt64 tag.code data)

def writeDouble (d : Binary64.Double) : WriteOp O Unit := write (canonicalizeNaN d).toNat

def writeArray (elemSize : ℕ) (p : List ℕ) : WriteOp O Unit :=
  modify (emit (arrayBytes elemSize p))

def writeBytes (p : List Byte) : WriteOp O Unit := writeArray 1 (p.map BitVec.toNat)

/-! ## Leaves -/

def writeString (s : LinearString) : WriteOp O Unit := do
  writePair tag (s.chars.length + if s.hasLatin1Chars then 2 ^ 31 else 0)
  writeArray (if s.hasLatin1Chars then 1 else 2) (s.chars.map UInt16.toNat)

def writeBigInt (bi : BigInt .bits64) : WriteOp O Unit := do
  if 2 ^ 31 ≤ bi.digits.length then throw .silent
  else do
    writePair tag (bi.digits.length + if bi.isNegative then 2 ^ 31 else 0)
    writeArray 8 (bi.digits.map BitVec.toNat)

def writePrimitive : CloneValue O → WriteOp O Unit
  | .string s => writeString .SCTAG_STRING s
  | .int32 i => writePair .SCTAG_INT32 i.toNat
  | .double d => writeDouble d
  | .boolean b => writePair .SCTAG_BOOLEAN b.toNat
  | .null => writePair .SCTAG_NULL 0
  | .undefined => writePair .SCTAG_UNDEFINED 0
  | .bigint bi => writeBigInt .SCTAG_BIGINT bi
  | _ => throw .JS_SCERR_UNSUPPORTED_TYPE

def writeArrayBuffer (buffer : ArrayBufferData) : WriteOp O Unit := do
  writePair .SCTAG_ARRAY_BUFFER_OBJECT buffer.bytes.length
  writeBytes buffer.bytes

variable (cx : WriteContext O)

/-- The error for shared memory that the policy does not allow. -/
def notClonable (what : String) : WriteOp O Unit :=
  if cx.coopAndCoepEnabled then throw (.JS_SCERR_NOT_CLONABLE_WITH_COOP_COEP what)
  else throw (.JS_SCERR_NOT_CLONABLE what)

def writeSharedArrayBuffer (rawbuf byteLength : ℕ) : WriteOp O Unit := do
  if cx.areSharedMemoryObjectsAllowed = false then notClonable cx "SharedArrayBuffer"
  else do
    modify narrow
    let w ← get
    if StructuredCloneScope.SameProcess.toNat < w.scope.toNat then throw .JSMSG_SC_SHMEM_POLICY
    else do
      modify (hold rawbuf)
      writePair .SCTAG_SHARED_ARRAY_BUFFER_OBJECT 8
      writeArray 1 ((encode 4 byteLength).map BitVec.toNat)
      writeArray 1 ((encode 8 rawbuf).map BitVec.toNat)
      if cx.callbacks.sabCloned = some false then throw .callback else pure ()

def writeSharedWasmMemory (buffer : O) : WriteOp O Unit := do
  if cx.areSharedMemoryObjectsAllowed = false then notClonable cx "WebAssembly.Memory"
  else do
    writePair .SCTAG_SHARED_WASM_MEMORY_OBJECT 0
    match cx.object buffer with
    | .sharedArrayBuffer rawbuf byteLength => writeSharedArrayBuffer cx rawbuf byteLength
    | _ => stuck

/-- `startObject`, which tells whether the object has been written already. -/
def startObject (obj : O) : WriteOp O Bool := do
  let w ← get
  if obj ∈ w.memory then do
    writePair .SCTAG_BACK_REFERENCE_OBJECT (w.memory.idxOf obj)
    pure true
  else do
    modify (remember obj)
    if w.memory.length + 1 = 2 ^ 32 - 1 then throw (.JSMSG_NEED_DIET "object graph to serialize")
    else pure false

/-! ## Objects with entries -/

/-- `length` is that of an array. -/
def traverseObject (obj : O) (length : Option ℕ) (properties : List (Id × CloneValue O)) : WriteOp O Unit := do
  modify (push obj properties.length (properties.map Prod.fst) [])
  match length with
  | some length => writePair .SCTAG_ARRAY_OBJECT length
  | none => writePair .SCTAG_OBJECT_OBJECT 0

/-- `getKeysAndValuesInterleaved`. -/
def interleave (entries : List (CloneValue O × CloneValue O)) : List (CloneValue O) :=
  entries.flatMap fun entry => [entry.1, entry.2]

def traverseMap (obj : O) (entries : List (CloneValue O × CloneValue O)) : WriteOp O Unit := do
  modify (push obj (interleave entries).length [] (interleave entries))
  writePair .SCTAG_MAP_OBJECT 0

def traverseSet (obj : O) (keys : List (CloneValue O)) : WriteOp O Unit := do
  modify (push obj keys.length [] keys)
  writePair .SCTAG_SET_OBJECT 0

def writeWords : List ℕ → WriteOp O Unit
  | [] => pure ()
  | u :: us => do
    write u
    writeWords us

/-- The tag of a `SavedFrame`, with its principals. -/
def writePrincipals : Principals → WriteOp O Unit
  | .isSystem => writePair .SCTAG_SAVED_FRAME_OBJECT
      StructuredDataType.SCTAG_RECONSTRUCTED_SAVED_FRAME_PRINCIPALS_IS_SYSTEM.code
  | .isNotSystem => writePair .SCTAG_SAVED_FRAME_OBJECT
      StructuredDataType.SCTAG_RECONSTRUCTED_SAVED_FRAME_PRINCIPALS_IS_NOT_SYSTEM.code
  | .embedding id => do
    writePair .SCTAG_SAVED_FRAME_OBJECT StructuredDataType.SCTAG_JSPRINCIPALS.code
    match cx.callbacks.writePrincipals id with
    | some ws => writeWords ws
    | none => throw .callback
  | .null => writePair .SCTAG_SAVED_FRAME_OBJECT StructuredDataType.SCTAG_NULL_JSPRINCIPALS.code

def writeOptionalString : Option LinearString → WriteOp O Unit
  | some s => writePrimitive (.string s)
  | none => writePrimitive .null

def traverseSavedFrame (obj : O) (slots : FrameSlots) (parent : ParentSlot O) : WriteOp O Unit := do
  modify (push obj 1 [] [parent.toValue])
  writePrincipals cx slots.principals
  writePrimitive (.boolean slots.mutedErrors)
  writePrimitive (.string slots.source)
  writePrimitive (numberValue slots.line)
  writePrimitive (numberValue slots.column)
  writeOptionalString slots.functionDisplayName
  writeOptionalString slots.asyncCause

/-! ## `startWrite` -/

section StartWrite

-- what writes the values inside of an object
variable (inner : CloneValue O → WriteOp O Unit)

def writeTypedArray (type : ScalarType) (length byteOffset : ℕ) (buffer : O) : WriteOp O Unit := do
  writePair .SCTAG_TYPED_ARRAY_OBJECT length
  write type.code
  inner (.object buffer)
  write byteOffset

def writeDataView (byteLength byteOffset : ℕ) (buffer : O) : WriteOp O Unit := do
  writePair .SCTAG_DATA_VIEW_OBJECT byteLength
  inner (.object buffer)
  write byteOffset

/-- `JS_WriteTypedArray`. -/
def writeTypedArrayValue : CloneValue O → WriteOp O Unit
  | .object obj =>
    match cx.object obj with
    | .typedArray _ _ _ _ => inner (.object obj)
    | _ => throw .callback
  | _ => stuck

def callbackWrites : List (CallbackWrite O) → WriteOp O Unit
  | [] => pure ()
  | .words ws :: rest => do
    writeWords ws
    callbackWrites rest
  | .typedArray v :: rest => do
    writeTypedArrayValue cx inner v
    callbackWrites rest

/-- An object that the writer does not know. -/
def writeOther (obj : O) : WriteOp O Unit :=
  match cx.callbacks.write with
  | none => throw .JS_SCERR_UNSUPPORTED_TYPE
  | some write =>
    match write obj with
    | none => throw .callback
    | some (writes, required) => do
      callbackWrites cx inner writes
      if required = true then modify narrow else pure ()

def startWriteObject (obj : O) : WriteOp O Unit :=
  match cx.object obj with
  | .plain properties => traverseObject obj none properties
  | .array length properties => traverseObject obj (some length) properties
  | .numberObject d => do
    writePair .SCTAG_NUMBER_OBJECT 0
    writeDouble d
  | .stringObject s => writeString .SCTAG_STRING_OBJECT s
  | .booleanObject b => writePair .SCTAG_BOOLEAN_OBJECT b.toNat
  | .bigintObject bi => writeBigInt .SCTAG_BIGINT_OBJECT bi
  | .regexp flags source => do
    writePair .SCTAG_REGEXP_OBJECT flags
    writeString .SCTAG_STRING source
  | .arrayBuffer buffer => writeArrayBuffer buffer
  | .sharedArrayBuffer rawbuf byteLength => writeSharedArrayBuffer cx rawbuf byteLength
  | .date t => do
    writePair .SCTAG_DATE_OBJECT 0
    writeDouble t
  | .set keys => traverseSet obj keys
  | .map entries => traverseMap obj entries
  | .typedArray type length byteOffset buffer => writeTypedArray inner type length byteOffset buffer
  | .dataView byteLength byteOffset buffer => writeDataView inner byteLength byteOffset buffer
  | .sharedWasmMemory buffer => writeSharedWasmMemory cx buffer
  | .savedFrame slots parent => traverseSavedFrame cx obj slots parent
  | .detachedArrayBuffer | .unsharedWasmMemory | .other => writeOther cx inner obj

def startWriteWith : CloneValue O → WriteOp O Unit
  | .object obj => do
    let backref ← startObject obj
    if backref = true then pure () else startWriteObject cx inner obj
  | v => writePrimitive v

end StartWrite

/-- `startWrite` to a depth. -/
def startWriteDepth : ℕ → CloneValue O → WriteOp O Unit
  | 0 => fun _ => stuck
  | depth + 1 => startWriteWith cx (startWriteDepth depth)

variable (v : CloneValue O)

/-- A callback may write a typed array and a typed array writes its buffer. -/
def startWrite : WriteOp O Unit := startWriteDepth cx 3 v

/-! ## The loop -/

def popObjectEntry : WriteOp O Id := do
  let w ← get
  match w.objectEntries with
  | [] => stuck
  | id :: ids => do
    modify fun w => { w with objectEntries := ids }
    pure id

def popOtherEntry : WriteOp O (CloneValue O) := do
  let w ← get
  match w.otherEntries with
  | [] => stuck
  | v :: vs => do
    modify fun w => { w with otherEntries := vs }
    pure v

def setCount (count : ℕ) (counts : List ℕ) : WriteOp O Unit := modify fun w =>
  { w with counts := count :: counts }

/-- Write a property, if the object still has it. -/
def writeProperty (id : Id) (properties : List (Id × CloneValue O)) : WriteOp O Unit :=
  match properties.lookup id with
  | none => pure ()
  | some val => do
    startWrite cx id.toValue
    startWrite cx val

/-- Write an entry of the object on top of the stack, of which there are `count + 1`. -/
def writeEntry (obj : O) (count : ℕ) (counts : List ℕ) : WriteOp O Unit := do
  setCount count counts
  match cx.object obj with
  | .map _ => do
    let key ← popOtherEntry
    setCount (count - 1) counts
    let val ← popOtherEntry
    startWrite cx key
    startWrite cx val
  | .set _ | .savedFrame _ _ => do
    let key ← popOtherEntry
    startWrite cx key
  | .plain properties | .array _ properties => do
    let id ← popObjectEntry
    writeProperty cx id properties
  | _ => stuck

/-- A round of the loop, which tells whether there is another one. -/
def writeRound : WriteOp O Bool := do
  let w ← get
  match w.objs, w.counts with
  | obj :: _, (count + 1) :: counts => do
    writeEntry cx obj count counts
    pure true
  | _ :: objs, 0 :: counts => do
    writePair .SCTAG_END_OF_KEYS 0
    modify fun w => { w with objs := objs, counts := counts }
    pure true
  | [], [] => pure false
  | _, _ => stuck

/-! ## Transfers -/

/-- An element of the transfer list. -/
def parseTransferableElement : WriteOp O Unit :=
  match v with
  | .object tObj => do
    match cx.object tObj with
    | .sharedArrayBuffer _ _ | .sharedWasmMemory _ => throw .JS_SCERR_SHMEM_TRANSFERABLE
    | .unsharedWasmMemory | .detachedArrayBuffer => pure ()
    | .arrayBuffer buffer =>
      if buffer.kind = .EXTERNAL then throw .JS_SCERR_TRANSFERABLE else pure ()
    | _ =>
      match cx.callbacks.canTransfer with
      | none => throw .JS_SCERR_TRANSFERABLE
      | some canTransfer =>
        match canTransfer tObj with
        | none => throw .callback
        | some required => if required = true then modify narrow else pure ()
    let w ← get
    if tObj ∈ w.transferableObjects then throw .JS_SCERR_DUP_TRANSFERABLE
    else modify fun w => { w with transferableObjects := w.transferableObjects ++ [tObj] }
  | _ => throw .JS_SCERR_TRANSFERABLE

def parseTransferableElements : List (CloneValue O) → WriteOp O Unit
  | [] => pure ()
  | v :: vs => do
    parseTransferableElement cx v
    parseTransferableElements vs

/-- The transfer list: null or undefined, an array, or something else. -/
inductive TransferList (O : Type)
  | none
  | array (elements : List (CloneValue O))
  | invalid

def parseTransferable : TransferList O → WriteOp O Unit
  | .none => pure ()
  | .array elements => parseTransferableElements cx elements
  | .invalid => throw .JS_SCERR_TRANSFERABLE

def writeHeader : WriteOp O Unit := do
  let w ← get
  writePair .SCTAG_HEADER w.scope.toNat

def writeTransferMapEntries : List O → WriteOp O Unit
  | [] => pure ()
  | obj :: objs => do
    modify (remember obj)
    writePair .SCTAG_TRANSFER_MAP_PENDING_ENTRY SCTAG_TMO_UNFILLED
    write 0
    write 0
    writeTransferMapEntries objs

def writeTransferMap : WriteOp O Unit := do
  let w ← get
  if w.transferableObjects = [] then pure ()
  else do
    writePair .SCTAG_TRANSFER_MAP_HEADER SCTAG_TM_UNREAD
    write w.transferableObjects.length
    writeTransferMapEntries (cx.order w.transferableObjects)

def overwrite (point u : ℕ) (out : List Byte) : List Byte :=
  out.take point ++ encode 8 u ++ out.drop (point + 8)

/-- Fill in the entry of the transfer map at `point`. -/
def fillEntry (point tag ownership content extraData : ℕ) : WriteOp O Unit := modify fun w =>
  { w with out := overwrite (point + 16) extraData (overwrite (point + 8) content
      (overwrite point (pairToUInt64 tag ownership) w.out)) }

/-- `extractStructuredCloneContents`, with the ownership of what is extracted. -/
def extractStructuredCloneContents (obj : O) (buffer : ArrayBufferData) : WriteOp O ℕ :=
  let extract (ownership : ℕ) : WriteOp O ℕ := do
    modify fun w =>
      { w with detached := w.detached ++ [obj], extracted := w.extracted ++ [buffer.data] }
    pure ownership
  match buffer.kind with
  | .INLINE_DATA | .NO_DATA | .USER_OWNED =>
    if cx.canCopy obj = true then extract SCTAG_TMO_ALLOC_DATA else throw .outOfMemory
  | .MALLOCED => extract SCTAG_TMO_ALLOC_DATA
  | .MAPPED => extract SCTAG_TMO_MAPPED_DATA
  | .WASM => throw .JSMSG_WASM_NO_TRANSFER
  | .EXTERNAL => stuck

/-- Transfer an object whose entry in the transfer map is at `point`. -/
def transferObject (scope : StructuredCloneScope) (obj : O) (point : ℕ) : WriteOp O Unit :=
  match cx.object obj with
  | .detachedArrayBuffer => throw .JS_SCERR_TYPED_ARRAY_DETACHED
  | .arrayBuffer buffer =>
    if buffer.isPreparedForAsmJS = true then throw .JS_SCERR_WASM_NO_TRANSFER
    else if scope = .DifferentProcess ∨ scope = .DifferentProcessForIndexedDB then do
      let w ← get
      writeArrayBuffer buffer
      modify fun w => { w with detached := w.detached ++ [obj] }
      fillEntry point StructuredDataType.SCTAG_TRANSFER_MAP_STORED_ARRAY_BUFFER.code SCTAG_TMO_UNOWNED 0
        (w.out.length - point)
    else do
      let ownership ← extractStructuredCloneContents cx obj buffer
      fillEntry point StructuredDataType.SCTAG_TRANSFER_MAP_ARRAY_BUFFER.code ownership buffer.data
        buffer.bytes.length
  | _ =>
    match cx.callbacks.writeTransfer with
    | none => throw .JS_SCERR_TRANSFERABLE
    | some writeTransfer =>
      match writeTransfer obj with
      | none => throw .callback
      | some (tag, ownership, content, extraData) => fillEntry point tag ownership content extraData

def transferObjects (scope : StructuredCloneScope) : List O → ℕ → WriteOp O Unit
  | [], _ => pure ()
  | obj :: objs, point => do
    transferObject cx scope obj point
    transferObjects scope objs (point + 24)

def transferOwnership : WriteOp O Unit := do
  let w ← get
  if w.transferableObjects = [] then pure ()
  else transferObjects cx w.scope (cx.order w.transferableObjects) 24

/-! ## The whole -/

def init (transferable : TransferList O) : WriteOp O Unit := do
  parseTransferable cx transferable
  writeHeader
  writeTransferMap cx

/-- `JSStructuredCloneWriter::write`, with at most so many rounds of its loop. -/
def writeValue (rounds : ℕ) : WriteOp O Unit := do
  startWrite cx v
  iterate (writeRound cx) rounds
  modify fun w => { w with memory := [] }
  transferOwnership cx

def writeStructuredClone (transferable : TransferList O) (rounds : ℕ) : WriteOp O Unit := do
  init cx transferable
  writeValue cx v rounds

end WriteOp

end SpiderMonkey.StructuredClone
