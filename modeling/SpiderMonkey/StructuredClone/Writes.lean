import SpiderMonkey.StructuredClone.Writer

/-!
# What the writer writes

The bytes that values and objects are written as, and what `startWrite` does with the writer when it
succeeds: `WroteWith` says it once, in terms of the bytes that are put out and of what is remembered and
left to write.
-/

namespace SpiderMonkey.StructuredClone

open LittleEndian Script List

variable {O : Type} [DecidableEq O]

namespace Writer

omit [DecidableEq O] in
@[simp] lemma emit_emit (a b : List Byte) (w : Writer O) : (w.emit a).emit b = w.emit (a ++ b) := by
  simp [emit]

omit [DecidableEq O] in
@[simp] lemma emit_nil (w : Writer O) : w.emit [] = w := by simp [emit]

end Writer

/-! ## Bytes -/

variable (tag : StructuredDataType)

def pairBytes (data : ℕ) : List Byte := encode 8 (pairToUInt64 tag.code data)

def doubleBytes (d : Binary64.Double) : List Byte := encode 8 (canonicalizeNaN d).toNat

def stringBytes (s : LinearString) : List Byte :=
  pairBytes tag (s.chars.length + if s.hasLatin1Chars then 2 ^ 31 else 0) ++
    arrayBytes (if s.hasLatin1Chars then 1 else 2) (s.chars.map UInt16.toNat)

def bigintBytes (bi : BigInt .bits64) : List Byte :=
  pairBytes tag (bi.digits.length + if bi.isNegative then 2 ^ 31 else 0) ++ arrayBytes 8 (bi.digits.map BitVec.toNat)

def primitiveBytes : CloneValue O → List Byte
  | .string s => stringBytes .SCTAG_STRING s
  | .int32 i => pairBytes .SCTAG_INT32 i.toNat
  | .double d => doubleBytes d
  | .boolean b => pairBytes .SCTAG_BOOLEAN b.toNat
  | .null => pairBytes .SCTAG_NULL 0
  | .undefined => pairBytes .SCTAG_UNDEFINED 0
  | .bigint bi => bigintBytes .SCTAG_BIGINT bi
  | _ => []

def arrayBufferBytes (buffer : ArrayBufferData) : List Byte :=
  pairBytes .SCTAG_ARRAY_BUFFER_OBJECT buffer.bytes.length ++ arrayBytes 1 (buffer.bytes.map BitVec.toNat)

/-- The bytes of an object that has no other values in it. -/
def leafBytes : CloneObject O → Option (List Byte)
  | .numberObject d => some (pairBytes .SCTAG_NUMBER_OBJECT 0 ++ doubleBytes d)
  | .stringObject s => some (stringBytes .SCTAG_STRING_OBJECT s)
  | .booleanObject b => some (pairBytes .SCTAG_BOOLEAN_OBJECT b.toNat)
  | .bigintObject bi => some (bigintBytes .SCTAG_BIGINT_OBJECT bi)
  | .regexp flags source =>
    some (pairBytes .SCTAG_REGEXP_OBJECT flags ++ stringBytes .SCTAG_STRING source)
  | .date t => some (pairBytes .SCTAG_DATE_OBJECT 0 ++ doubleBytes t)
  | .arrayBuffer buffer => some (arrayBufferBytes buffer)
  | _ => none

def sharedArrayBufferBytes (rawbuf byteLength : ℕ) : List Byte :=
  pairBytes .SCTAG_SHARED_ARRAY_BUFFER_OBJECT 8 ++ (arrayBytes 1 ((encode 4 byteLength).map BitVec.toNat) ++
      arrayBytes 1 ((encode 8 rawbuf).map BitVec.toNat))

def wordsBytes (ws : List ℕ) : List Byte := encodeArray 8 ws

variable (cx : WriteContext O)

def principalsBytes : Principals → List Byte
  | .isSystem => pairBytes .SCTAG_SAVED_FRAME_OBJECT
      StructuredDataType.SCTAG_RECONSTRUCTED_SAVED_FRAME_PRINCIPALS_IS_SYSTEM.code
  | .isNotSystem => pairBytes .SCTAG_SAVED_FRAME_OBJECT
      StructuredDataType.SCTAG_RECONSTRUCTED_SAVED_FRAME_PRINCIPALS_IS_NOT_SYSTEM.code
  | .embedding id => pairBytes .SCTAG_SAVED_FRAME_OBJECT StructuredDataType.SCTAG_JSPRINCIPALS.code ++
      wordsBytes ((cx.callbacks.writePrincipals id).getD [])
  | .null => pairBytes .SCTAG_SAVED_FRAME_OBJECT StructuredDataType.SCTAG_NULL_JSPRINCIPALS.code

def optionalStringBytes : Option LinearString → List Byte
  | some s => stringBytes .SCTAG_STRING s
  | none => pairBytes .SCTAG_NULL 0

def frameBytes (slots : FrameSlots) : List Byte :=
  principalsBytes cx slots.principals ++ (pairBytes .SCTAG_BOOLEAN slots.mutedErrors.toNat ++
    (stringBytes .SCTAG_STRING slots.source ++ (primitiveBytes (numberValue slots.line : CloneValue O) ++
      (primitiveBytes (numberValue slots.column : CloneValue O) ++
        (optionalStringBytes slots.functionDisplayName ++ optionalStringBytes slots.asyncCause)))))

/-- The bytes of an object that come before its entries, if it has entries. -/
def headerBytes : CloneObject O → Option (List Byte)
  | .plain _ => some (pairBytes .SCTAG_OBJECT_OBJECT 0)
  | .array length _ => some (pairBytes .SCTAG_ARRAY_OBJECT length)
  | .map _ => some (pairBytes .SCTAG_MAP_OBJECT 0)
  | .set _ => some (pairBytes .SCTAG_SET_OBJECT 0)
  | .savedFrame slots _ => some (frameBytes cx slots)
  | _ => none

/-- The bytes of a view before its buffer, with the buffer and the offset that follows. -/
def viewBytes : CloneObject O → Option (List Byte × O × ℕ)
  | .typedArray type length byteOffset buffer =>
    some (pairBytes .SCTAG_TYPED_ARRAY_OBJECT length ++ encode 8 type.code, buffer, byteOffset)
  | .dataView byteLength byteOffset buffer =>
    some (pairBytes .SCTAG_DATA_VIEW_OBJECT byteLength, buffer, byteOffset)
  | _ => none

/-! ## Entries -/

def entryIds (c : CloneObject O) : List Id := c.properties.map Prod.fst

/-- The entries of an object other than properties. -/
def entryValues : CloneObject O → List (CloneValue O)
  | .map entries => WriteOp.interleave entries
  | .set keys => keys
  | .savedFrame _ parent => [parent.toValue]
  | _ => []

def entryCount (c : CloneObject O) : ℕ := (entryIds c).length + (entryValues c).length

/-! ## What `startWrite` does -/

section Wrote

variable (inner : CloneValue O → Writer O → Writer O → Prop)

/-- What a callback does. -/
def CallbackWrote : List (CallbackWrite O) → Writer O → Writer O → Prop
  | [], w, w' => w' = w
  | .words ws :: rest, w, w' => CallbackWrote rest (w.emit (wordsBytes ws)) w'
  | .typedArray v :: rest, w, w' => ∃ w₁, inner v w w₁ ∧ CallbackWrote rest w₁ w'

/-- What writing a value does, given what writing the values inside of an object does. -/
inductive WroteWith : CloneValue O → Writer O → Writer O → Prop
  | primitive {v w} (h : v.object? = none) : WroteWith v w (w.emit (primitiveBytes v))
  | backref {obj w} (h : obj ∈ w.memory) :
    WroteWith (.object obj) w (w.emit (pairBytes .SCTAG_BACK_REFERENCE_OBJECT (w.memory.idxOf obj)))
  | leaf {obj w bytes} (hnew : obj ∉ w.memory) (h : leafBytes (cx.object obj) = some bytes) :
    WroteWith (.object obj) w ((w.remember obj).emit bytes)
  | container {obj w bytes} (hnew : obj ∉ w.memory) (h : headerBytes cx (cx.object obj) = some bytes) :
    WroteWith (.object obj) w (((w.remember obj).push obj (entryCount (cx.object obj))
      (entryIds (cx.object obj)) (entryValues (cx.object obj))).emit bytes)
  | shared {obj w rawbuf byteLength} (hnew : obj ∉ w.memory)
    (h : cx.object obj = .sharedArrayBuffer rawbuf byteLength)
    (hscope : (w.remember obj).narrow.scope = .SameProcess) :
    WroteWith (.object obj) w
      (((w.remember obj).narrow.hold rawbuf).emit (sharedArrayBufferBytes rawbuf byteLength))
  | wasm {obj w buffer rawbuf byteLength} (hnew : obj ∉ w.memory)
    (h : cx.object obj = .sharedWasmMemory buffer)
    (hbuffer : cx.object buffer = .sharedArrayBuffer rawbuf byteLength)
    (hscope : (w.remember obj).narrow.scope = .SameProcess) :
    WroteWith (.object obj) w (((w.remember obj).narrow.hold rawbuf).emit
      (pairBytes .SCTAG_SHARED_WASM_MEMORY_OBJECT 0 ++ sharedArrayBufferBytes rawbuf byteLength))
  | view {obj w bytes buffer byteOffset w₁} (hnew : obj ∉ w.memory)
    (h : viewBytes (cx.object obj) = some (bytes, buffer, byteOffset))
    (hinner : inner (.object buffer) ((w.remember obj).emit bytes) w₁) :
    WroteWith (.object obj) w (w₁.emit (encode 8 byteOffset))
  | other {obj w write writes required w₁} (hnew : obj ∉ w.memory)
    (h : cx.object obj = .detachedArrayBuffer ∨ cx.object obj = .unsharedWasmMemory ∨ cx.object obj = .other)
    (hwrite : cx.callbacks.write = some write) (hwrites : write obj = some (writes, required))
    (hinner : CallbackWrote inner writes (w.remember obj) w₁) :
    WroteWith (.object obj) w (if required = true then w₁.narrow else w₁)

end Wrote

/-! ## Programs that only put out bytes -/

/-- The program puts out the bytes. -/
def Emits (m : WriteOp O Unit) (bytes : List Byte) : Prop := ∀ w, m w = some (.ok (), w.emit bytes)

namespace Emits

variable {m m' : WriteOp O Unit} {bytes bytes' : List Byte}

section

omit [DecidableEq O]

protected lemma bind (h : Emits m bytes) (h' : Emits m' bytes') :
    Emits (m >>= fun _ => m') (bytes ++ bytes') := fun w => by
  rw [bind_of_eq_ok (h w), h', Writer.emit_emit]

lemma ensures_bind {β : Type} {f : Unit → WriteOp O β} {w : Writer O} {Q : β → Writer O → Prop}
    {R : WriteError → Writer O → Prop} (h : Emits m bytes) (hf : Script.Ensures (f ()) (w.emit bytes) Q R) :
    Script.Ensures (m >>= f) w Q R := by
  refine .bind ⟨fun a w' heq => ?_, fun e w' heq => ?_⟩
  · cases (h w).symm.trans heq
    exact hf
  · cases (h w).symm.trans heq

lemma ensures {w : Writer O} {Q : Unit → Writer O → Prop} {R : WriteError → Writer O → Prop}
    (h : Emits m bytes) (hQ : Q () (w.emit bytes)) : Script.Ensures m w Q R := by
  refine ⟨fun a w' heq => ?_, fun e w' heq => ?_⟩
  · cases (h w).symm.trans heq
    exact hQ
  · cases (h w).symm.trans heq

end

end Emits

namespace WriteOp

section

omit [DecidableEq O]

lemma emits_write (u : ℕ) : Emits (write u : WriteOp O Unit) (encode 8 u) := fun _ => rfl

lemma emits_writePair (data : ℕ) : Emits (writePair tag data : WriteOp O Unit) (pairBytes tag data) := fun _ => rfl

lemma emits_writeDouble (d : Binary64.Double) : Emits (writeDouble d : WriteOp O Unit) (doubleBytes d) := fun _ => rfl

lemma emits_writeArray (elemSize : ℕ) (p : List ℕ) :
    Emits (writeArray elemSize p : WriteOp O Unit) (arrayBytes elemSize p) := fun _ => rfl

lemma emits_writeString (s : LinearString) : Emits (writeString tag s : WriteOp O Unit) (stringBytes tag s) :=
  .bind (emits_writePair _ _) (emits_writeArray _ _)

lemma emits_writeBigInt {tag : StructuredDataType} {bi : BigInt .bits64} (h : bi.digits.length < 2 ^ 31) :
    Emits (writeBigInt tag bi : WriteOp O Unit) (bigintBytes tag bi) := by
  unfold writeBigInt
  rw [if_neg (Nat.not_le.2 h)]
  exact .bind (emits_writePair _ _) (emits_writeArray _ _)

lemma emits_writeArrayBuffer (buffer : ArrayBufferData) :
    Emits (writeArrayBuffer buffer : WriteOp O Unit) (arrayBufferBytes buffer) :=
  .bind (emits_writePair _ _) (emits_writeArray _ _)

lemma emits_writeWords (ws : List ℕ) : Emits (writeWords ws : WriteOp O Unit) (wordsBytes ws) := by
  induction ws with
  | nil => exact fun w => congrArg (fun w => some (Except.ok (), w)) (Writer.emit_nil w).symm
  | cons u us ih => exact .bind (emits_write u) ih

/-! ## `startWrite` succeeds as it should -/

lemma ensures_writePrimitive {v : CloneValue O} (hv : v.object? = none) (w : Writer O) :
    Script.Ensures (writePrimitive v) w (fun _ w' => w' = w.emit (primitiveBytes v)) fun _ _ => True := by
  cases v with
  | string s => exact (emits_writeString _ s).ensures rfl
  | int32 i => exact (emits_writePair _ _).ensures rfl
  | double d => exact (emits_writeDouble d).ensures rfl
  | boolean b => exact (emits_writePair _ _).ensures rfl
  | null => exact (emits_writePair _ _).ensures rfl
  | undefined => exact (emits_writePair _ _).ensures rfl
  | symbol id => exact .throw trivial
  | bigint bi =>
    by_cases h : bi.digits.length < 2 ^ 31
    · exact (emits_writeBigInt h).ensures rfl
    · refine .ite (fun _ => .throw trivial) fun h' => absurd h' (by omega)
  | object obj => exact absurd hv (by simp [CloneValue.object?])

end

lemma ensures_startObject (obj : O) (w : Writer O) : Script.Ensures (startObject obj) w
    (fun backref w' => (backref = true ∧ obj ∈ w.memory ∧
        w' = w.emit (pairBytes .SCTAG_BACK_REFERENCE_OBJECT (w.memory.idxOf obj))) ∨
      (backref = false ∧ obj ∉ w.memory ∧ w' = w.remember obj)) fun _ _ => True := by
  refine .bind (.get (.ite (fun h => ?_) fun h => ?_))
  · exact (emits_writePair _ _).ensures_bind (.pure (.inl ⟨rfl, h, rfl⟩))
  · exact .bind (.modify (.ite (fun _ => .throw trivial) fun _ => .pure (.inr ⟨rfl, h, rfl⟩)))

omit [DecidableEq O] in
lemma ensures_writeSharedArrayBuffer (cx : WriteContext O) (rawbuf byteLength : ℕ) (w : Writer O) :
    Script.Ensures (writeSharedArrayBuffer cx rawbuf byteLength) w
      (fun _ w' => w.narrow.scope = .SameProcess ∧
        w' = (w.narrow.hold rawbuf).emit (sharedArrayBufferBytes rawbuf byteLength)) fun _ _ => True := by
  refine .ite (fun _ => .ite (fun _ => .throw trivial) fun _ => .throw trivial) fun _ => ?_
  refine .bind (.modify (.bind (.get (.ite (fun _ => .throw trivial) fun hscope => ?_))))
  have hsame : w.narrow.scope = .SameProcess := by
    have hle : w.narrow.scope.toNat ≤ 1 := Nat.not_lt.1 hscope
    cases h : w.narrow.scope with
    | SameProcess => rfl
    | _ => exact absurd (h ▸ hle) (by decide)
  refine .bind (.modify ((emits_writePair _ _).ensures_bind ((emits_writeArray _ _).ensures_bind
    ((emits_writeArray _ _).ensures_bind (.ite (fun _ => .throw trivial) fun _ => .pure ⟨hsame, ?_⟩)))))
  rw [Writer.emit_emit, Writer.emit_emit]
  rfl

omit [DecidableEq O] in
lemma ensures_traverseSavedFrame (cx : WriteContext O) (obj : O) (slots : FrameSlots)
    (parent : ParentSlot O) (w : Writer O) : Script.Ensures (traverseSavedFrame cx obj slots parent) w
      (fun _ w' => w' = (w.push obj 1 [] [parent.toValue]).emit (frameBytes cx slots)) fun _ _ => True := by
  have hline (n : ℕ) : (numberValue n : CloneValue O).object? = none := by
    unfold numberValue
    split <;> rfl
  have hoptional (s : Option LinearString) (w : Writer O) : Script.Ensures (writeOptionalString s) w
      (fun _ w' => w' = w.emit (optionalStringBytes s)) fun _ _ => True := by
    cases s with
    | none => exact ensures_writePrimitive (v := .null) rfl w
    | some s => exact ensures_writePrimitive (v := .string s) rfl w
  have hprincipals (w : Writer O) : Script.Ensures (writePrincipals cx slots.principals) w
      (fun _ w' => w' = w.emit (principalsBytes cx slots.principals)) fun _ _ => True := by
    cases slots.principals with
    | null => exact (emits_writePair _ _).ensures rfl
    | isSystem => exact (emits_writePair _ _).ensures rfl
    | isNotSystem => exact (emits_writePair _ _).ensures rfl
    | embedding id =>
      refine (emits_writePair _ _).ensures_bind ?_
      cases hwords : cx.callbacks.writePrincipals id with
      | none => exact .throw trivial
      | some ws =>
        refine (emits_writeWords ws).ensures ?_
        simp [principalsBytes, hwords]
  refine .bind (.modify (.bind ((hprincipals _).imp (fun _ w₁ h₁ => ?_) fun _ _ h => h)))
  refine .bind ((ensures_writePrimitive (v := .boolean slots.mutedErrors) rfl _).imp (fun _ w₂ h₂ => ?_) fun _ _ h => h)
  refine .bind ((ensures_writePrimitive (v := .string slots.source) rfl _).imp (fun _ w₃ h₃ => ?_) fun _ _ h => h)
  refine .bind ((ensures_writePrimitive (hline _) _).imp (fun _ w₄ h₄ => ?_) fun _ _ h => h)
  refine .bind ((ensures_writePrimitive (hline _) _).imp (fun _ w₅ h₅ => ?_) fun _ _ h => h)
  refine .bind ((hoptional _ _).imp (fun _ w₆ h₆ => ?_) fun _ _ h => h)
  refine (hoptional _ _).imp (fun _ w₇ h₇ => ?_) fun _ _ h => h
  rw [h₇, h₆, h₅, h₄, h₃, h₂, h₁]
  simp only [Writer.emit_emit, append_assoc]
  rfl

section StartWrite

variable {cx : WriteContext O} {m : CloneValue O → WriteOp O Unit}
  {inner : CloneValue O → Writer O → Writer O → Prop}
  (hm : ∀ v w, Script.Ensures (m v) w (fun _ => inner v w) fun _ _ => True)

include hm

omit [DecidableEq O] in
lemma ensures_callbackWrites (writes : List (CallbackWrite O)) (w : Writer O) :
    Script.Ensures (callbackWrites cx m writes) w (fun _ => CallbackWrote inner writes w)
      fun _ _ => True := by
  induction writes generalizing w with
  | nil => exact .pure rfl
  | cons write writes ih =>
    cases write with
    | words ws => exact (emits_writeWords ws).ensures_bind (ih _)
    | typedArray v =>
      have hvalue : Script.Ensures (writeTypedArrayValue cx m v) w (fun _ => inner v w)
          fun _ _ => True := by
        cases v with
        | object obj =>
          dsimp only [writeTypedArrayValue]
          split
          · exact hm _ w
          · exact .throw trivial
        | _ => exact .stuck
      exact .bind (hvalue.imp (fun _ w₁ h => (ih w₁).imp (fun _ _ h' => ⟨w₁, h, h'⟩) fun _ _ h => h)
        fun _ _ h => h)

omit hm in
lemma ensures_startWriteWith_primitive {v : CloneValue O} (hv : v.object? = none) (w : Writer O) :
    Script.Ensures (startWriteWith cx m v) w (fun _ => WroteWith cx inner v w) fun _ _ => True := by
  have heq : startWriteWith cx m v = writePrimitive v := by
    cases v with
    | object obj => exact absurd hv (by simp [CloneValue.object?])
    | _ => rfl
  rw [heq]
  exact (ensures_writePrimitive hv w).imp (fun _ _ h => h ▸ .primitive hv) fun _ _ h => h

lemma ensures_startWriteWith (v : CloneValue O) (w : Writer O) :
    Script.Ensures (startWriteWith cx m v) w (fun _ => WroteWith cx inner v w) fun _ _ => True := by
  cases v with
  | object obj =>
    refine .bind ((ensures_startObject obj w).imp (fun backref w' h => ?_) fun _ _ h => h)
    obtain ⟨rfl, hmem, rfl⟩ | ⟨rfl, hnew, rfl⟩ := h
    · exact .pure (.backref hmem)
    · refine .ite (fun h => absurd h (by decide)) fun _ => ?_
      have hother (h : cx.object obj = .detachedArrayBuffer ∨ cx.object obj = .unsharedWasmMemory ∨
          cx.object obj = .other) : Script.Ensures (writeOther cx m obj) (w.remember obj)
            (fun _ => WroteWith cx inner (.object obj) w) fun _ _ => True := by
        unfold writeOther
        cases hwrite : cx.callbacks.write with
        | none => exact .throw trivial
        | some write =>
          dsimp only
          cases hwrites : write obj with
          | none => exact .throw trivial
          | some result =>
            obtain ⟨writes, required⟩ := result
            dsimp only
            refine .bind ((ensures_callbackWrites hm writes _).imp (fun _ w₁ h₁ => ?_) fun _ _ h => h)
            have hwrote := WroteWith.other hnew h hwrite hwrites h₁
            refine .ite (fun hrequired => .modify ?_) fun hrequired => .pure ?_
            · rwa [if_pos hrequired] at hwrote
            · rwa [if_neg hrequired] at hwrote
      have hcontainer {bytes : List Byte} (h : headerBytes cx (cx.object obj) = some bytes) :
          WroteWith cx inner (.object obj) w (((w.remember obj).push obj (entryCount (cx.object obj))
            (entryIds (cx.object obj)) (entryValues (cx.object obj))).emit bytes) := .container hnew h
      unfold startWriteObject
      cases hc : cx.object obj with
      | plain properties =>
        have hwrote := hcontainer (congrArg (headerBytes cx) hc)
        simp only [hc, entryCount, entryIds, CloneObject.properties, entryValues, length_map, length_nil, Nat.add_zero] at hwrote
        exact .bind (.modify ((emits_writePair _ _).ensures hwrote))
      | array length properties =>
        have hwrote := hcontainer (congrArg (headerBytes cx) hc)
        simp only [hc, entryCount, entryIds, CloneObject.properties, entryValues, length_map, length_nil, Nat.add_zero] at hwrote
        exact .bind (.modify ((emits_writePair _ _).ensures hwrote))
      | map entries =>
        have hwrote := hcontainer (congrArg (headerBytes cx) hc)
        simp only [hc, entryCount, entryIds, CloneObject.properties, entryValues, map_nil, length_nil, Nat.zero_add] at hwrote
        exact .bind (.modify ((emits_writePair _ _).ensures hwrote))
      | set keys =>
        have hwrote := hcontainer (congrArg (headerBytes cx) hc)
        simp only [hc, entryCount, entryIds, CloneObject.properties, entryValues, map_nil, length_nil, Nat.zero_add] at hwrote
        exact .bind (.modify ((emits_writePair _ _).ensures hwrote))
      | savedFrame slots parent =>
        have hwrote := hcontainer (congrArg (headerBytes cx) hc)
        simp only [hc, entryCount, entryIds, CloneObject.properties, entryValues, map_nil, length_cons, length_nil, Nat.zero_add] at hwrote
        exact (ensures_traverseSavedFrame cx obj slots parent _).imp (fun _ _ h => h ▸ hwrote) fun _ _ h => h
      | booleanObject b => exact (emits_writePair _ _).ensures (.leaf hnew (congrArg leafBytes hc))
      | stringObject s => exact (emits_writeString _ s).ensures (.leaf hnew (congrArg leafBytes hc))
      | numberObject d =>
        exact ((emits_writePair _ _).bind (emits_writeDouble d)).ensures (.leaf hnew (congrArg leafBytes hc))
      | bigintObject bi =>
        refine .ite (fun _ => .throw trivial) fun h => ?_
        exact ((emits_writePair _ _).bind (emits_writeArray _ _)).ensures (.leaf hnew (congrArg leafBytes hc))
      | date t =>
        exact ((emits_writePair _ _).bind (emits_writeDouble t)).ensures (.leaf hnew (congrArg leafBytes hc))
      | regexp flags source =>
        exact ((emits_writePair _ _).bind (emits_writeString _ source)).ensures
          (.leaf hnew (congrArg leafBytes hc))
      | arrayBuffer buffer =>
        exact (emits_writeArrayBuffer buffer).ensures (.leaf hnew (congrArg leafBytes hc))
      | detachedArrayBuffer => exact hother (.inl hc)
      | sharedArrayBuffer rawbuf byteLength =>
        exact (ensures_writeSharedArrayBuffer cx rawbuf byteLength _).imp
          (fun _ _ h => h.2 ▸ .shared hnew hc h.1) fun _ _ h => h
      | typedArray type length byteOffset buffer =>
        refine (emits_writePair _ _).ensures_bind ((emits_write _).ensures_bind ?_)
        rw [Writer.emit_emit]
        exact .bind ((hm _ _).imp (fun _ w₁ h => (emits_write _).ensures
          (.view hnew (congrArg viewBytes hc) h)) fun _ _ h => h)
      | dataView byteLength byteOffset buffer =>
        refine (emits_writePair _ _).ensures_bind ?_
        exact .bind ((hm _ _).imp (fun _ w₁ h => (emits_write _).ensures
          (.view hnew (congrArg viewBytes hc) h)) fun _ _ h => h)
      | sharedWasmMemory buffer =>
        refine .ite (fun _ => .ite (fun _ => .throw trivial) fun _ => .throw trivial) fun _ => ?_
        refine (emits_writePair _ _).ensures_bind ?_
        cases hbuffer : cx.object buffer with
        | sharedArrayBuffer rawbuf byteLength =>
          refine (ensures_writeSharedArrayBuffer cx rawbuf byteLength _).imp (fun _ w₁ h => ?_) fun _ _ h => h
          have hwrote : WroteWith cx inner (.object obj) w (((w.remember obj).narrow.hold rawbuf).emit
              (pairBytes .SCTAG_SHARED_WASM_MEMORY_OBJECT 0 ++ sharedArrayBufferBytes rawbuf byteLength)) :=
            .wasm hnew hc hbuffer h.1
          rw [← Writer.emit_emit] at hwrote
          exact h.2 ▸ hwrote
        | _ => exact .stuck
      | unsharedWasmMemory => exact hother (.inr (.inl hc))
      | other => exact hother (.inr (.inr hc))
  | _ => exact ensures_startWriteWith_primitive rfl w

end StartWrite

end WriteOp

end SpiderMonkey.StructuredClone
