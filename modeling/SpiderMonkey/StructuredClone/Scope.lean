import SpiderMonkey.StructuredClone.SavedFrames
import SpiderMonkey.StructuredClone.Stacks

/-!
# Pointers in the output and the scope in front of them

The scope is written first.  If it is not known by then where the clone goes, `DifferentProcess` is written,
whatever is found later: shared memory, or an object for which a callback requires the same process, and
then the contents of array buffers are transferred by their pointers.
-/

namespace SpiderMonkey.StructuredClone

open LittleEndian Script Relation List

variable {O : Type} (cx : WriteContext O)

/-! ## The transfer list -/

/-- The objects that a callback has to allow the transfer of. -/
def CloneObject.needsCanTransfer : CloneObject O → Bool
  | .sharedArrayBuffer _ _ | .sharedWasmMemory _ | .unsharedWasmMemory | .detachedArrayBuffer | .arrayBuffer _ => false
  | _ => true

/-- The callback allows the transfer of the object to the same process only. -/
def TransferRequires (obj : O) : Prop :=
  (cx.object obj).needsCanTransfer = true ∧
    ∃ canTransfer, cx.callbacks.canTransfer = some canTransfer ∧ canTransfer obj = some true

/-- The object is an array buffer that is not detached. -/
def IsArrayBuffer (obj : O) : Prop := ∃ buffer, cx.object obj = .arrayBuffer buffer

def WriteOp.TransferList.objects : WriteOp.TransferList O → List O
  | .array elements => elements.filterMap CloneValue.object?
  | _ => []

/-- The transfer list has been parsed. -/
structure Parsed (w w' : Writer O) (objs : List O) : Prop where
  narrows : (∃ o ∈ objs, TransferRequires cx o) → w'.scope_ = w.narrow.scope_
  stays : (∀ o ∈ objs, ¬ TransferRequires cx o) → w'.scope_ = w.scope_
  rest : w' = { w with scope_ := w'.scope_, transferableObjects := w.transferableObjects ++ objs }

variable {cx}

namespace Parsed

variable {w w' w'' : Writer O} {objs objs' : List O}

lemma refl (w : Writer O) : Parsed cx w w [] where
  narrows := by simp
  stays _ := rfl
  rest := by rw [append_nil]

lemma narrow_scope (h : Parsed cx w w' objs) : w'.narrow.scope_ = w.narrow.scope_ := by
  by_cases hexists : ∃ o ∈ objs, TransferRequires cx o
  · rw [Writer.narrow_scope_eq (h.narrows hexists), Writer.narrow_narrow]
  · exact Writer.narrow_scope_eq (h.stays fun o ho hreq => hexists ⟨o, ho, hreq⟩)

lemma trans (h : Parsed cx w w' objs) (h' : Parsed cx w' w'' objs') : Parsed cx w w'' (objs ++ objs') where
  narrows := by
    rintro ⟨o, ho, hreq⟩
    by_cases hexists : ∃ o ∈ objs', TransferRequires cx o
    · exact (h'.narrows hexists).trans h.narrow_scope
    · obtain ho | ho := mem_append.1 ho
      · exact (h'.stays fun o ho hreq => hexists ⟨o, ho, hreq⟩).trans (h.narrows ⟨o, ho, hreq⟩)
      · exact absurd ⟨o, ho, hreq⟩ hexists
  stays hno := (h'.stays fun o ho => hno o (mem_append_right _ ho)).trans
    (h.stays fun o ho => hno o (mem_append_left _ ho))
  rest := by
    rw [h'.rest, h.rest]
    simp

end Parsed

namespace WriteOp

variable [DecidableEq O] {w : Writer O}

/-- The check for duplicates, which comes after the scope may have been narrowed. -/
lemma ensures_addTransferable {tObj : O} {w₁ : Writer O}
    (hscope : (TransferRequires cx tObj → w₁.scope_ = w.narrow.scope_) ∧
      (¬ TransferRequires cx tObj → w₁.scope_ = w.scope_)) (hrest : w₁ = { w with scope_ := w₁.scope_ }) :
    Script.Ensures (do
      let w ← Script.get
      if tObj ∈ w.transferableObjects then Script.throw .JS_SCERR_DUP_TRANSFERABLE
      else Script.modify fun w => { w with transferableObjects := w.transferableObjects ++ [tObj] } :
        WriteOp O Unit) w₁ (fun _ w' => Parsed cx w w' [tObj]) fun _ _ => True := by
  refine .bind (.get (.ite (fun _ => .throw trivial) fun _ => .modify ?_))
  refine ⟨fun ⟨o, ho, hreq⟩ => ?_, fun hno => hscope.2 (hno tObj mem_cons_self), ?_⟩
  · exact hscope.1 (mem_singleton.1 ho ▸ hreq)
  · rw [hrest]

lemma ensures_canTransfer {tObj : O} (hkind : (cx.object tObj).needsCanTransfer = true) : Script.Ensures (do
    match cx.callbacks.canTransfer with
    | none => Script.throw .JS_SCERR_TRANSFERABLE
    | some canTransfer =>
      match canTransfer tObj with
      | none => Script.throw .callback
      | some required => if required = true then Script.modify Writer.narrow else pure ()
    let w ← Script.get
    if tObj ∈ w.transferableObjects then Script.throw .JS_SCERR_DUP_TRANSFERABLE
    else Script.modify fun w => { w with transferableObjects := w.transferableObjects ++ [tObj] } :
      WriteOp O Unit) w (fun _ w' => Parsed cx w w' [tObj]) fun _ _ => True := by
  cases hcanTransfer : cx.callbacks.canTransfer with
  | none => exact .bind (.throw trivial)
  | some canTransfer =>
    dsimp only
    cases hrequired : canTransfer tObj with
    | none => exact .bind (.throw trivial)
    | some required =>
      have hiff : TransferRequires cx tObj ↔ required = true := by
        constructor
        · rintro ⟨-, f, hf, hreq⟩
          cases hcanTransfer.symm.trans hf
          exact Option.some.inj (hrequired.symm.trans hreq)
        · rintro rfl
          exact ⟨hkind, canTransfer, hcanTransfer, hrequired⟩
      refine .ite (fun hreq => .bind (.modify (ensures_addTransferable ⟨fun _ => rfl, fun hno => ?_⟩ rfl)))
        fun hreq => ?_
      · exact absurd (hiff.2 hreq) hno
      · exact ensures_addTransferable ⟨fun h => absurd (hiff.1 h) hreq, fun _ => rfl⟩ rfl

lemma ensures_parseTransferableElement (v : CloneValue O) (w : Writer O) :
    Script.Ensures (parseTransferableElement cx v) w (fun _ w' => Parsed cx w w' v.object?.toList)
      fun _ _ => True := by
  cases v with
  | object tObj =>
    have hkeep (hkind : ¬ TransferRequires cx tObj) :=
      ensures_addTransferable (w := w) ⟨fun h => absurd h hkind, fun _ => rfl⟩ rfl
    have hplain (hkind : (cx.object tObj).needsCanTransfer = false) : ¬ TransferRequires cx tObj :=
      fun h => by simp [h.1] at hkind
    change Script.Ensures _ _ (fun _ w' => Parsed cx w w' [tObj]) _
    unfold parseTransferableElement
    dsimp only
    cases hc : cx.object tObj with
    | sharedArrayBuffer _ _ => exact .bind (.throw trivial)
    | sharedWasmMemory _ => exact .bind (.throw trivial)
    | unsharedWasmMemory => exact hkeep (hplain (by rw [hc]; rfl))
    | detachedArrayBuffer => exact hkeep (hplain (by rw [hc]; rfl))
    | arrayBuffer buffer =>
      exact .ite (fun _ => .bind (.throw trivial)) fun _ => hkeep (hplain (by rw [hc]; rfl))
    | _ => exact ensures_canTransfer (by rw [hc]; rfl)
  | _ => exact .throw trivial

lemma ensures_parseTransferableElements (vs : List (CloneValue O)) (w : Writer O) :
    Script.Ensures (parseTransferableElements cx vs) w
      (fun _ w' => Parsed cx w w' (vs.filterMap CloneValue.object?)) fun _ _ => True := by
  induction vs generalizing w with
  | nil => exact .pure (.refl w)
  | cons v vs ih =>
    refine .bind ((ensures_parseTransferableElement v w).imp (fun _ w₁ h => ?_) fun _ _ h => h)
    refine (ih w₁).imp (fun _ w₂ h' => ?_) fun _ _ h => h
    have happend : (v :: vs).filterMap CloneValue.object? = v.object?.toList ++ vs.filterMap CloneValue.object? := by
      cases v <;> rfl
    rw [happend]
    exact h.trans h'

lemma ensures_parseTransferable (transferable : TransferList O) (w : Writer O) :
    Script.Ensures (parseTransferable cx transferable) w (fun _ w' => Parsed cx w w' transferable.objects)
      fun _ _ => True := by
  cases transferable with
  | none => exact .pure (.refl w)
  | array elements => exact ensures_parseTransferableElements elements w
  | invalid => exact .throw trivial

/-! ## The transfer map -/

omit [DecidableEq O] in
lemma ensures_writeTransferMapEntries (objs : List O) (w : Writer O) :
    Script.Ensures (writeTransferMapEntries objs) w (fun _ w' => ∃ bytes,
      w' = { w with memory := w.memory ++ objs, out := w.out ++ bytes }) fun _ _ => True := by
  induction objs generalizing w with
  | nil => exact .pure ⟨[], by simp⟩
  | cons obj objs ih =>
    refine .bind (.modify ((emits_writePair _ _).ensures_bind ((emits_write _).ensures_bind
      ((emits_write _).ensures_bind ((ih _).imp ?_ fun _ _ h => h)))))
    rintro _ _ ⟨bytes, rfl⟩
    exact ⟨pairBytes .SCTAG_TRANSFER_MAP_PENDING_ENTRY SCTAG_TMO_UNFILLED ++ (encode 8 0 ++ (encode 8 0 ++ bytes)),
      by simp [Writer.emit, Writer.remember, append_assoc]⟩

omit [DecidableEq O] in
lemma ensures_writeTransferMap (w : Writer O) : Script.Ensures (writeTransferMap cx) w (fun _ w' => ∃ bytes,
      w' = { w with memory := w.memory ++ cx.order w.transferableObjects, out := w.out ++ bytes })
        fun _ _ => True := by
  refine .bind (.get (.ite (fun hnil => .pure ⟨[], ?_⟩) fun _ => ?_))
  · have horder : cx.order w.transferableObjects = [] := by
      have := (cx.order_perm w.transferableObjects).length_eq
      rw [hnil] at this ⊢
      exact length_eq_zero_iff.1 this
    simp [horder]
  · refine (emits_writePair _ _).ensures_bind ((emits_write _).ensures_bind
      ((ensures_writeTransferMapEntries _ _).imp ?_ fun _ _ h => h))
    rintro _ _ ⟨bytes, rfl⟩
    exact ⟨pairBytes .SCTAG_TRANSFER_MAP_HEADER SCTAG_TM_UNREAD ++
      (encode 8 w.transferableObjects.length ++ bytes), by simp [Writer.emit, append_assoc]⟩

/-! ## Transfers -/

variable (cx) in
/-- Objects have been transferred, with `objs` among them array buffers if their contents were extracted. -/
structure Transferred (scope : StructuredCloneScope) (objs : List O) (w w' : Writer O) : Prop where
  refsHeld : w'.refsHeld = w.refsHeld
  header : 8 ≤ w.out.length → 8 ≤ w'.out.length ∧ w'.out.take 8 = w.out.take 8
  stored : scope = .DifferentProcess ∨ scope = .DifferentProcessForIndexedDB → w'.extracted = w.extracted
  extracted : ¬ (scope = .DifferentProcess ∨ scope = .DifferentProcessForIndexedDB) →
    (w'.extracted ≠ [] ↔ w.extracted ≠ [] ∨ ∃ o ∈ objs, IsArrayBuffer cx o)

namespace Transferred

variable {scope : StructuredCloneScope} {objs objs' : List O} {w w' w'' : Writer O}

omit [DecidableEq O] in
lemma trans (h : Transferred cx scope objs w w') (h' : Transferred cx scope objs' w' w'') :
    Transferred cx scope (objs ++ objs') w w'' where
  refsHeld := h'.refsHeld.trans h.refsHeld
  header hle := by
    obtain ⟨hle', heq⟩ := h.header hle
    obtain ⟨hle'', heq'⟩ := h'.header hle'
    exact ⟨hle'', heq'.trans heq⟩
  stored hscope := (h'.stored hscope).trans (h.stored hscope)
  extracted hscope := by
    rw [h'.extracted hscope, h.extracted hscope]
    simp [or_and_right, exists_or, or_assoc]

omit [DecidableEq O] in
lemma of_same (hrefs : w'.refsHeld = w.refsHeld)
    (hheader : 8 ≤ w.out.length → 8 ≤ w'.out.length ∧ w'.out.take 8 = w.out.take 8)
    (hextracted : w'.extracted = w.extracted)
    (hno : ¬ (scope = .DifferentProcess ∨ scope = .DifferentProcessForIndexedDB) →
      ∀ o ∈ objs, ¬ IsArrayBuffer cx o) : Transferred cx scope objs w w' := by
  refine ⟨hrefs, hheader, fun _ => hextracted, fun hscope => ?_⟩
  rw [hextracted]
  exact ⟨.inl, fun h => h.elim id fun ⟨o, ho, hbuffer⟩ => absurd hbuffer (hno hscope o ho)⟩

end Transferred

lemma take_overwrite {point : ℕ} (hpoint : 8 ≤ point) (u : ℕ) {out : List LittleEndian.Byte} (hle : 8 ≤ out.length) :
    8 ≤ (overwrite point u out).length ∧ (overwrite point u out).take 8 = out.take 8 := by
  unfold overwrite
  constructor
  · rw [List.length_append, List.length_append, length_encode]
    omega
  · have htake : 8 ≤ (out.take point).length := by
      rw [length_take]
      omega
    simp [take_append_of_le_length htake, take_take, Nat.min_eq_left hpoint]

/-- The writer with a filled entry. -/
def filled (point tag ownership content extraData : ℕ) (w : Writer O) : Writer O :=
  { w with out := overwrite (point + 16) extraData (overwrite (point + 8) content
      (overwrite point (pairToUInt64 tag ownership) w.out)) }

omit [DecidableEq O] in
lemma take_filled {point : ℕ} (hpoint : 8 ≤ point) (tag ownership content extraData : ℕ) {w : Writer O}
    (hle : 8 ≤ w.out.length) : 8 ≤ (filled point tag ownership content extraData w).out.length ∧
      (filled point tag ownership content extraData w).out.take 8 = w.out.take 8 := by
  obtain ⟨hle₁, heq₁⟩ := take_overwrite hpoint (pairToUInt64 tag ownership) hle
  obtain ⟨hle₂, heq₂⟩ := take_overwrite (show 8 ≤ point + 8 by omega) content hle₁
  obtain ⟨hle₃, heq₃⟩ := take_overwrite (show 8 ≤ point + 16 by omega) extraData hle₂
  exact ⟨hle₃, heq₃.trans (heq₂.trans heq₁)⟩

omit [DecidableEq O] in
lemma ensures_extractStructuredCloneContents (obj : O) (buffer : ArrayBufferData) (w : Writer O) :
    Script.Ensures (extractStructuredCloneContents cx obj buffer) w (fun _ w' =>
      w' = { w with detached := w.detached ++ [obj], extracted := w.extracted ++ [buffer.data] })
        fun _ _ => True := by
  unfold extractStructuredCloneContents
  cases buffer.kind with
  | INLINE_DATA => exact .ite (fun _ => .bind (.modify (.pure rfl))) fun _ => .throw trivial
  | NO_DATA => exact .ite (fun _ => .bind (.modify (.pure rfl))) fun _ => .throw trivial
  | USER_OWNED => exact .ite (fun _ => .bind (.modify (.pure rfl))) fun _ => .throw trivial
  | MALLOCED => exact .bind (.modify (.pure rfl))
  | MAPPED => exact .bind (.modify (.pure rfl))
  | WASM => exact .throw trivial
  | EXTERNAL => exact .stuck

variable (scope : StructuredCloneScope)

section

omit [DecidableEq O]

lemma ensures_writeTransfer {obj : O} {point : ℕ} (hpoint : 8 ≤ point)
    (w : Writer O) (hno : ¬ IsArrayBuffer cx obj) : Script.Ensures (match cx.callbacks.writeTransfer with
      | none => Script.throw .JS_SCERR_TRANSFERABLE
      | some writeTransfer =>
        match writeTransfer obj with
        | none => Script.throw .callback
        | some (tag, ownership, content, extraData) => fillEntry point tag ownership content extraData :
          WriteOp O Unit) w (fun _ w' => Transferred cx scope [obj] w w') fun _ _ => True := by
  cases cx.callbacks.writeTransfer with
  | none => exact .throw trivial
  | some writeTransfer =>
    dsimp only
    cases writeTransfer obj with
    | none => exact .throw trivial
    | some entry =>
      exact .modify (.of_same rfl (take_filled hpoint _ _ _ _) rfl fun _ o ho => mem_singleton.1 ho ▸ hno)

lemma ensures_transferObject (obj : O) {point : ℕ} (hpoint : 8 ≤ point)
    (w : Writer O) : Script.Ensures (transferObject cx scope obj point) w
      (fun _ w' => Transferred cx scope [obj] w w') fun _ _ => True := by
  unfold transferObject
  cases hc : cx.object obj with
  | detachedArrayBuffer => exact .throw trivial
  | arrayBuffer buffer =>
    have hbuffer : IsArrayBuffer cx obj := ⟨buffer, hc⟩
    refine .ite (fun _ => .throw trivial) fun _ => .ite (fun hscope => ?_) fun hscope => ?_
    · -- the contents are stored at the end of the output
      refine .bind (.get ((emits_writeArrayBuffer buffer).ensures_bind (.bind (.modify (.modify ?_)))))
      refine .of_same rfl (fun hle => ?_) rfl fun h => absurd hscope h
      have hle' : 8 ≤ (w.out ++ arrayBufferBytes buffer).length := by
        rw [List.length_append]
        omega
      obtain ⟨hlength, htake⟩ := take_filled hpoint
        StructuredDataType.SCTAG_TRANSFER_MAP_STORED_ARRAY_BUFFER.code SCTAG_TMO_UNOWNED 0 (w.out.length - point)
        (w := w.emit (arrayBufferBytes buffer)) hle'
      exact ⟨hlength, htake.trans (take_append_of_le_length hle)⟩
    · refine .bind ((ensures_extractStructuredCloneContents obj buffer w).imp ?_ fun _ _ h => h)
      rintro ownership _ rfl
      refine .modify ⟨rfl, take_filled hpoint _ _ _ _, fun h => absurd h hscope, fun _ => ?_⟩
      simp [hbuffer]
  | _ => exact ensures_writeTransfer scope hpoint w fun ⟨buffer, h⟩ => by simp [hc] at h

lemma ensures_transferObjects (objs : List O) {point : ℕ} (hpoint : 8 ≤ point)
    (w : Writer O) : Script.Ensures (transferObjects cx scope objs point) w
      (fun _ w' => Transferred cx scope objs w w') fun _ _ => True := by
  induction objs generalizing point w with
  | nil => exact .pure (.of_same rfl (fun hle => ⟨hle, rfl⟩) rfl (by simp))
  | cons obj objs ih =>
    refine .bind ((ensures_transferObject scope obj hpoint w).imp (fun _ w₁ h => ?_) fun _ _ h => h)
    exact (ih (by omega) w₁).imp (fun _ _ h' => h.trans h') fun _ _ h => h

lemma ensures_transferOwnership (w : Writer O) : Script.Ensures (transferOwnership cx) w
    (fun _ w' => Transferred cx w.scope w.transferableObjects w w') fun _ _ => True := by
  refine .bind (.get (.ite (fun hnil => .pure ?_) fun _ => ?_))
  · exact .of_same rfl (fun hle => ⟨hle, rfl⟩) rfl (by simp [hnil])
  · refine (ensures_transferObjects w.scope _ (by norm_num) w).imp (fun _ w' h => ?_) fun _ _ h => h
    refine { h with extracted := fun hscope => (h.extracted hscope).trans (or_congr_right ?_) }
    exact exists_congr fun o => and_congr_left fun _ => (cx.order_perm w.transferableObjects).mem_iff

end

end WriteOp

/-! ## The header -/

/-- There is a pointer in the output: of a shared buffer, or to the contents of an array buffer. -/
def Writer.HasPointer (w : Writer O) : Prop := w.refsHeld ≠ [] ∨ w.extracted ≠ []

/-- The first word of the output. -/
def firstPair (out : List LittleEndian.Byte) : ℕ × ℕ := ReadOp.splitPair (Radix.val (out.take 8))

/-- The scope in the header is `SameProcess`, and a reader in another process rejects it. -/
def KeptInProcess (out : List LittleEndian.Byte) : Prop :=
  firstPair out = (StructuredDataType.SCTAG_HEADER.code, StructuredCloneScope.SameProcess.toNat) ∧ ∀ rcx : ReadContext,
      Runs (ReadOp.readHeader rcx) (Reader.init out .DifferentProcess) (fun _ _ => False) fun _ _ => True

lemma runs_readHeader_rejects {out : List LittleEndian.Byte} (h : firstPair out =
      (StructuredDataType.SCTAG_HEADER.code, StructuredCloneScope.SameProcess.toNat)) (rcx : ReadContext) :
    Runs (ReadOp.readHeader rcx) (Reader.init out .DifferentProcess) (fun _ _ => False) fun _ _ => True := by
  have hscope : Runs (ReadOp.readStoredScope rcx) (Reader.init out .DifferentProcess)
      (fun stored r => stored = StructuredCloneScope.SameProcess.toNat ∧ r.allowedScope = .DifferentProcess)
        fun _ _ => True := by
    refine .bind (.bind (.bind (.get (.ite (fun hroom => ?_) fun _ => .throw trivial))))
    refine .bind (.get (.bind (.assert hroom (.pure (.pure ?_)))))
    change Runs (if (firstPair out).1 = _ then _ else _) _ _ _
    rw [h, if_pos rfl]
    refine .bind (.bind (.bind (.bind (.get (.ite (fun hroom => ?_) fun _ => .throw trivial)))))
    refine .bind (.get (.bind (.assert hroom (.pure (.bind (.modify (.pure (.pure (.pure ⟨?_, rfl⟩)))))))))
    exact congrArg Prod.snd h
  refine .bind (hscope.imp ?_ fun _ _ h => h)
  rintro _ r ⟨rfl, hallowed⟩
  refine .bind (.get (.ite (fun _ => .throw trivial) fun _ => .ite (fun hindexed => ?_) fun _ => ?_))
  · rw [hallowed] at hindexed
    simp at hindexed
  · refine .ite (fun _ => .throw trivial) fun hlt => absurd ?_ hlt
    rw [hallowed]
    decide

lemma firstPair_header (scope : StructuredCloneScope) (rest : List LittleEndian.Byte) :
    firstPair (pairBytes .SCTAG_HEADER scope.toNat ++ rest) = (StructuredDataType.SCTAG_HEADER.code, scope.toNat) := by
  have hcode := StructuredDataType.code_lt .SCTAG_HEADER
  have hscope : scope.toNat < 2 ^ 32 := by cases scope <;> decide
  unfold firstPair pairBytes ReadOp.splitPair
  rw [val_take_encode (pairToUInt64_lt hcode), pairToUInt64_div, pairToUInt64_mod hscope, Nat.mod_eq_of_lt hcode]

/-! ## Writing as a whole -/

/-- It is known when the header is written that pointers stay in the process, or there are none. -/
def PointersAnnounced (cx : WriteContext O) (scope : StructuredCloneScope) (transferable : List O)
    (v : CloneValue O) : Prop :=
  scope ≠ .UnknownDestination ∨ (∃ o ∈ transferable, TransferRequires cx o) ∨
    (∀ o, Reaches cx transferable v o → ¬ Shares cx o) ∧
      ((∃ o, Reaches cx transferable v o ∧ RequiresSameProcess cx o) → ∀ o ∈ transferable, ¬ IsArrayBuffer cx o)

/-- A value has been written: `w₁` is the writer when the header was written, and `w₂` before transfers. -/
structure Written (cx : WriteContext O) (transferable : List O) (v : CloneValue O) (w₁ w₂ w : Writer O) : Prop where
  header : firstPair w.out = (StructuredDataType.SCTAG_HEADER.code, w₁.scope.toNat)
  refsHeld : w.refsHeld ≠ [] ↔ ∃ o, Reaches cx transferable v o ∧ Shares cx o
  narrows : (∃ o, Reaches cx transferable v o ∧ Narrows cx o) → w₂.scope_ = w₁.narrow.scope_
  stays : (∀ o, Reaches cx transferable v o → ¬ Narrows cx o) → w₂.scope_ = w₁.scope_
  same : (∃ o, Reaches cx transferable v o ∧ Shares cx o) → w₂.scope_ = .SameProcess
  extracted : w.extracted ≠ [] ↔ ¬ (w₂.scope = .DifferentProcess ∨ w₂.scope = .DifferentProcessForIndexedDB) ∧
      ∃ o ∈ transferable, IsArrayBuffer cx o

lemma ensures_writeStructuredClone [DecidableEq O] (v : CloneValue O) (transferable : WriteOp.TransferList O)
    (rounds : ℕ) (scope : StructuredCloneScope) :
    Script.Ensures (WriteOp.writeStructuredClone cx v transferable rounds) (Writer.init scope)
      (fun _ w => ∃ w₁ w₂, Parsed cx (Writer.init scope) w₁ transferable.objects ∧
        Written cx transferable.objects v w₁ w₂ w) fun _ _ => True := by
  refine .bind (.bind ((WriteOp.ensures_parseTransferable transferable _).imp (fun _ w₁ hparsed => ?_) fun _ _ h => h))
  have hrest := hparsed.rest
  refine .bind (.bind (.get ((WriteOp.emits_writePair _ _).ensures ?_)))
  refine (WriteOp.ensures_writeTransferMap _).imp ?_ fun _ _ h => h
  rintro _ _ ⟨bytes, rfl⟩
  have htransferable : w₁.transferableObjects = transferable.objects := by
    rw [hrest]
    rfl
  have horder (o : O) : o ∈ cx.order w₁.transferableObjects ↔ o ∈ transferable.objects := by
    rw [(cx.order_perm _).mem_iff, htransferable]
  have hempty : w₁.memory = [] ∧ w₁.objs = [] ∧ w₁.counts = [] ∧ w₁.objectEntries = [] ∧ w₁.otherEntries = [] ∧
      w₁.out = [] ∧ w₁.refsHeld = [] ∧ w₁.extracted = [] := by
    rw [hrest]
    exact ⟨rfl, rfl, rfl, rfl, rfl, rfl, rfl, rfl⟩
  obtain ⟨hmemory, hobjs, hcounts, hids, hvalues, hout, hrefs, hextracted⟩ := hempty
  -- the writer in front of the value
  obtain ⟨w₀, hw₀⟩ : ∃ w₀ : Writer O, w₀ = { w₁.emit (pairBytes .SCTAG_HEADER w₁.scope.toNat) with
      memory := w₁.memory ++ cx.order w₁.transferableObjects
      out := w₁.out ++ pairBytes .SCTAG_HEADER w₁.scope.toNat ++ bytes } := ⟨_, rfl⟩
  change Script.Ensures _ { w₁.emit (pairBytes .SCTAG_HEADER w₁.scope.toNat) with
      memory := w₁.memory ++ cx.order w₁.transferableObjects
      out := w₁.out ++ pairBytes .SCTAG_HEADER w₁.scope.toNat ++ bytes } _ _
  rw [← hw₀]
  have hmemory₀ (o : O) : o ∈ w₀.memory ↔ o ∈ transferable.objects := by
    rw [hw₀]
    change o ∈ w₁.memory ++ cx.order w₁.transferableObjects ↔ _
    rw [hmemory, nil_append, horder]
  refine .bind ((WriteOp.ensures_startWrite v w₀).imp (fun _ w₂ hwrote => ?_) fun _ _ h => h)
  obtain ⟨frames, new, hstacked⟩ := Stacked.start (by rw [hw₀]; exact hobjs)
    (by rw [hw₀]; exact hcounts) (by rw [hw₀]; exact hids) (by rw [hw₀]; exact hvalues)
    (fun o ho => (hmemory₀ o).2 ho) (Covers.of_wrote hwrote)
  refine .bind ((hstacked.ensures_iterate rounds).imp ?_ fun _ _ h => h)
  rintro _ w₃ ⟨new', hdone⟩
  have hnew (o : O) := hdone.mem_iff_reaches (fun o ho => (hmemory₀ o).1 ho) o
  have hgrowth := hdone.growth
  have hexists (P : O → Prop) : (∃ o ∈ new', P o) ↔ ∃ o, Reaches cx transferable.objects v o ∧ P o :=
    exists_congr fun o => and_congr_left fun _ => hnew o
  refine .bind (.modify ((WriteOp.ensures_transferOwnership _).imp (fun _ w h => ?_) fun _ _ h => h))
  have hscope₀ : w₀.scope_ = w₁.scope_ := by rw [hw₀]; rfl
  refine ⟨w₁, w₃, hparsed, ?_, ?_, fun hn => ?_, fun hn => ?_, fun hn => ?_, ?_⟩
  · obtain ⟨more, hmore⟩ := hgrowth.out
    have hout₃ : w₃.out = pairBytes .SCTAG_HEADER w₁.scope.toNat ++ (bytes ++ more) := by
      rw [hmore, hw₀]
      change w₁.out ++ _ ++ bytes ++ more = _
      rw [hout, nil_append, append_assoc]
    have hlength : 8 ≤ w₃.out.length := by
      rw [hout₃, List.length_append, pairBytes, length_encode]
      omega
    unfold firstPair
    rw [(h.header hlength).2]
    change firstPair w₃.out = _
    rw [hout₃, firstPair_header]
  · have hrefs₀ : w₀.refsHeld = [] := by rw [hw₀]; exact hrefs
    rw [h.refsHeld]
    change w₃.refsHeld ≠ [] ↔ _
    rw [hgrowth.refsHeld, hrefs₀, hexists]
    simp
  · rw [hgrowth.narrows ((hexists _).2 hn), Writer.narrow_scope_eq hscope₀]
  · rw [hgrowth.stays fun o ho => hn o ((hnew o).1 ho), hscope₀]
  · exact hgrowth.same ((hexists _).2 hn)
  · have hextracted₃ : w₃.extracted = [] := by rw [hgrowth.extracted, hw₀]; exact hextracted
    have htransferable₃ : w₃.transferableObjects = transferable.objects := by
      rw [hgrowth.transferableObjects, hw₀]
      exact htransferable
    by_cases hscope : w₃.scope = .DifferentProcess ∨ w₃.scope = .DifferentProcessForIndexedDB
    · rw [h.stored hscope]
      change w₃.extracted ≠ [] ↔ _
      simp [hextracted₃, hscope]
    · rw [h.extracted hscope]
      change w₃.extracted ≠ [] ∨ (∃ o ∈ w₃.transferableObjects, _) ↔ _
      simp [hextracted₃, hscope, htransferable₃]

namespace Written

variable {transferable : List O} {v : CloneValue O} {scope : StructuredCloneScope} {w₁ w₂ w : Writer O}

lemma keptInProcess_iff (h : Written cx transferable v w₁ w₂ w) : KeptInProcess w.out ↔ w₁.scope = .SameProcess := by
  constructor
  · intro hkept
    have hnat := (Prod.mk.inj (h.header.symm.trans hkept.1)).2
    cases hscope : w₁.scope <;> simp [hscope, StructuredCloneScope.toNat] at hnat ⊢
  · intro hscope
    have hfirst := hscope ▸ h.header
    exact ⟨hfirst, runs_readHeader_rejects hfirst⟩

lemma scope_of_known (hparsed : Parsed cx (Writer.init scope) w₁ transferable)
    (h : Written cx transferable v w₁ w₂ w) (hknown : scope ≠ .UnknownDestination) :
    w₁.scope_ = scope ∧ w₂.scope_ = scope := by
  have hnarrow {w : Writer O} (hw : w.scope_ = scope) : w.narrow.scope_ = scope := by
    unfold Writer.narrow
    simp [hw, hknown]
  have hscope₁ : w₁.scope_ = scope := by
    by_cases hreq : ∃ o ∈ transferable, TransferRequires cx o
    · exact (hparsed.narrows hreq).trans (hnarrow rfl)
    · exact hparsed.stays fun o ho hr => hreq ⟨o, ho, hr⟩
  refine ⟨hscope₁, ?_⟩
  by_cases hnarrows : ∃ o, Reaches cx transferable v o ∧ Narrows cx o
  · exact (h.narrows hnarrows).trans (hnarrow hscope₁)
  · exact (h.stays fun o ho hn => hnarrows ⟨o, ho, hn⟩).trans hscope₁

lemma no_pointer (h : Written cx transferable v w₁ w₂ w)
    (hscope : w₂.scope_ = .DifferentProcess ∨ w₂.scope_ = .DifferentProcessForIndexedDB) : ¬ w.HasPointer := by
  rintro (hrefs | hextracted)
  · have hsame := h.same (h.refsHeld.1 hrefs)
    rw [hsame] at hscope
    simp at hscope
  · refine (h.extracted.1 hextracted).1 ?_
    unfold Writer.scope
    obtain hscope | hscope := hscope <;> simp [hscope]

/-- If it is not known where the clone goes, the pointers depend on what can be reached. -/
lemma hasPointer_iff (h : Written cx transferable v w₁ w₂ w) (hunknown : w₁.scope_ = .UnknownDestination) :
    w.HasPointer ↔ (∃ o, Reaches cx transferable v o ∧ Shares cx o) ∨
      (∃ o, Reaches cx transferable v o ∧ Narrows cx o) ∧ ∃ o ∈ transferable, IsArrayBuffer cx o := by
  refine or_congr h.refsHeld (h.extracted.trans (and_congr_left fun _ => ?_))
  by_cases hnarrows : ∃ o, Reaches cx transferable v o ∧ Narrows cx o
  · have hscope : w₂.scope_ = .SameProcess := by
      rw [h.narrows hnarrows, Writer.narrow, hunknown]
      rfl
    simp [Writer.scope, hscope, hnarrows]
  · have hscope : w₂.scope_ = .UnknownDestination :=
      (h.stays fun o ho hn => hnarrows ⟨o, ho, hn⟩).trans hunknown
    simp [Writer.scope, hscope, hnarrows]

end Written

/-- Pointers in the output are announced in the header, so that another process rejects it, if and only if
the header was not written too early. -/
theorem pointers_keptInProcess_iff [DecidableEq O] (cx : WriteContext O) (v : CloneValue O)
    (transferable : WriteOp.TransferList O) (rounds : ℕ) {scope : StructuredCloneScope} (hscope : scope ≠ .Unassigned)
    {w : Writer O}
    (h : WriteOp.writeStructuredClone cx v transferable rounds (Writer.init scope) = some (.ok (), w)) :
    (w.HasPointer → KeptInProcess w.out) ↔ PointersAnnounced cx scope transferable.objects v := by
  obtain ⟨w₁, w₂, hparsed, hw⟩ := (ensures_writeStructuredClone v transferable rounds scope).1 _ _ h
  rw [hw.keptInProcess_iff]
  by_cases hknown : scope = .UnknownDestination
  · subst hknown
    by_cases hrequires : ∃ o ∈ transferable.objects, TransferRequires cx o
    · -- the transfer list has narrowed the scope
      have hscope₁ : w₁.scope_ = .SameProcess := (hparsed.narrows hrequires).trans rfl
      have hsame : w₁.scope = .SameProcess := by simp [Writer.scope, hscope₁]
      exact ⟨fun _ => .inr (.inl hrequires), fun _ _ => hsame⟩
    · have hunknown : w₁.scope_ = .UnknownDestination :=
        hparsed.stays fun o ho hr => hrequires ⟨o, ho, hr⟩
      have hdifferent : ¬ w₁.scope = .SameProcess := by simp [Writer.scope, hunknown]
      rw [hw.hasPointer_iff hunknown]
      constructor
      · intro hno
        have hshares (o : O) (ho : Reaches cx transferable.objects v o) : ¬ Shares cx o :=
          fun hs => hdifferent (hno (.inl ⟨o, ho, hs⟩))
        refine .inr (.inr ⟨hshares, fun ⟨o, ho, hreq⟩ o' ho' hbuffer => hdifferent (hno (.inr ⟨?_, o', ho', hbuffer⟩))⟩)
        exact ⟨o, ho, .inr hreq⟩
      · rintro (hne | hreq | ⟨hshares, hbuffers⟩)
        · exact absurd rfl hne
        · exact absurd hreq hrequires
        · rintro (⟨o, ho, hs⟩ | ⟨⟨o, ho, hs | hreq⟩, o', ho', hbuffer⟩)
          · exact absurd hs (hshares o ho)
          · exact absurd hs (hshares o ho)
          · exact absurd hbuffer (hbuffers ⟨o, ho, hreq⟩ o' ho')
  · obtain ⟨hscope₁, hscope₂⟩ := hw.scope_of_known hparsed hknown
    refine ⟨fun _ => .inl hknown, fun _ hpointer => ?_⟩
    cases scope with
    | SameProcess => simp [Writer.scope, hscope₁]
    | DifferentProcess => exact absurd hpointer (hw.no_pointer (.inl hscope₂))
    | DifferentProcessForIndexedDB => exact absurd hpointer (hw.no_pointer (.inr hscope₂))
    | Unassigned => exact absurd rfl hscope
    | UnknownDestination => exact absurd rfl hknown

/-! ## A shared buffer for an unknown destination -/

/-- A writer that may clone shared memory, and one shared buffer. -/
def sharedContext : WriteContext ℕ where
  object := fun _ => .sharedArrayBuffer 0x1000 64
  nodup := fun _ => nodup_nil
  callbacks := ⟨none, none, none, none, fun _ => none⟩
  areSharedMemoryObjectsAllowed := true
  coopAndCoepEnabled := false
  canCopy := fun _ => true
  order := id
  order_perm := fun _ => .rfl

/-- The writer after the shared buffer has been cloned. -/
def sharedWriter : Writer ℕ where
  out := pairBytes .SCTAG_HEADER 2 ++ sharedArrayBufferBytes 0x1000 64
  scope_ := .SameProcess
  refsHeld := [0x1000]
  objs := []
  counts := []
  objectEntries := []
  otherEntries := []
  memory := []
  transferableObjects := []
  detached := []
  extracted := []

lemma write_shared : WriteOp.writeStructuredClone sharedContext (.object 0) .none 1 (Writer.init .UnknownDestination) =
    some (.ok (), sharedWriter) := by
  rfl

/-- The pointer of a shared buffer is behind a header that a reader in another process accepts. -/
theorem pointer_accepted :
    WriteOp.writeStructuredClone sharedContext (.object 0) .none 1 (Writer.init .UnknownDestination) =
        some (.ok (), sharedWriter) ∧ sharedWriter.HasPointer ∧ ¬ KeptInProcess sharedWriter.out ∧
      Runs (ReadOp.readHeader (ReadOp.plainContext [32])) (Reader.init sharedWriter.out .DifferentProcess)
        (fun _ _ => True) fun _ _ => False := by
  have hheader : firstPair sharedWriter.out =
      (StructuredDataType.SCTAG_HEADER.code, StructuredCloneScope.DifferentProcess.toNat) :=
    firstPair_header .DifferentProcess _
  have haccepts : (ReadOp.readHeader (ReadOp.plainContext [32]) (Reader.init sharedWriter.out .DifferentProcess)).any
      (fun outcome => outcome.1.toBool) = true := by
    decide +kernel
  obtain ⟨⟨result, r⟩, heq, hok⟩ := (Option.any_eq_true _ _).1 haccepts
  refine ⟨write_shared, .inl (cons_ne_nil _ _), fun hkept => ?_, ?_⟩
  · have hnat := (Prod.mk.inj (hheader.symm.trans hkept.1)).2
    simp [StructuredCloneScope.toNat] at hnat
  · cases result with
    | ok u => exact ⟨.ok u, r, heq, trivial⟩
    | error e => simp [Except.toBool] at hok

theorem pointers_keptInProcess_iff_shared : (sharedWriter.HasPointer → KeptInProcess sharedWriter.out) ↔
    PointersAnnounced sharedContext .UnknownDestination (WriteOp.TransferList.none).objects (.object 0) :=
  pointers_keptInProcess_iff sharedContext (.object 0) .none 1 (by decide) write_shared

end SpiderMonkey.StructuredClone
