import SpiderMonkey.StructuredClone.ReadRounds

/-!
# The saved frames that are read

`read` has an outcome whatever the data are, and its assertions hold.  What it returns has no cycle of
parents if and only if no saved frame that waits for its parent is referred back to from above itself: the
parent that is read is only checked to be a saved frame.
-/

namespace SpiderMonkey.StructuredClone

open LittleEndian Script Relation List

namespace Reader

open CloneObject

/-- The next word is a back reference to a saved frame from which parents lead to the one that waits for
its parent. -/
def LoopsBack (r : Reader) : Prop :=
  ∃ ref p, r.Waits ref ∧ r.IsBackReference p ∧ ReflTransGen (Parent r.heap) p ref

/-- The reader before the first value. -/
structure Opened (cx : ReadContext) (size : ℕ) (r : Reader) : Prop extends r.Valid cx where
  length : r.data.length = size
  noObjs : r.objs = []
  noCounts : r.counts = []
  noObjsLength : r.objsLength = 0
  noFrames : ∀ c ∈ r.heap, c.isSavedFrame = false

variable {cx : ReadContext} {r r' : Reader} {size : ℕ}

/-- A round closes a cycle if and only if it goes back to the waiting frame. -/
lemma acyclic_rounded (h : ReadOp.Rounded r r') :
    Acyclic (Parent r'.heap) ↔ Acyclic (Parent r.heap) ∧ ¬ r.LoopsBack := by
  obtain ⟨hunadopted, hback⟩ | ⟨ref, p, hwaits, hparents, hp, hunique⟩ := h.parents
  · have hloops : ¬ r.LoopsBack := fun ⟨ref, p, hwaits, hp, _⟩ => hback ref p hwaits hp
    constructor
    · exact fun h => ⟨h.mono fun a b hab => (hunadopted a b).2 hab, hloops⟩
    · exact fun h => h.1.mono fun a b hab => (hunadopted a b).1 hab
  · have hadd : Acyclic (Parent r'.heap) ↔ Acyclic (AddEdge (Parent r.heap) ref p) :=
      ⟨fun h => h.mono fun a b hab => (hparents a b).2 hab, fun h => h.mono fun a b hab => (hparents a b).1 hab⟩
    have hold : Acyclic (AddEdge (Parent r.heap) ref p) → Acyclic (Parent r.heap) :=
      fun h => h.mono fun a b hab => .inl hab
    rw [hadd]
    obtain ⟨⟨rest, hobjs⟩, slots, hc⟩ := hwaits
    have hlt : ref < r.heap.length := (List.getElem?_eq_some_iff.1 hc).1
    have hloops (h : r.LoopsBack) : ReflTransGen (Parent r.heap) p ref := by
      obtain ⟨ref', p', ⟨⟨rest', hobjs'⟩, _⟩, hback, hpath⟩ := h
      obtain rfl : ref = ref' := (List.cons.inj (hobjs.symm.trans hobjs')).1
      exact hunique p' hback ▸ hpath
    constructor
    · exact fun h => ⟨hold h, fun hl => Acyclic.not_addEdge (hloops hl) h⟩
    · rintro ⟨hacyclic, hno⟩
      refine hacyclic.addEdge fun hpath => ?_
      obtain hnew | hback := hp
      · -- a new object has no parent yet
        obtain rfl | ⟨q, ⟨slots', hc'⟩, -⟩ := ReflTransGen.cases_head hpath
        · exact absurd hlt (Nat.not_lt.2 hnew)
        · exact absurd (List.getElem?_eq_some_iff.1 hc').1 (Nat.not_lt.2 hnew)
      · exact hno ⟨ref, p, ⟨⟨rest, hobjs⟩, slots, hc⟩, hback, hpath⟩

/-! ## Where parents lead -/

/-- Following parents ends at null. -/
inductive EndsAtNull (heap : List (CloneObject ℕ)) : ℕ → Prop
  | null {ref : ℕ} {slots : FrameSlots} (h : heap[ref]? = some (.savedFrame slots .null)) : EndsAtNull heap ref
  | frame {ref p : ℕ} (h : Parent heap ref p) (ends : EndsAtNull heap p) : EndsAtNull heap ref

variable (heap : List (CloneObject ℕ))

/-- Every saved frame has got its parent. -/
def Adopted : Prop :=
  ∀ (ref : ℕ) (slots : FrameSlots), heap[ref]? ≠ some (.savedFrame slots .uninitialized)

/-- Following parents ends at null from every saved frame. -/
def AllEndAtNull : Prop := ∀ ref, frameAt heap ref = true → EndsAtNull heap ref

lemma EndsAtNull.acc {heap : List (CloneObject ℕ)} {ref : ℕ} (h : EndsAtNull heap ref) :
    Acc (fun b a => Parent heap a b) ref := by
  induction h with
  | null h =>
    refine ⟨_, fun b ⟨slots, hb⟩ => ?_⟩
    have := (savedFrame.inj (Option.some.inj (h.symm.trans hb))).2
    simp at this
  | @frame ref p h _ ih =>
    obtain ⟨slots, hp⟩ := h
    refine ⟨_, fun b ⟨slots', hb⟩ => ?_⟩
    have := (savedFrame.inj (Option.some.inj (hp.symm.trans hb))).2
    obtain rfl : p = b := ParentSlot.frame.inj this
    exact ih

lemma endsAtNull_of_acc {heap : List (CloneObject ℕ)} (hadopted : Adopted heap)
    (hparents : ∀ a b, Parent heap a b → frameAt heap b = true) {ref : ℕ}
    (h : Acc (fun b a => Parent heap a b) ref) (hframe : frameAt heap ref = true) : EndsAtNull heap ref := by
  induction h with
  | intro ref _ ih =>
    obtain ⟨slots, parent, hc⟩ := frameAt_iff.1 hframe
    cases parent with
    | uninitialized => exact absurd hc (hadopted ref slots)
    | null => exact .null hc
    | frame p =>
      have hp : Parent heap ref p := ⟨slots, hc⟩
      exact .frame hp (ih p hp (hparents ref p hp))

/-- Parents lead to null unless they go round in a circle. -/
lemma allEndAtNull_iff {heap : List (CloneObject ℕ)} (hadopted : Adopted heap)
    (hparents : ∀ a b, Parent heap a b → frameAt heap b = true) :
    AllEndAtNull heap ↔ Acyclic (Parent heap) := by
  constructor
  · intro h a hcycle
    obtain ⟨b, ⟨slots, hc⟩, -⟩ := TransGen.head'_iff.1 hcycle
    exact (h a (frameAt_iff.2 ⟨slots, _, hc⟩)).acc.not_transGen hcycle
  · intro h ref hframe
    refine endsAtNull_of_acc hadopted hparents (h.acc (n := heap.length) (fun a b hab => ?_) ref) hframe
    obtain ⟨slots, parent, hc⟩ := frameAt_iff.1 (hparents a b hab)
    exact (List.getElem?_eq_some_iff.1 hc).1

def parent? (ref : ℕ) : Option ℕ :=
  match heap[ref]? with
  | some (.savedFrame _ (.frame p)) => some p
  | _ => none

lemma parent_iff {heap : List (CloneObject ℕ)} {a b : ℕ} : Parent heap a b ↔ parent? heap a = some b := by
  unfold Parent parent?
  cases hc : heap[a]? with
  | none => simp
  | some c =>
    cases c with
    | savedFrame slots parent => cases parent <;> simp
    | _ => simp

instance (heap : List (CloneObject ℕ)) (a b : ℕ) : Decidable (Parent heap a b) :=
  decidable_of_iff (parent? heap a = some b) parent_iff.symm

lemma not_allEndAtNull {heap : List (CloneObject ℕ)} {ref : ℕ} (h : Parent heap ref ref) : ¬ AllEndAtNull heap := by
  intro hall
  obtain ⟨slots, hc⟩ := h
  have hends := hall ref (frameAt_iff.2 ⟨slots, _, hc⟩)
  exact hends.acc.not_transGen (.single ⟨slots, hc⟩)

/-! ## Before the first value -/

namespace Opened

lemma inStep (h : r.Opened cx size) : r.InStep cx where
  toValid := h.toValid
  nodup := h.noObjs ▸ nodup_nil
  entries ref href := by simp [h.noObjs] at href
  objsLength := by rw [h.noObjsLength, h.noObjs]; rfl
  counts := by rw [h.noObjs, h.noCounts]; exact .nil
  initialised ref slots hc := by
    have := h.noFrames _ (mem_of_getElem? hc)
    simp [isSavedFrame] at this
  parents a b := by
    rintro ⟨slots, hc⟩
    have := h.noFrames _ (mem_of_getElem? hc)
    simp [isSavedFrame] at this

lemma acyclic (h : r.Opened cx size) : Acyclic (Parent r.heap) := by
  intro a hcycle
  obtain ⟨b, ⟨slots, hc⟩, -⟩ := TransGen.head'_iff.1 hcycle
  have := h.noFrames _ (mem_of_getElem? hc)
  simp [isSavedFrame] at this

lemma init {data : List LittleEndian.Byte} (h : cx.segments.sum = data.length) (scope : StructuredCloneScope) :
    (Reader.init data scope).Opened cx data.length where
  segments := h
  point_le := Nat.zero_le _
  objs ref href := by simp [Reader.init] at href
  allObjs ref href := by simp [Reader.init] at href
  heap c hc := by simp [Reader.init] at hc
  length := rfl
  noObjs := rfl
  noCounts := rfl
  noObjsLength := rfl
  noFrames c hc := by simp [Reader.init] at hc

lemma seekTo (h : r.Opened cx size) {point : ℕ} (hle : point ≤ r.data.length) : (r.seekTo point).Opened cx size :=
  ⟨⟨⟨h.segments, hle⟩, h.objs, h.allObjs, h.heap⟩, h.length, h.noObjs, h.noCounts, h.noObjsLength, h.noFrames⟩

lemma consumed {n : ℕ} (h : r.Opened cx size) (hc : Consumed n r r') : r'.Opened cx size := by
  obtain ⟨point, rfl, -, hle⟩ := hc
  exact h.seekTo hle

lemma grown {n : ℕ} (h : r.Opened cx size) (hg : Grown n r r') (hvalid : r'.Valid cx) : r'.Opened cx size where
  toValid := hvalid
  length := by rw [hg.data, h.length]
  noObjs := by rw [hg.objs, h.noObjs]
  noCounts := by rw [hg.counts, h.noCounts]
  noObjsLength := by rw [hg.objsLength, h.noObjsLength]
  noFrames c hc := by
    obtain ⟨i, hi⟩ := mem_iff_getElem?.1 hc
    obtain hlt | hle := Nat.lt_or_ge i r.heap.length
    · rw [hg.toKept.getElem? hlt] at hi
      exact h.noFrames c (mem_of_getElem? hi)
    · exact hg.frames i c hle hi

lemma append (h : r.Opened cx size) {ref : ℕ} (href : ref < r.heap.length) : (r.append (some ref)).Opened cx size :=
  h.grown (.append r (some ref)) (h.toValid.append_some href)

end Opened

end Reader

namespace ReadOp

open Reader

variable {cx : ReadContext} {r : Reader} {size depth : ℕ}

/-! ## The header and the transfer map -/

lemma runs_readHeader (hr : r.Opened cx size) :
    Runs (readHeader cx) r (fun _ r' => r'.Opened cx size ∧ r'.data = r.data) fun _ _ => True := by
  have hscope : Runs (readStoredScope cx) r (fun _ r' => r'.Opened cx size ∧ r'.data = r.data) fun _ _ => True := by
    refine .bind ((runs_getPair hr.toInBounds).imp ?_ fun _ _ h => h)
    rintro ⟨tag, data⟩ _ ⟨rfl, -⟩
    refine .ite (fun _ => .bind ((runs_readPair hr.toInBounds).imp ?_ fun _ _ h => h)) fun _ => .pure ⟨hr, rfl⟩
    rintro _ r' ⟨hconsumed, -⟩
    have hr' := hr.consumed hconsumed
    obtain ⟨point, rfl, -⟩ := hconsumed
    exact .pure ⟨hr', rfl⟩
  refine .bind (hscope.imp (fun stored r₁ ⟨hr₁, hdata⟩ => ?_) fun _ _ h => h)
  refine .bind (.get (.ite (fun _ => .throw trivial) fun _ => .ite (fun _ => .modify ⟨?_, hdata⟩) fun _ => ?_))
  · exact ⟨⟨⟨hr₁.segments, hr₁.point_le⟩, hr₁.objs, hr₁.allObjs, hr₁.heap⟩, hr₁.length, hr₁.noObjs, hr₁.noCounts,
      hr₁.noObjsLength, hr₁.noFrames⟩
  · exact .ite (fun _ => .throw trivial) fun _ => .pure ⟨hr₁, hdata⟩

lemma runs_readPair_room (hr : r.InBounds cx) : Runs (readPair cx) r
    (fun _ r' => Consumed 8 r r' ∧ 8 ≤ remainingInSegment cx.segments r.point) fun _ _ => True := by
  by_cases hroom : 8 ≤ remainingInSegment cx.segments r.point
  · exact (runs_readPair hr).imp (fun _ _ h => ⟨h.1, hroom⟩) fun _ _ h => h
  · exact .bind (.bind (.bind (.get (.ite (fun h => absurd h hroom) fun _ => .throw trivial))))

lemma runs_writeWord (hr : r.Opened cx size) {pos : ℕ} (hroom : 8 ≤ remainingInSegment cx.segments pos) (u : ℕ) :
    Runs (writeWord cx pos u) r (fun _ r' => r'.Opened cx size ∧ r'.heap = r.heap) fun _ _ => True := by
  have hle : pos + 8 ≤ r.data.length := by
    have := remainingInSegment_add_le cx.segments pos (by omega)
    rw [← hr.segments]
    omega
  have hlength : (r.data.take pos ++ encode 8 u ++ r.data.drop (pos + 8)).length = r.data.length := by
    rw [List.length_append, List.length_append, length_take, length_drop, length_encode]
    omega
  refine .bind (.assert hroom (.modify ?_))
  exact ⟨⟨⟨⟨hr.segments.trans hlength.symm, hr.point_le.trans hlength.ge⟩, hr.objs, hr.allObjs, hr.heap⟩,
    hlength.trans hr.length, hr.noObjs, hr.noCounts, hr.noObjsLength, hr.noFrames⟩, rfl⟩

/-- The object of an entry of the transfer map is there. -/
def Received (cx : ReadContext) (size : ℕ) (r : Reader) (ref : ℕ) (r' : Reader) : Prop :=
  r'.Opened cx size ∧ r.point ≤ r'.point ∧ ref < r'.heap.length

section

variable (hr : r.Opened cx size)

include hr

lemma runs_newObject_opened {c : CloneObject ℕ} (hc : c.isSavedFrame = false)
    (hrefs : c.refs = []) : Runs (newObject c) r (Received cx size r) fun _ _ => True := by
  refine (runs_newObject hr.toValid hc (by simp [hrefs])).imp ?_ fun _ _ h => h
  rintro ref r' ⟨hg, hvalid, -, hlt⟩
  exact ⟨hr.grown hg hvalid, by have := hg.point; omega, hlt⟩

lemma runs_newBufferWithContents (kind : BufferKind) (nbytes content : ℕ) :
    Runs (newBufferWithContents cx kind nbytes content) r (Received cx size r) fun _ _ => True :=
  .ite (fun _ => runs_newObject_opened hr rfl rfl) fun _ =>
    .ite (fun _ => .throw trivial) fun _ => runs_newObject_opened hr rfl rfl

lemma runs_readStoredArrayBuffer (pos extraData : ℕ) :
    Runs (readStoredArrayBuffer cx pos extraData) r (Received cx size r) fun _ _ => True := by
  refine .bind (.get (.bind (.modify (.bind (.modify (.ite (fun _ => .throw trivial) fun hle => ?_))))))
  have hseek : ((r.seekTo pos).advance extraData).Opened cx size :=
    hr.seekTo (Nat.min_le_right (pos + extraData) r.data.length)
  refine .bind ((runs_readPair hseek.toInBounds).imp ?_ fun _ _ h => h)
  rintro ⟨tag, data⟩ r₁ ⟨hconsumed, -⟩
  have hr₁ := hseek.consumed hconsumed
  have hdata : r₁.data = r.data := by
    obtain ⟨point, rfl, -⟩ := hconsumed
    rfl
  refine .ite (fun _ => .throw trivial) fun _ => .bind ((runs_readArrayBuffer hr₁.toValid data).imp ?_ fun _ _ h => h)
  rintro _ r₂ ⟨hg, hvalid, ref, rfl, -, hlt⟩
  have hr₂ := hr₁.grown hg hvalid
  refine .bind (.modify (.pure ⟨hr₂.seekTo ?_, le_rfl, hlt⟩))
  rw [hg.data, hdata]
  exact hr.point_le

lemma runs_readTransferred (pos tag data content extraData : ℕ) :
    Runs (readTransferred cx pos tag data content extraData) r (Received cx size r) fun _ _ => True := by
  refine .bind (.get ?_)
  have hbuffer (kind : BufferKind) := runs_newBufferWithContents hr kind extraData content
  cases StructuredDataType.ofCode? tag with
  | none => exact .throw trivial
  | some type =>
    cases type with
    | SCTAG_TRANSFER_MAP_ARRAY_BUFFER =>
      refine .ite (fun _ => .throw trivial) fun _ => ?_
      exact .ite (fun _ => hbuffer .MALLOCED) fun _ => .ite (fun _ => hbuffer .MAPPED) fun _ => .throw trivial
    | SCTAG_TRANSFER_MAP_STORED_ARRAY_BUFFER => exact runs_readStoredArrayBuffer hr pos extraData
    | _ => exact .throw trivial

lemma runs_readTransferMapEntries (numTransferables : ℕ) :
    Runs (readTransferMapEntries cx numTransferables) r (fun _ r' => r'.Opened cx size) fun _ _ => True := by
  induction numTransferables generalizing r with
  | zero => exact .pure hr
  | succ numTransferables ih =>
    refine .bind (.get (.bind ((runs_readPair_room hr.toInBounds).imp ?_ fun _ _ h => h)))
    rintro ⟨tag, data⟩ r₁ ⟨hconsumed, hroom⟩
    have hr₁ := hr.consumed hconsumed
    refine .ite (fun _ => .throw trivial) fun _ => .bind ((runs_read hr₁.toInBounds).imp ?_ fun _ _ h => h)
    rintro content r₂ ⟨hconsumed₂, -⟩
    have hr₂ := hr₁.consumed hconsumed₂
    refine .bind ((runs_read hr₂.toInBounds).imp ?_ fun _ _ h => h)
    rintro extraData r₃ ⟨hconsumed₃, -⟩
    have hr₃ := hr₂.consumed hconsumed₃
    refine .bind ((runs_readTransferred hr₃ r.point tag data content extraData).imp ?_ fun _ _ h => h)
    rintro obj r₄ ⟨hr₄, -, hlt⟩
    refine .bind ((runs_writeWord hr₄ hroom _).imp ?_ fun _ _ h => h)
    rintro _ r₅ ⟨hr₅, hheap⟩
    exact .bind (.modify (ih (hr₅.append (hheap ▸ hlt))))

lemma runs_readTransferMap : Runs (readTransferMap cx) r (fun _ r' => r'.Opened cx size) fun _ _ => True := by
  refine .bind (.get (.bind ((runs_getPair hr.toInBounds).imp ?_ fun _ _ h => h)))
  rintro ⟨tag, data⟩ _ ⟨rfl, -⟩
  refine .ite (fun _ => .pure hr) fun _ => .bind ((runs_readPair_room hr.toInBounds).imp ?_ fun _ _ h => h)
  rintro _ r₁ ⟨hconsumed, hroom⟩
  have hr₁ := hr.consumed hconsumed
  refine .bind ((runs_read hr₁.toInBounds).imp ?_ fun _ _ h => h)
  rintro numTransferables r₂ ⟨hconsumed₂, -⟩
  refine .bind ((runs_readTransferMapEntries (hr₁.consumed hconsumed₂) numTransferables).imp ?_ fun _ _ h => h)
  rintro _ r₃ hr₃
  exact (runs_writeWord hr₃ hroom _).imp (fun _ _ h => h.1) fun _ _ h => h

/-! ## `read` -/

end

/-- The first value has been read. -/
structure FirstRead (cx : ReadContext) (size : ℕ) (v : CloneValue ℕ) (r : Reader) : Prop extends r.InStep cx where
  length : r.data.length = size
  value : ∀ ref, v = .object ref → ref < r.heap.length
  acyclic : Acyclic (Parent r.heap)

lemma runs_readFirst (hr : r.Opened cx size) (hdepth : size < 8 * depth) :
    Runs (readFirst cx depth) r (FirstRead cx size) fun _ _ => True := by
  refine .bind ((runs_readHeader hr).imp (fun _ r₁ ⟨hr₁, _⟩ => ?_) fun _ _ h => h)
  refine .bind ((runs_readTransferMap hr₁).imp (fun _ r₂ hr₂ => ?_) fun _ _ h => h)
  refine runs_next hr₂.inStep (by rw [hr₂.length]; omega) fun v r₃ hnext hr₃ => .pure ?_
  refine ⟨hr₃, by rw [hnext.data, hr₂.length], hnext.value, ?_⟩
  exact hr₂.acyclic.mono fun a b hab => (hnext.unadopted a b).1 hab

/-- No saved frame is above itself when its parent is read. -/
def NoFrameLoopsBack (cx : ReadContext) (depth rounds : ℕ) (r : Reader) : Prop :=
  ∀ v r', readFirst cx depth r = some (.ok v, r') → Throughout (fun r => ¬ r.LoopsBack) (readRound cx depth) rounds r'

/-- What has been read is there, and every saved frame has got its parent. -/
structure Complete (cx : ReadContext) (v : CloneValue ℕ) (r : Reader) : Prop extends r.InStep cx where
  finished : r.objs = []
  value : ∀ ref, v = .object ref → ref < r.heap.length
  adopted : Adopted r.heap

/-- Reading has an outcome for all data, with all assertions, and the parents of the saved frames that have
been read lead to null if and only if no frame was above itself. -/
theorem readClone_ends_iff (cx : ReadContext) (depth rounds : ℕ) (data : List LittleEndian.Byte)
    (scope : StructuredCloneScope) (hsegments : cx.segments.sum = data.length) (hdepth : data.length < 8 * depth)
    (hrounds : data.length < 8 * rounds) :
    Runs (readClone cx depth rounds) (init data scope) (fun v r => Complete cx v r ∧
      (AllEndAtNull r.heap ↔ NoFrameLoopsBack cx depth rounds (init data scope))) fun _ _ => True := by
  refine .bind ((runs_readFirst (.init hsegments scope) hdepth).with_eq.imp ?_ fun _ _ _ => trivial)
  rintro v r ⟨heq, hr⟩
  have hround (r₁ : Reader) (h : r₁.InStep cx ∧ r₁.data.length = data.length ∧
      ∀ ref, v = .object ref → ref < r₁.heap.length) : Runs (readRound cx depth) r₁ (fun again r₂ =>
        (again = true → (r₂.InStep cx ∧ r₂.data.length = data.length ∧ ∀ ref, v = .object ref → ref < r₂.heap.length) ∧
          (data.length - r₂.point) / 8 < (data.length - r₁.point) / 8) ∧
        (again = false → Complete cx v r₂) ∧
        (Acyclic (Parent r₂.heap) ↔ Acyclic (Parent r₁.heap) ∧ ¬ r₁.LoopsBack)) fun _ _ => True := by
    obtain ⟨hr₁, hlength, hv⟩ := h
    refine (runs_readRound hr₁ (by omega)).imp ?_ fun _ _ h => h
    rintro again r₂ (⟨rfl, hr₂, hrounded⟩ | ⟨rfl, hobjs, rfl⟩)
    · have hdata : r₂.data.length = data.length := by rw [hrounded.data, hlength]
      refine ⟨fun _ => ⟨⟨hr₂, hdata, fun ref href => (hv ref href).trans_le hrounded.heap⟩, ?_⟩, by simp,
        acyclic_rounded hrounded⟩
      have := hrounded.point
      have := hr₂.point_le
      omega
    · refine ⟨by simp, fun _ => ⟨hr₁, hobjs, hv, fun ref slots hc => ?_⟩, ?_⟩
      · have := hr₁.initialised ref slots hc
        simp [hobjs] at this
      · refine (and_iff_left ?_).symm
        rintro ⟨ref, p, ⟨⟨rest, hobjs'⟩, -⟩, -⟩
        simp [hobjs] at hobjs'
  have hfirst : NoFrameLoopsBack cx depth rounds (init data scope) ↔
      Throughout (fun r => ¬ r.LoopsBack) (readRound cx depth) rounds r := by
    constructor
    · exact fun h => h v r heq
    · intro h v' r' heq'
      obtain rfl : r = r' := (Prod.mk.inj (Option.some.inj (heq.symm.trans heq'))).2
      exact h
  refine .bind ((Runs.iterate_throughout hround ⟨hr.toInStep, hr.length, hr.value⟩ (by omega)).imp ?_
    fun _ _ h => h)
  rintro _ r' ⟨hcomplete, hiff⟩
  refine .pure ⟨hcomplete, ?_⟩
  rw [allEndAtNull_iff hcomplete.adopted hcomplete.parents, hiff, hfirst]
  exact and_iff_right hr.acyclic

/-! ## A frame that is its own parent -/

/-- A reader without shared memory and without hooks. -/
def plainContext (segments : List ℕ) : ReadContext where
  segments := segments
  areIntraClusterClonableSharedObjectsAllowed := false
  areSharedMemoryObjectsAllowed := false
  sharedMemoryAndAtomicsEnabled := true
  coopAndCoepEnabled := false
  checkPatternSyntax := fun _ _ => true
  readPrincipals := none
  contents := fun _ => []
  canAdopt := fun _ => true

open StructuredDataType in
/-- A saved frame whose parent is a back reference to itself. -/
def ownParentData : List LittleEndian.Byte :=
  [(SCTAG_HEADER, 2), (SCTAG_SAVED_FRAME_OBJECT, SCTAG_NULL_JSPRINCIPALS.code), (SCTAG_BOOLEAN, 0),
    (SCTAG_STRING, 2 ^ 31), (SCTAG_INT32, 1), (SCTAG_INT32, 1), (SCTAG_NULL, 0), (SCTAG_NULL, 0),
    (SCTAG_BACK_REFERENCE_OBJECT, 0), (SCTAG_END_OF_KEYS, 0)].flatMap
    fun pair => encode 8 (pairToUInt64 pair.1.code pair.2)

set_option maxRecDepth 10000 in
/-- Ten words that are read without an error, as a frame from which no way leads to null. -/
theorem readClone_ownParent : Runs (readClone (plainContext [80]) 11 11) (init ownParentData .DifferentProcess)
      (fun _ r => ¬ AllEndAtNull r.heap) fun _ _ => False := by
  have heval : (readClone (plainContext [80]) 11 11 (init ownParentData .DifferentProcess)).any
      (fun outcome => outcome.1.toBool && decide (Parent outcome.2.heap 0 0)) = true := by
    decide +kernel
  obtain ⟨⟨result, r⟩, heq, houtcome⟩ := (Option.any_eq_true _ _).1 heval
  obtain ⟨hok, hparent⟩ := Bool.and_eq_true_iff.1 houtcome
  cases result with
  | ok v => exact ⟨.ok v, r, heq, not_allEndAtNull (of_decide_eq_true hparent)⟩
  | error e => simp [Except.toBool] at hok

/-- The same data in the general result. -/
theorem readClone_ends_iff_ownParent :
    Runs (readClone (plainContext [80]) 11 11) (init ownParentData .DifferentProcess)
      (fun v r => Complete (plainContext [80]) v r ∧ (AllEndAtNull r.heap ↔
        NoFrameLoopsBack (plainContext [80]) 11 11 (init ownParentData .DifferentProcess)))
      fun _ _ => True :=
  readClone_ends_iff (plainContext [80]) 11 11 ownParentData .DifferentProcess (by decide +kernel)
    (by decide +kernel) (by decide +kernel)

end ReadOp

end SpiderMonkey.StructuredClone
