import SpiderMonkey.StructuredClone.Extension
import SpiderMonkey.StructuredClone.Input

/-!
# Reading a value

What `startRead` does, whatever the data are: it has an outcome after as many nested calls as there are
words, and if it succeeds, it has pushed at most the object that it returns, which is new then.
-/

namespace SpiderMonkey.StructuredClone

open LittleEndian Script List

/-! ## References -/

def CloneObject.isSavedFrame {O : Type} : CloneObject O → Bool
  | .savedFrame _ _ => true
  | _ => false

/-- The objects in an object. -/
def CloneObject.refs {O : Type} : CloneObject O → List O
  | .plain properties | .array _ properties => properties.filterMap fun p => p.2.object?
  | .typedArray _ _ _ buffer | .dataView _ _ buffer | .sharedWasmMemory buffer => [buffer]
  | .map entries => entries.filterMap (fun e => e.1.object?) ++ entries.filterMap fun e => e.2.object?
  | .set keys => keys.filterMap CloneValue.object?
  | .savedFrame _ parent => parent.toValue.object?.toList
  | _ => []

namespace Reader

/-- Every object that is referred to is there. -/
structure Valid (cx : ReadContext) (r : Reader) : Prop extends r.InBounds cx where
  objs : ∀ ref ∈ r.objs, ref < r.heap.length
  allObjs : ∀ ref, some ref ∈ r.allObjs → ref < r.heap.length
  heap : ∀ c ∈ r.heap, ∀ ref ∈ c.refs, ref < r.heap.length

/-- What no part of reading a value changes. -/
structure Kept (r r' : Reader) : Prop where
  data : r'.data = r.data
  allowedScope : r'.allowedScope = r.allowedScope
  counts : r'.counts = r.counts
  objsLength : r'.objsLength = r.objsLength
  objCountsIndex : r'.objCountsIndex = r.objCountsIndex
  heap : r.heap <+: r'.heap

/-- Some of the data have been read and there may be new objects, but none on the stack. -/
structure Grown (size : ℕ) (r r' : Reader) : Prop extends Kept r r' where
  point : r.point + size ≤ r'.point
  objs : r'.objs = r.objs
  frames : ∀ i c, r.heap.length ≤ i → r'.heap[i]? = some c → c.isSavedFrame = false

/-- The next word is a back reference to an object. -/
def IsBackReference (r : Reader) (ref : ℕ) : Prop :=
  (ReadOp.splitPair (ReadOp.wordAt r)).1 = StructuredDataType.SCTAG_BACK_REFERENCE_OBJECT.code ∧
    r.allObjs[(ReadOp.splitPair (ReadOp.wordAt r)).2]? = some (some ref)

/-- A value has been read. -/
structure Started (r : Reader) (v : CloneValue ℕ) (r' : Reader) : Prop extends Kept r r' where
  point : r.point + 8 ≤ r'.point
  value : ∀ ref, v = .object ref → ref < r'.heap.length
  old : ∀ ref, v = .object ref → ref < r.heap.length → r.IsBackReference ref
  pushed : r'.objs = r.objs ∨ ∃ ref c, v = .object ref ∧ r'.objs = ref :: r.objs ∧ r.heap.length ≤ ref ∧
    r'.heap[ref]? = some c ∧ c.hasEntries = true
  frames : ∀ i c, r.heap.length ≤ i → r'.heap[i]? = some c → c.isSavedFrame = true →
    r'.objs = i :: r.objs ∧ ∃ slots, c = .savedFrame slots .uninitialized

variable {cx : ReadContext} {r r' r'' : Reader} {size size' : ℕ} {v : CloneValue ℕ}

lemma Kept.trans (h : Kept r r') (h' : Kept r' r'') : Kept r r'' where
  data := h'.data.trans h.data
  allowedScope := h'.allowedScope.trans h.allowedScope
  counts := h'.counts.trans h.counts
  objsLength := h'.objsLength.trans h.objsLength
  objCountsIndex := h'.objCountsIndex.trans h.objCountsIndex
  heap := h.heap.trans h'.heap

lemma Kept.getElem? (h : Kept r r') {i : ℕ} (hi : i < r.heap.length) : r'.heap[i]? = r.heap[i]? := by
  obtain ⟨added, heq⟩ := h.heap
  rw [← heq, getElem?_append_left hi]

namespace Grown

lemma trans (h : Grown size r r') (h' : Grown size' r' r'') : Grown (size + size') r r'' where
  toKept := h.toKept.trans h'.toKept
  point := by have := h.point; have := h'.point; omega
  objs := h'.objs.trans h.objs
  frames i c hi hc := by
    obtain hlt | hle := Nat.lt_or_ge i r'.heap.length
    · exact h.frames i c hi (by rwa [h'.toKept.getElem? hlt] at hc)
    · exact h'.frames i c hle hc

lemma weaken (h : Grown size r r') (hle : size' ≤ size) : Grown size' r r' :=
  { h with point := by have := h.point; omega }

lemma of_consumed (h : Consumed size r r') : Grown size r r' := by
  obtain ⟨point, rfl, hle, -⟩ := h
  exact ⟨⟨rfl, rfl, rfl, rfl, rfl, prefix_rfl⟩, hle, rfl,
    fun _ _ hi hc => absurd (List.getElem?_eq_some_iff.1 hc).1 (Nat.not_lt.2 hi)⟩

lemma append (r : Reader) (entry : Option ℕ) : Grown 0 r (r.append entry) :=
  ⟨⟨rfl, rfl, rfl, rfl, rfl, prefix_rfl⟩, le_rfl, rfl,
    fun _ _ hi hc => absurd (List.getElem?_eq_some_iff.1 hc).1 (Nat.not_lt.2 hi)⟩

lemma fill (r : Reader) (index ref : ℕ) : Grown 0 r (r.fill index ref) :=
  ⟨⟨rfl, rfl, rfl, rfl, rfl, prefix_rfl⟩, le_rfl, rfl,
    fun _ _ hi hc => absurd (List.getElem?_eq_some_iff.1 hc).1 (Nat.not_lt.2 hi)⟩

lemma alloc (r : Reader) {c : CloneObject ℕ} (hc : c.isSavedFrame = false) : Grown 0 r (r.alloc c) :=
  ⟨⟨rfl, rfl, rfl, rfl, rfl, prefix_append _ _⟩, le_rfl, rfl, fun i c' hi hc' => by
    have heq : (r.heap ++ [c])[i]? = some c' := hc'
    rw [getElem?_append_right hi] at heq
    have hmem := mem_of_getElem? heq
    rwa [mem_singleton.1 hmem]⟩

lemma started (h : Grown size r r') (hsize : 8 ≤ size) (hv : ∀ ref, v = .object ref → ref < r'.heap.length)
    (hold : ∀ ref, v = .object ref → ref < r.heap.length → r.IsBackReference ref) : Started r v r' where
  toKept := h.toKept
  point := by have := h.point; omega
  value := hv
  old := hold
  pushed := .inl h.objs
  frames i c hi hc hframe := absurd ((h.frames i c hi hc).symm.trans hframe) (by decide)

lemma started_new {ref : ℕ} (h : Grown 8 r r') (hle : r.heap.length ≤ ref) (hlt : ref < r'.heap.length) :
    Started r (.object ref) r' := by
  refine h.started le_rfl (fun ref' heq => ?_) fun ref' heq hlt' => ?_
  · obtain rfl : ref = ref' := by simpa using heq
    exact hlt
  · obtain rfl : ref = ref' := by simpa using heq
    omega

lemma started_primitive (h : Grown 8 r r') (hv : v.object? = none) : Started r v r' := by
  have hne (ref : ℕ) (heq : v = .object ref) : False := by simp [heq, CloneValue.object?] at hv
  exact h.started le_rfl (fun ref heq => (hne ref heq).elim) fun ref heq _ => (hne ref heq).elim

end Grown

namespace Started

lemma grown (h : Started r v r') (hv : ∀ ref c, v = .object ref → r'.heap[ref]? = some c → c.hasEntries = false) :
    Grown 8 r r' := by
  have hobjs : r'.objs = r.objs := by
    obtain h | ⟨ref, c, hvalue, -, -, hc, hentries⟩ := h.pushed
    · exact h
    · cases (hv ref c hvalue hc).symm.trans hentries
  refine ⟨h.toKept, h.point, hobjs, fun i c hi hc => Bool.eq_false_of_not_eq_true fun hframe => ?_⟩
  have hpush := (h.frames i c hi hc hframe).1
  rw [hobjs] at hpush
  simpa using congrArg List.length hpush

end Started

namespace Valid

lemma consumed (h : r.Valid cx) (hc : Consumed size r r') : r'.Valid cx := by
  obtain ⟨point, rfl, -, hlen⟩ := hc
  exact ⟨⟨h.segments, hlen⟩, h.objs, h.allObjs, h.heap⟩

lemma append_none (h : r.Valid cx) : (r.append none).Valid cx :=
  ⟨⟨h.segments, h.point_le⟩, h.objs, fun ref href => h.allObjs ref (by simpa [Reader.append] using href), h.heap⟩

lemma append_some (h : r.Valid cx) {ref : ℕ} (href : ref < r.heap.length) : (r.append (some ref)).Valid cx := by
  refine ⟨⟨h.segments, h.point_le⟩, h.objs, fun ref' href' => ?_, h.heap⟩
  obtain hmem | hmem := mem_append.1 href'
  · exact h.allObjs ref' hmem
  · obtain rfl : ref' = ref := by simpa using hmem
    exact href

lemma fill (h : r.Valid cx) {ref : ℕ} (href : ref < r.heap.length) (index : ℕ) : (r.fill index ref).Valid cx := by
  refine ⟨⟨h.segments, h.point_le⟩, h.objs, fun ref' href' => ?_, h.heap⟩
  obtain hmem | heq := mem_or_eq_of_mem_set href'
  · exact h.allObjs ref' hmem
  · obtain rfl : ref' = ref := Option.some.inj heq
    exact href

lemma alloc (h : r.Valid cx) {c : CloneObject ℕ} (hc : ∀ ref ∈ c.refs, ref < r.heap.length) : (r.alloc c).Valid cx := by
  have hlength : (r.alloc c).heap.length = r.heap.length + 1 := List.length_append
  refine ⟨⟨h.segments, h.point_le⟩, fun ref href => ?_, fun ref href => ?_, fun c' hc' ref href => ?_⟩
  · have := h.objs ref href
    omega
  · have := h.allObjs ref href
    omega
  · obtain hmem | hmem := mem_append.1 hc'
    · have := h.heap c' hmem ref href
      omega
    · obtain rfl : c' = c := by simpa using hmem
      have := hc ref href
      omega

lemma pushObj (h : r.Valid cx) {ref : ℕ} (href : ref < r.heap.length) : (r.pushObj ref).Valid cx :=
  ⟨⟨h.segments, h.point_le⟩, fun ref' href' => (mem_cons.1 href').elim (fun h => h ▸ href) (h.objs ref'), h.allObjs,
    h.heap⟩

end Valid

end Reader

namespace ReadOp

open Reader CloneObject

variable {cx : ReadContext} {r r₁ : Reader} {size : ℕ}

/-! ## New objects -/

/-- A new object that is not on the stack. -/
def Made (cx : ReadContext) (r : Reader) (v : CloneValue ℕ) (r' : Reader) : Prop :=
  Grown 0 r r' ∧ r'.Valid cx ∧ ∃ ref, v = .object ref ∧ r.heap.length ≤ ref ∧ ref < r'.heap.length

lemma runs_newObject (hr : r.Valid cx) {c : CloneObject ℕ} (hc : c.isSavedFrame = false)
    (hrefs : ∀ ref ∈ c.refs, ref < r.heap.length) : Runs (newObject c) r
      (fun ref r' => Grown 0 r r' ∧ r'.Valid cx ∧ r.heap.length ≤ ref ∧ ref < r'.heap.length)
        fun _ _ => True := by
  refine .bind (.get (.bind (.modify (.pure ⟨.alloc r hc, hr.alloc hrefs, le_rfl, ?_⟩))))
  simp [Reader.alloc]

lemma runs_newValue (hr : r.Valid cx) {c : CloneObject ℕ} (hc : c.isSavedFrame = false)
    (hrefs : ∀ ref ∈ c.refs, ref < r.heap.length) :
    Runs (newValue c) r (Made cx r) fun _ _ => True := by
  refine .bind ((runs_newObject hr hc hrefs).imp ?_ fun _ _ h => h)
  rintro ref r' ⟨hgrown, hvalid, href⟩
  exact .pure ⟨hgrown, hvalid, ref, rfl, href⟩

lemma Made.after {r' : Reader} {v : CloneValue ℕ} (h : Made cx r₁ v r') (hg : Grown 0 r r₁) : Made cx r v r' := by
  obtain ⟨hgrown, hvalid, ref, hv, hle, hlt⟩ := h
  exact ⟨hg.trans hgrown, hvalid, ref, hv, hg.heap.length_le.trans hle, hlt⟩

lemma runs_appendValue {m : ReadOp (CloneValue ℕ)} (hg : Grown 8 r r₁) (hm : Runs m r₁ (Made cx r₁) fun _ _ => True) :
    Runs (m >>= appendValue) r₁ (fun v r' => Started r v r' ∧ r'.Valid cx) fun _ _ => True := by
  refine .bind (hm.imp ?_ fun _ _ h => h)
  rintro v r₂ ⟨hgrown, hvalid, ref, rfl, hle, href⟩
  refine .bind (.modify (.pure ⟨?_, hvalid.append_some href⟩))
  exact ((hg.trans hgrown).trans (.append r₂ (some ref))).started_new (hg.heap.length_le.trans hle) href

lemma runs_newAppended (hg : Grown 8 r r₁) (hr : r₁.Valid cx) {c : CloneObject ℕ} (hc : c.isSavedFrame = false)
    (hrefs : c.refs = []) : Runs (newValue c >>= appendValue) r₁
      (fun v r' => Started r v r' ∧ r'.Valid cx) fun _ _ => True :=
  runs_appendValue hg (runs_newValue hr hc (by simp [hrefs]))

lemma runs_newEntries (hg : Grown 8 r r₁) (hr : r₁.Valid cx) {c : CloneObject ℕ} (hentries : c.hasEntries = true)
    (hrefs : c.refs = [])
    (hframe : c.isSavedFrame = true → ∃ slots, c = .savedFrame slots .uninitialized) :
    Runs (newEntries c >>= appendValue) r₁ (fun v r' => Started r v r' ∧ r'.Valid cx) fun _ _ => True := by
  refine .bind (.bind (.bind (.get (.bind (.modify (.pure (.bind (.modify (.pure ?_)))))))))
  refine .bind (.modify (.pure ⟨?_, ?_⟩))
  · have hget : (r₁.heap ++ [c])[r₁.heap.length]? = some c := by simp
    have hobjs := hg.objs
    exact
      { hg with
        heap := hg.heap.trans (prefix_append _ _)
        value := fun ref heq => by
          obtain rfl : r₁.heap.length = ref := by simpa using heq
          simp [Reader.append, Reader.pushObj, Reader.alloc]
        old := fun ref heq hlt => by
          obtain rfl : r₁.heap.length = ref := by simpa using heq
          exact absurd hlt (Nat.not_lt.2 hg.heap.length_le)
        pushed := .inr ⟨r₁.heap.length, c, rfl, congrArg _ hobjs, hg.heap.length_le, hget, hentries⟩
        frames := fun i c' hi hc' hframe' => by
          have heq : (r₁.heap ++ [c])[i]? = some c' := hc'
          obtain hlt | hle := Nat.lt_or_ge i r₁.heap.length
          · rw [getElem?_append_left hlt] at heq
            cases (hg.frames i c' hi heq).symm.trans hframe'
          · rw [getElem?_append_right hle] at heq
            have hmem := mem_singleton.1 (mem_of_getElem? heq)
            have hlt := (List.getElem?_eq_some_iff.1 heq).1
            obtain rfl : i = r₁.heap.length := by
              simp only [length_singleton] at hlt
              omega
            exact ⟨congrArg _ hobjs, hmem ▸ hframe (hmem ▸ hframe')⟩ }
  · have hlt : r₁.heap.length < (r₁.alloc c).heap.length := by simp [Reader.alloc]
    exact ((hr.alloc (by simp [hrefs])).pushObj hlt).append_some hlt

lemma runs_readArrayBuffer (hr : r.Valid cx) (nbytes : ℕ) :
    Runs (readArrayBuffer nbytes) r (Made cx r) fun _ _ => True := by
  refine .ite (fun _ => .throw trivial) fun _ => ?_
  refine .bind ((runs_readBytes hr.toInBounds nbytes).imp ?_ fun _ _ h => h)
  rintro bytes r₁ ⟨hconsumed, -⟩
  exact (runs_newValue (hr.consumed hconsumed) rfl (by simp [newBuffer, refs])).imp
    (fun _ _ h => h.after (.of_consumed hconsumed)) fun _ _ h => h

lemma runs_notClonable {α : Type} {Q : α → Reader → Prop} (what : String) :
    Runs (notClonable cx what) r Q fun _ _ => True :=
  .ite (fun _ => .throw trivial) fun _ => .throw trivial

lemma runs_readSharedArrayBuffer (hr : r.Valid cx) : Runs (readSharedArrayBuffer cx) r (Made cx r) fun _ _ => True := by
  refine .ite (fun _ => runs_notClonable _) fun _ => ?_
  refine .bind ((runs_readBytes hr.toInBounds 4).imp ?_ fun _ _ h => h)
  rintro byteLength r₁ ⟨hconsumed, -⟩
  have hr₁ := hr.consumed hconsumed
  refine .bind ((runs_readBytes hr₁.toInBounds 8).imp ?_ fun _ _ h => h)
  rintro p r₂ ⟨hconsumed', -⟩
  refine .ite (fun _ => .throw trivial) fun _ => ?_
  exact (runs_newValue (hr₁.consumed hconsumed') rfl (by simp [refs])).imp
    (fun _ _ h => h.after (.of_consumed (hconsumed.trans hconsumed'))) fun _ _ h => h

lemma runs_newTypedArray (hr : r.Valid cx) (type : ScalarType) {buffer : ℕ} (hbuffer : buffer < r.heap.length)
    (bufferByteLength byteOffset nelems : ℕ) :
    Runs (newTypedArray type buffer bufferByteLength byteOffset nelems) r (Made cx r) fun _ _ => True := by
  refine .ite (fun _ => .throw trivial) fun _ => .ite (fun _ => .throw trivial) fun _ => ?_
  exact runs_newValue hr rfl (by simpa [refs] using hbuffer)

lemma runs_newDataView (hr : r.Valid cx) {buffer : ℕ} (hbuffer : buffer < r.heap.length)
    (bufferByteLength byteOffset byteLength : ℕ) :
    Runs (newDataView buffer bufferByteLength byteOffset byteLength) r (Made cx r) fun _ _ => True := by
  refine .ite (fun _ => .throw trivial) fun _ => .ite (fun _ => .throw trivial) fun _ =>
    .ite (fun _ => .throw trivial) fun _ => ?_
  exact runs_newValue hr rfl (by simpa [refs] using hbuffer)

lemma runs_readV1ArrayBuffer (hr : r.Valid cx) (type : ScalarType) (nelems : ℕ) :
    Runs (readV1ArrayBuffer type nelems) r (Made cx r) fun _ _ => True := by
  refine .ite (fun _ => .throw trivial) fun _ => .ite (fun _ => .throw trivial) fun _ => ?_
  refine .bind ((runs_readArray hr.toInBounds _ _).imp ?_ fun _ _ h => h)
  rintro ns r₁ ⟨hconsumed, -⟩
  exact (runs_newValue (hr.consumed hconsumed) rfl (by simp [newBuffer, refs])).imp
    (fun _ _ h => h.after (.of_consumed hconsumed)) fun _ _ h => h

lemma runs_fillPlaceholder {m : ReadOp (CloneValue ℕ)} (hg : Grown 8 r r₁) (index : ℕ)
    (hm : Runs m r₁ (Made cx r₁) fun _ _ => True) :
    Runs (m >>= fillPlaceholder index) r₁ (fun v r' => Started r v r' ∧ r'.Valid cx) fun _ _ => True := by
  refine .bind (hm.imp ?_ fun _ _ h => h)
  rintro v r₂ ⟨hgrown, hvalid, ref, rfl, hle, href⟩
  refine .bind (.modify (.pure ⟨?_, hvalid.fill href index⟩))
  exact ((hg.trans hgrown).trans (.fill r₂ index ref)).started_new (hg.heap.length_le.trans hle) href

lemma runs_checkBuffer (what : String) (v : CloneValue ℕ) : Runs (checkBuffer what v) r
    (fun p r' => r' = r ∧ v = .object p.1 ∧ p.1 < r.heap.length ∧
      ∀ c, r.heap[p.1]? = some c → c.hasEntries = false) fun _ _ => True := by
  cases v with
  | object ref =>
    refine .bind (.get ?_)
    cases hlength : byteLength? r.heap ref with
    | none => exact .throw trivial
    | some byteLength =>
      unfold byteLength? at hlength
      cases hc : r.heap[ref]? with
      | none => simp [hc] at hlength
      | some c =>
        refine .pure ⟨rfl, rfl, (List.getElem?_eq_some_iff.1 hc).1, fun c' hc' => ?_⟩
        obtain rfl : c = c' := Option.some.inj (hc.symm.trans hc')
        cases c <;> first | rfl | simp [hc] at hlength
  | _ => exact .throw trivial

/-! ## `startRead` -/

section StartRead

variable {inner : ReadOp (CloneValue ℕ)} {depth : ℕ}
  (hinner : ∀ r : Reader, r.Valid cx → r.data.length < r.point + 8 * depth →
    Runs inner r (fun v r' => Started r v r' ∧ r'.Valid cx) fun _ _ => True)

include hinner

lemma runs_readBufferAndOffset (hr : r.Valid cx) (hdepth : r.data.length < r.point + 8 * depth)
    (type : ScalarType) (nelems : ℕ) (v1Read : Bool) :
    Runs (readBufferAndOffset cx inner type nelems v1Read) r
      (fun p r' => r'.Valid cx ∧ p.2 < 2 ^ 32 ∧ ((∀ ref c, p.1 = .object ref → r'.heap[ref]? = some c →
        c.hasEntries = false) → Grown 0 r r')) fun _ _ => True := by
  refine .ite (fun _ => ?_) fun _ => ?_
  · refine .bind ((runs_readV1ArrayBuffer hr type nelems).imp (fun v r₁ h₁ => ?_) fun _ _ h => h)
    exact .pure ⟨h₁.2.1, by norm_num, fun _ => h₁.1⟩
  · refine .bind ((hinner r hr hdepth).imp ?_ fun _ _ h => h)
    rintro v r₁ ⟨hstarted, hvalid₁⟩
    refine .bind ((runs_read hvalid₁.toInBounds).imp ?_ fun _ _ h => h)
    rintro n r₂ ⟨h₂, -⟩
    refine .pure ⟨hvalid₁.consumed h₂, Nat.mod_lt _ (by norm_num), fun hentries => ?_⟩
    have hheap : r₂.heap = r₁.heap := by
      obtain ⟨point, rfl, -⟩ := h₂
      rfl
    exact ((hstarted.grown fun ref c heq hc => hentries ref c heq (hheap ▸ hc)).trans
      (.of_consumed h₂)).weaken (by omega)

lemma runs_readTypedArray (hg : Grown 8 r r₁) (hr : r₁.Valid cx)
    (hdepth : r.data.length < r.point + 8 * (depth + 1)) (arrayType nelems : ℕ) (v1Read : Bool) :
    Runs (readTypedArray cx inner arrayType nelems v1Read) r₁
      (fun v r' => Started r v r' ∧ r'.Valid cx) fun _ _ => True := by
  unfold readTypedArray
  cases ScalarType.ofCode? arrayType with
  | none => exact .throw trivial
  | some type =>
    refine .ite (fun _ => .throw trivial) fun _ => .bind (.get (.bind (.modify ?_)))
    have hg' : Grown 8 r (r₁.append none) := hg.trans (.append r₁ none)
    have hdepth' : (r₁.append none).data.length < (r₁.append none).point + 8 * depth := by
      have := hg'.point
      rw [hg'.data]
      omega
    refine .bind ((runs_readBufferAndOffset hinner hr.append_none hdepth' type nelems v1Read).imp ?_ fun _ _ h => h)
    rintro ⟨v, byteOffset⟩ r₂ ⟨hvalid₂, -, hgrown₂⟩
    refine .bind ((runs_checkBuffer _ v).imp ?_ fun _ _ h => h)
    rintro ⟨buffer, bufferByteLength⟩ r₂ ⟨rfl, rfl, hbuffer, hentries⟩
    have hgrown : Grown 8 r r₂ := hg'.trans (hgrown₂ fun ref c heq hc => by
      obtain rfl : buffer = ref := by simpa using heq
      exact hentries c hc)
    exact runs_fillPlaceholder hgrown _ (runs_newTypedArray hvalid₂ type hbuffer _ _ _)

lemma runs_readDataView (hg : Grown 8 r r₁) (hr : r₁.Valid cx)
    (hdepth : r.data.length < r.point + 8 * (depth + 1)) (byteLength : ℕ) :
    Runs (readDataView cx inner byteLength) r₁
      (fun v r' => Started r v r' ∧ r'.Valid cx) fun _ _ => True := by
  refine .bind (.get (.bind (.modify ?_)))
  have hg' : Grown 8 r (r₁.append none) := hg.trans (.append r₁ none)
  have hinner' := hinner (r₁.append none) hr.append_none (by
    have := hg'.point
    rw [hg'.data]
    omega)
  refine .bind (hinner'.imp ?_ fun _ _ h => h)
  rintro v r₂ ⟨hstarted, hvalid₂⟩
  refine .bind ((runs_checkBuffer _ v).imp ?_ fun _ _ h => h)
  rintro ⟨buffer, bufferByteLength⟩ r₂ ⟨rfl, rfl, hbuffer, hentries⟩
  have hgrown₂ : Grown 0 (r₁.append none) r₂ := by
    refine (hstarted.grown fun ref c heq hc => ?_).weaken (Nat.zero_le 8)
    obtain rfl : buffer = ref := by simpa using heq
    exact hentries c hc
  refine .bind ((runs_read hvalid₂.toInBounds).imp ?_ fun _ _ h => h)
  rintro byteOffset r₃ ⟨h₃, -⟩
  have hgrown : Grown 8 r r₃ := (hg'.trans hgrown₂).trans (.of_consumed (h₃.weaken (Nat.zero_le 8)))
  have hbuffer' : buffer < r₃.heap.length := by
    obtain ⟨point, rfl, -⟩ := h₃
    exact hbuffer
  exact runs_fillPlaceholder hgrown _ (runs_newDataView (hvalid₂.consumed h₃) hbuffer' _ _ _)

lemma runs_readSharedWasmMemory (hg : Grown 8 r r₁) (hr : r₁.Valid cx)
    (hdepth : r.data.length < r.point + 8 * (depth + 1)) (nbytes : ℕ) :
    Runs (readSharedWasmMemory cx inner nbytes) r₁ (Made cx r₁) fun _ _ => True := by
  refine .ite (fun _ => .throw trivial) fun _ => .ite (fun _ => runs_notClonable _) fun _ => ?_
  have hinner' := hinner r₁ hr (by
    have := hg.point
    rw [hg.data]
    omega)
  refine .bind (hinner'.imp ?_ fun _ _ h => h)
  rintro payload r₂ ⟨hstarted, hvalid₂⟩
  cases payload with
  | object ref =>
    refine .bind (.get ?_)
    cases hc : r₂.heap[ref]? with
    | none => exact .throw trivial
    | some c =>
      cases c with
      | sharedArrayBuffer rawbuf byteLength =>
        have hgrown : Grown 0 r₁ r₂ := by
          refine (hstarted.grown fun ref' c heq hc' => ?_).weaken (Nat.zero_le 8)
          obtain rfl : ref = ref' := by simpa using heq
          exact Option.some.inj (hc.symm.trans hc') ▸ rfl
        have href : ref < r₂.heap.length := (List.getElem?_eq_some_iff.1 hc).1
        exact (runs_newValue hvalid₂ rfl (by simpa [CloneObject.refs] using href)).imp
          (fun _ _ h => h.after hgrown) fun _ _ h => h
      | _ => exact .throw trivial
  | _ => exact .throw trivial

omit hinner in
lemma runs_readPrincipals (hr : r.Valid cx) (principalsTag : ℕ) :
    Runs (readPrincipals cx principalsTag) r (fun _ r' => Consumed 0 r r') fun _ _ => True := by
  unfold readPrincipals
  split
  · cases hhook : cx.readPrincipals with
    | none => exact .throw trivial
    | some hook =>
      refine .bind (.get ?_)
      cases hook (r.data.drop r.point) with
      | none => exact .throw trivial
      | some result => exact .bind (.modify (.pure (.advance hr.toInBounds _)))
  · exact .pure (.refl hr.toInBounds)
  · exact .pure (.refl hr.toInBounds)
  · exact .pure (.refl hr.toInBounds)
  · exact .throw trivial

lemma runs_inner_primitive {α : Type} {f : CloneValue ℕ → ReadOp α} {Q : α → Reader → Prop}
    (hr : r₁.Valid cx) (hdepth : r₁.data.length < r₁.point + 8 * depth)
    (hobject : ∀ ref r', Runs (f (.object ref)) r' Q fun _ _ => True)
    (hf : ∀ v r', v.object? = none → Grown 8 r₁ r' → r'.Valid cx → Runs (f v) r' Q fun _ _ => True) :
    Runs (inner >>= f) r₁ Q fun _ _ => True := by
  refine .bind ((hinner r₁ hr hdepth).imp ?_ fun _ _ h => h)
  rintro v r₂ ⟨hstarted, hvalid⟩
  cases v with
  | object ref => exact hobject ref r₂
  | _ => exact hf _ r₂ rfl (hstarted.grown (by simp)) hvalid

lemma runs_readMutedErrorsAndSource (hr : r₁.Valid cx) (hdepth : r₁.data.length < r₁.point + 8 * depth) :
    Runs (readMutedErrorsAndSource inner) r₁ (fun _ r' => Grown 8 r₁ r' ∧ r'.Valid cx) fun _ _ => True := by
  refine runs_inner_primitive hinner hr hdepth (fun _ _ => .throw trivial) fun v r₂ hv hgrown hvalid => ?_
  cases v with
  | boolean b =>
    have hdepth₂ : r₂.data.length < r₂.point + 8 * depth := by
      have := hgrown.point
      rw [hgrown.data]
      omega
    refine runs_inner_primitive hinner hvalid hdepth₂ (fun _ _ => .throw trivial)
      fun v r₃ hv hgrown' hvalid' => ?_
    cases v with
    | string s => exact .pure ⟨(hgrown.trans hgrown').weaken (by omega), hvalid'⟩
    | _ => exact .throw trivial
  | string s => exact .pure ⟨hgrown, hvalid⟩
  | _ => exact .throw trivial

lemma runs_readUint32 (hr : r₁.Valid cx) (hdepth : r₁.data.length < r₁.point + 8 * depth) :
    Runs (readUint32 inner) r₁ (fun _ r' => Grown 8 r₁ r' ∧ r'.Valid cx) fun _ _ => True := by
  refine runs_inner_primitive hinner hr hdepth (fun _ _ => .throw trivial) fun v r₂ hv hgrown hvalid => ?_
  cases toUint32 v with
  | none => exact .throw trivial
  | some n => exact .pure ⟨hgrown, hvalid⟩

lemma runs_readOptionalString (hr : r₁.Valid cx) (hdepth : r₁.data.length < r₁.point + 8 * depth) :
    Runs (readOptionalString inner) r₁ (fun _ r' => Grown 8 r₁ r' ∧ r'.Valid cx) fun _ _ => True := by
  refine runs_inner_primitive hinner hr hdepth (fun _ _ => .throw trivial) fun v r₂ hv hgrown hvalid => ?_
  cases v with
  | string s => exact .pure ⟨hgrown, hvalid⟩
  | null => exact .pure ⟨hgrown, hvalid⟩
  | _ => exact .throw trivial

omit hinner in
/-- There is as much depth left as data. -/
lemma depth_of_grown (hdepth : r.data.length < r.point + size) (hg : Grown 0 r r₁) :
    r₁.data.length < r₁.point + size := by
  have := hg.point
  rw [hg.data]
  omega

lemma runs_readSavedFrame (hr : r₁.Valid cx) (hdepth : r₁.data.length < r₁.point + 8 * depth)
    (principalsTag : ℕ) : Runs (readSavedFrame cx inner principalsTag) r₁
      (fun c r' => Grown 0 r₁ r' ∧ r'.Valid cx ∧ ∃ slots, c = .savedFrame slots .uninitialized)
        fun _ _ => True := by
  refine .bind ((runs_readPrincipals hr principalsTag).imp (fun principals r₂ h₂ => ?_) fun _ _ h => h)
  have hvalid₂ := hr.consumed h₂
  have hg₂ : Grown 0 r₁ r₂ := .of_consumed h₂
  refine .bind ((runs_readMutedErrorsAndSource hinner hvalid₂ (depth_of_grown hdepth hg₂)).imp ?_ fun _ _ h => h)
  rintro ⟨mutedErrors, source⟩ r₃ ⟨h₃, hvalid₃⟩
  have hg₃ : Grown 0 r₁ r₃ := hg₂.trans (h₃.weaken (Nat.zero_le 8))
  refine .bind ((runs_readUint32 hinner hvalid₃ (depth_of_grown hdepth hg₃)).imp ?_ fun _ _ h => h)
  rintro line r₄ ⟨h₄, hvalid₄⟩
  have hg₄ : Grown 0 r₁ r₄ := hg₃.trans (h₄.weaken (Nat.zero_le 8))
  refine .bind ((runs_readUint32 hinner hvalid₄ (depth_of_grown hdepth hg₄)).imp ?_ fun _ _ h => h)
  rintro column r₅ ⟨h₅, hvalid₅⟩
  have hg₅ : Grown 0 r₁ r₅ := hg₄.trans (h₅.weaken (Nat.zero_le 8))
  refine .bind ((runs_readOptionalString hinner hvalid₅ (depth_of_grown hdepth hg₅)).imp ?_ fun _ _ h => h)
  rintro functionDisplayName r₆ ⟨h₆, hvalid₆⟩
  have hg₆ : Grown 0 r₁ r₆ := hg₅.trans (h₆.weaken (Nat.zero_le 8))
  refine .bind ((runs_readOptionalString hinner hvalid₆ (depth_of_grown hdepth hg₆)).imp ?_ fun _ _ h => h)
  rintro asyncCause r₇ ⟨h₇, hvalid₇⟩
  exact .pure ⟨hg₆.trans (h₇.weaken (Nat.zero_le 8)), hvalid₇, _, rfl⟩

omit hinner in
lemma runs_readRegExp (hr : r.Valid cx) (data : ℕ) : Runs (readRegExp cx data) r (Made cx r) fun _ _ => True := by
  refine .ite (fun _ => .throw trivial) fun _ => ?_
  refine .bind ((runs_readPair hr.toInBounds).imp ?_ fun _ _ h => h)
  rintro ⟨tag2, stringData⟩ r₁ ⟨h₁, -⟩
  refine .ite (fun _ => .throw trivial) fun _ => ?_
  have hvalid₁ := hr.consumed h₁
  refine .bind ((runs_readString hvalid₁.toInBounds stringData).imp (fun str r₂ h₂ => ?_) fun _ _ h => h)
  refine .ite (fun _ => ?_) fun _ => .throw trivial
  exact (runs_newValue (hvalid₁.consumed h₂) rfl (by simp [CloneObject.refs])).imp
    (fun _ _ h => h.after (.of_consumed ((h₁.trans h₂).weaken (Nat.zero_le 8)))) fun _ _ h => h

omit hinner in
lemma runs_readBackReference (h : Consumed 8 r r₁) (hr : r₁.Valid cx)
    (hword : (splitPair (wordAt r)).1 = StructuredDataType.SCTAG_BACK_REFERENCE_OBJECT.code) :
    Runs (readBackReference (splitPair (wordAt r)).2) r₁
      (fun v r' => (Started r v r' ∧ r'.Valid cx) ∧ ∃ ref, r.IsBackReference ref ∧ v = .object ref ∧ r' = r₁)
        fun _ _ => True := by
  have hallObjs : r₁.allObjs = r.allObjs := by
    obtain ⟨point, rfl, -⟩ := h
    rfl
  refine .bind (.get ?_)
  split
  next ref hentry =>
    have hback : r.IsBackReference ref := ⟨hword, hallObjs ▸ hentry⟩
    refine .pure ⟨⟨(Grown.of_consumed h).started le_rfl (fun ref' heq => ?_) fun ref' heq _ => ?_, hr⟩,
      ref, hback, rfl, rfl⟩
    · obtain rfl : ref = ref' := by simpa using heq
      exact hr.allObjs ref (mem_of_getElem? hentry)
    · obtain rfl : ref = ref' := by simpa using heq
      exact hback
  next => exact .throw trivial

lemma runs_startReadTag (h : Consumed 8 r r₁) (hr : r₁.Valid cx)
    (hdepth : r.data.length < r.point + 8 * (depth + 1)) {data : ℕ} (hdata : data = (splitPair (wordAt r)).2)
    {type : StructuredDataType} (htype : type.code = (splitPair (wordAt r)).1) :
    Runs (startReadTag cx inner data type) r₁ (fun v r' => Started r v r' ∧ r'.Valid cx)
      fun _ _ => True := by
  have hg : Grown 8 r r₁ := .of_consumed h
  have hpure (v : CloneValue ℕ) (hv : v.object? = none) {r₂ : Reader} (h : Consumed 0 r₁ r₂) :
      Started r v r₂ ∧ r₂.Valid cx := by
    exact ⟨(hg.trans (.of_consumed h)).started_primitive hv, hr.consumed h⟩
  have hself : Consumed 0 r₁ r₁ := .refl hr.toInBounds
  have hdepth₁ : r₁.data.length < r₁.point + 8 * depth := by
    have := hg.point
    rw [hg.data]
    omega
  -- an object that is made from what has been consumed
  have hleaf {c : CloneObject ℕ} (hc : c.isSavedFrame = false) (hrefs : c.refs = []) {r₂ : Reader}
      (h : Consumed 0 r₁ r₂) : Runs (newValue c >>= appendValue) r₂
        (fun v r' => Started r v r' ∧ r'.Valid cx) fun _ _ => True :=
    runs_newAppended (hg.trans (.of_consumed h)) (hr.consumed h) hc hrefs
  have hentries {c : CloneObject ℕ} (hc : c.hasEntries = true) (hrefs : c.refs = []) (hf : c.isSavedFrame = false) :
      Runs (newEntries c >>= appendValue) r₁ (fun v r' => Started r v r' ∧ r'.Valid cx) fun _ _ => True :=
    runs_newEntries hg hr hc hrefs fun h => absurd (hf.symm.trans h) (by decide)
  cases type with
  | SCTAG_NULL => exact .pure (hpure _ rfl hself)
  | SCTAG_UNDEFINED => exact .pure (hpure _ rfl hself)
  | SCTAG_INT32 => exact .pure (hpure _ rfl hself)
  | SCTAG_BOOLEAN => exact .pure (hpure _ rfl hself)
  | SCTAG_BOOLEAN_OBJECT => exact hleaf rfl rfl hself
  | SCTAG_STRING =>
    exact .bind ((runs_readString hr.toInBounds data).imp (fun s _ h => .pure (hpure _ rfl h)) fun _ _ h => h)
  | SCTAG_STRING_OBJECT =>
    exact .bind ((runs_readString hr.toInBounds data).imp (fun s _ h => hleaf rfl rfl h) fun _ _ h => h)
  | SCTAG_NUMBER_OBJECT =>
    exact .bind ((runs_readDouble hr.toInBounds).imp (fun d _ h => hleaf rfl rfl (h.weaken (Nat.zero_le 8)))
      fun _ _ h => h)
  | SCTAG_BIGINT =>
    exact .bind ((runs_readBigInt hr.toInBounds data).imp (fun s _ h => .pure (hpure _ rfl h)) fun _ _ h => h)
  | SCTAG_BIGINT_OBJECT =>
    exact .bind ((runs_readBigInt hr.toInBounds data).imp (fun s _ h => hleaf rfl rfl h) fun _ _ h => h)
  | SCTAG_DATE_OBJECT =>
    refine .bind ((runs_readDouble hr.toInBounds).imp (fun d _ h => ?_) fun _ _ h => h)
    exact .ite (fun _ => hleaf rfl rfl (h.weaken (Nat.zero_le 8))) fun _ => .throw trivial
  | SCTAG_REGEXP_OBJECT => exact runs_appendValue hg (runs_readRegExp hr data)
  | SCTAG_ARRAY_OBJECT => exact hentries rfl rfl rfl
  | SCTAG_OBJECT_OBJECT => exact hentries rfl rfl rfl
  | SCTAG_BACK_REFERENCE_OBJECT =>
    rw [hdata]
    exact (runs_readBackReference h hr htype.symm).imp (fun _ _ h => h.1) fun _ _ h => h
  | SCTAG_ARRAY_BUFFER_OBJECT => exact runs_appendValue hg (runs_readArrayBuffer hr data)
  | SCTAG_SHARED_ARRAY_BUFFER_OBJECT => exact runs_appendValue hg (runs_readSharedArrayBuffer hr)
  | SCTAG_SHARED_WASM_MEMORY_OBJECT =>
    exact runs_appendValue hg (runs_readSharedWasmMemory hinner hg hr hdepth data)
  | SCTAG_TYPED_ARRAY_OBJECT =>
    refine .bind ((runs_read hr.toInBounds).imp ?_ fun _ _ h => h)
    rintro arrayType r₂ ⟨h₂, -⟩
    exact runs_readTypedArray hinner (hg.trans (.of_consumed (h₂.weaken (Nat.zero_le 8)))) (hr.consumed h₂) hdepth _ _ _
  | SCTAG_DATA_VIEW_OBJECT => exact runs_readDataView hinner hg hr hdepth data
  | SCTAG_MAP_OBJECT => exact hentries rfl rfl rfl
  | SCTAG_SET_OBJECT => exact hentries rfl rfl rfl
  | SCTAG_SAVED_FRAME_OBJECT =>
    refine .bind ((runs_readSavedFrame hinner hr hdepth₁ data).imp ?_ fun _ _ h => h)
    rintro c r₂ ⟨h₂, hvalid₂, slots, rfl⟩
    exact runs_newEntries (hg.trans h₂) hvalid₂ rfl rfl fun _ => ⟨slots, rfl⟩
  | _ => exact .throw trivial

lemma runs_startReadWith (hr : r.Valid cx) (hdepth : r.data.length < r.point + 8 * (depth + 1)) :
    Runs (startReadWith cx inner) r (fun v r' => Started r v r' ∧ r'.Valid cx) fun _ _ => True := by
  refine .bind ((runs_readPair hr.toInBounds).imp ?_ fun _ _ h => h)
  rintro ⟨tag, data⟩ r₁ ⟨h₁, hword⟩
  obtain ⟨htag, hdata⟩ := Prod.mk.inj hword
  have hg : Grown 8 r r₁ := .of_consumed h₁
  have hr₁ := hr.consumed h₁
  dsimp only
  cases htype : StructuredDataType.ofCode? tag with
  | some type =>
    exact runs_startReadTag hinner h₁ hr₁ hdepth hdata ((StructuredDataType.code_of_ofCode? htype).trans htag)
  | none =>
    refine .ite (fun _ => .pure ⟨hg.started_primitive ?_, hr₁⟩) fun _ => ?_
    · unfold setNumber
      dsimp only
      split_ifs <;> rfl
    · refine .ite (fun _ => ?_) fun _ => .throw trivial
      exact runs_readTypedArray hinner hg hr₁ hdepth _ _ _

end StartRead

lemma runs_startRead_backReference (depth : ℕ) {r : Reader} (hr : r.Valid cx)
    (hword : (splitPair (wordAt r)).1 = StructuredDataType.SCTAG_BACK_REFERENCE_OBJECT.code) :
    Runs (startRead cx (depth + 1)) r (fun v _ => ∃ ref, r.IsBackReference ref ∧ v = .object ref)
      fun _ _ => True := by
  refine .bind ((runs_readPair hr.toInBounds).imp ?_ fun _ _ h => h)
  rintro ⟨tag, data⟩ r₁ ⟨h₁, heq⟩
  obtain ⟨htag, rfl⟩ := Prod.mk.inj heq
  obtain rfl : tag = _ := htag.trans hword
  dsimp only
  rw [StructuredDataType.ofCode?_code]
  exact (runs_readBackReference h₁ (hr.consumed h₁) hword).imp
    (fun _ _ ⟨_, ref, hback, hv, _⟩ => ⟨ref, hback, hv⟩) fun _ _ h => h

/-- Reading a value has an outcome, after as many nested calls as there are words. -/
theorem runs_startRead (depth : ℕ) {r : Reader} (hr : r.Valid cx) (hdepth : r.data.length < r.point + 8 * depth) :
    Runs (startRead cx depth) r (fun v r' => (Started r v r' ∧ r'.Valid cx) ∧
      ∀ ref, r.IsBackReference ref → v = .object ref) fun _ _ => True := by
  have hstarts : Runs (startRead cx depth) r (fun v r' => Started r v r' ∧ r'.Valid cx) fun _ _ => True := by
    induction depth generalizing r with
    | zero =>
      have := hr.point_le
      omega
    | succ depth ih => exact runs_startReadWith (fun r hr hdepth => ih hr hdepth) hr hdepth
  by_cases hword : (splitPair (wordAt r)).1 = StructuredDataType.SCTAG_BACK_REFERENCE_OBJECT.code
  · obtain ⟨depth, rfl⟩ : ∃ k, depth = k + 1 := by
      have := hr.point_le
      exact ⟨depth - 1, by omega⟩
    refine (hstarts.and (runs_startRead_backReference depth hr hword)).imp ?_ fun _ _ _ => trivial
    rintro v r' ⟨h, ref, hback, rfl⟩
    refine ⟨h, fun ref' hback' => ?_⟩
    rw [Option.some.inj (Option.some.inj (hback.2.symm.trans hback'.2))]
  · exact hstarts.imp (fun _ _ h => ⟨h, fun ref hback => absurd hback.1 hword⟩) fun _ _ h => h

end ReadOp

end SpiderMonkey.StructuredClone
