import SpiderMonkey.Lib.Acyclic
import SpiderMonkey.StructuredClone.ChildCounter

/-!
# The rounds of the reader

What a round of the reader's loop does with the parents of saved frames, and that the loop ends because
every round reads a word.
-/

namespace SpiderMonkey.StructuredClone

open LittleEndian Script List

namespace ReadOp

open Reader CloneObject CloneValue

variable {cx : ReadContext} {r : Reader} {depth : ℕ}

/-- A round in which data are read and at most one saved frame gets a parent: a new object or one that is
referred back to. -/
structure Rounded (r r' : Reader) : Prop where
  data : r'.data = r.data
  point : r.point + 8 ≤ r'.point
  heap : r.heap.length ≤ r'.heap.length
  parents : (Unadopted r r' ∧ ∀ ref p, r.Waits ref → ¬ r.IsBackReference p) ∨
    ∃ ref p, r.Waits ref ∧ (∀ a b, Parent r'.heap a b ↔ AddEdge (Parent r.heap) ref p a b) ∧
      (r.heap.length ≤ p ∨ r.IsBackReference p) ∧ ∀ p', r.IsBackReference p' → p' = p

/-- What a round leads to. -/
def RoundEnd (cx : ReadContext) (r r' : Reader) : Prop := r'.InStep cx ∧ Rounded r r'

lemma parent_set {heap : List (CloneObject ℕ)} {ref : ℕ} {slots : FrameSlots} {parent : ParentSlot ℕ}
    (hc : heap[ref]? = some (.savedFrame slots .uninitialized)) (a b : ℕ) :
    Parent (heap.set ref (.savedFrame slots parent)) a b ↔ Parent heap a b ∨ a = ref ∧ parent = .frame b := by
  have hlt : ref < heap.length := (List.getElem?_eq_some_iff.1 hc).1
  unfold Parent
  obtain rfl | hne := eq_or_ne ref a
  · rw [getElem?_set_self hlt, hc]
    simp
  · rw [getElem?_set_ne hne]
    simp [hne.symm]

/-! ## Saved frames -/

lemma exists_position {r₁ : Reader} {v : CloneValue ℕ} {ref count : ℕ} {rest counts : List ℕ} (hr : r.InStep cx)
    (h : Next r v r₁) (hobjs : r.objs = ref :: rest) (hframe : frameAt r.heap ref = true)
    (hcounts : r.counts = count :: counts) : ∃ before after countsBefore,
      r₁.objs.filter (frameAt r₁.heap) = before ++ ref :: after ∧ r₁.counts = countsBefore ++ count :: counts ∧
        before.length = countsBefore.length := by
  have hmem : ref ∈ r.objs := hobjs ▸ mem_cons_self
  have hframe₁ : frameAt r₁.heap ref = true := by rwa [frameAt_of_grows h.heap (hr.objs ref hmem)]
  have hfilter : (ref :: rest).filter (frameAt r₁.heap) = ref :: rest.filter (frameAt r₁.heap) :=
    filter_cons_of_pos hframe₁
  obtain ⟨hobjs₁, hcounts₁⟩ | ⟨new, -, -, hobjs₁, ⟨hnew, hcounts₁⟩ | ⟨hnew, hcounts₁⟩⟩ := h.pushed
  · simp [hobjs₁, hobjs, hfilter, hcounts₁, hcounts]
  · simp [hcounts₁, hcounts, hobjs₁, hobjs, hnew, hfilter]
  · refine ⟨[new], rest.filter (frameAt r₁.heap), [0], ?_, by rw [hcounts₁, hcounts]; rfl, rfl⟩
    simp [hobjs₁, hobjs, hnew, hfilter]

/-- The parent that has been read is null or a saved frame. -/
lemma parentFrame_eq_some {heap : List (CloneObject ℕ)} {key : CloneValue ℕ} {parent : ParentSlot ℕ}
    (h : parentFrame heap key = some parent) :
    key = .null ∧ parent = .null ∨ ∃ p, key = .object p ∧ parent = .frame p ∧ frameAt heap p = true := by
  unfold parentFrame at h
  cases key with
  | null => exact .inl ⟨rfl, (Option.some.inj h).symm⟩
  | object ref =>
    dsimp only at h
    split at h
    next hc => exact .inr ⟨ref, rfl, (Option.some.inj h).symm, frameAt_iff.2 ⟨_, _, hc⟩⟩
    next => simp at h
  | _ => simp at h

lemma runs_readChild_savedFrame (hr : r.InStep cx) {ref : ℕ} {rest : List ℕ} (hobjs : r.objs = ref :: rest)
    {slots : FrameSlots} {parent : ParentSlot ℕ} (hc : r.heap[ref]? = some (.savedFrame slots parent))
    {key : CloneValue ℕ} {r₁ : Reader}
    (hnext : Next { r with objCountsIndex := if r.counts = [] then 2 ^ 64 - 1 else r.counts.length - 1 } key r₁)
    (hr₁ : r₁.InStep cx) : Runs (readChild cx depth ref key) r₁ (fun _ => RoundEnd cx r) fun _ _ => True := by
  have hmem : ref ∈ r.objs := hobjs ▸ mem_cons_self
  have hframe : frameAt r.heap ref = true := frameAt_iff.2 ⟨_, _, hc⟩
  have hc₁ : r₁.heap[ref]? = some (.savedFrame slots parent) := by
    rwa [getElem?_of_grows hnext.heap (hr.objs ref hmem)]
  have hcountsr := hr.counts
  rw [hobjs, filter_cons_of_pos hframe] at hcountsr
  obtain ⟨count, counts, hcounts⟩ : ∃ count counts, r.counts = count :: counts := by
    cases hcs : r.counts with
    | nil => simp [hcs] at hcountsr
    | cons count counts => exact ⟨count, counts, rfl⟩
  rw [hcounts, forall₂_cons] at hcountsr
  obtain ⟨slots', parent', hc', hcount⟩ := hcountsr.1
  cases hc.symm.trans hc'
  have hindex : r₁.objCountsIndex = counts.length := by
    rw [hnext.objCountsIndex]
    change (if r.counts = [] then 2 ^ 64 - 1 else r.counts.length - 1) = counts.length
    simp [hcounts]
  have hstep : Reader.InStep cx
      { r with objCountsIndex := if r.counts = [] then 2 ^ 64 - 1 else r.counts.length - 1 } :=
    ⟨⟨⟨hr.segments, hr.point_le⟩, hr.objs, hr.allObjs, hr.heap⟩, hr.nodup, hr.entries, hr.objsLength, hr.counts,
      hr.initialised, hr.parents⟩
  obtain ⟨before, after, countsBefore, hfilter, hcounts₁, hlength⟩ := exists_position hstep hnext hobjs hframe hcounts
  have hdata : r₁.data = r.data := hnext.data
  have hpoint : r.point + 8 ≤ r₁.point := hnext.point
  have hunadopted : Unadopted r r₁ := hnext.unadopted
  have hheap : r.heap.length ≤ r₁.heap.length := hnext.heap.length_le
  refine .bind (.get ?_)
  rw [hc₁]
  dsimp only
  cases hparent : parentFrame r₁.heap key with
  | none => exact .throw trivial
  | some new =>
    refine .bind ((runs_checkSingleParentFrame hcounts₁ hindex).imp ?_ fun _ _ h => h)
    rintro first r₂ ⟨rfl, rfl⟩
    refine .ite (fun hfirst => ?_) fun hfirst => ?_
    · have hzero : count = 0 := by simpa using hfirst
      subst hzero
      obtain rfl := hcount.1 rfl
      refine .bind (.get ?_)
      dsimp only
      rw [hc₁]
      refine .modify ?_
      have hwaits : r.Waits ref := ⟨⟨rest, hobjs⟩, slots, hc⟩
      obtain ⟨rfl, rfl⟩ | ⟨p, rfl, rfl, hp⟩ := parentFrame_eq_some hparent
      · refine ⟨hr₁.setParent hc₁ hfilter hcounts₁ hlength (by simp) (by simp [ParentSlot.toValue, object?])
          (by simp), hdata, hpoint, hheap.trans length_set.ge, .inl ⟨fun a b => ?_, fun ref' p _ hback => ?_⟩⟩
        · refine ((parent_set hc₁ a b).trans ?_).trans (hunadopted a b)
          simp
        · cases hnext.back p hback
      · refine ⟨hr₁.setParent hc₁ hfilter hcounts₁ hlength (by simp) ?_ (fun p' h => ParentSlot.frame.inj h ▸ hp),
          hdata, hpoint, hheap.trans length_set.ge,
          .inr ⟨ref, p, hwaits, fun a b => ?_, ?_, fun p' hback => ?_⟩⟩
        · intro o ho
          obtain rfl : o = p := by simpa [ParentSlot.toValue, object?] using ho
          exact hnext.value o rfl
        · refine (parent_set hc₁ a b).trans (or_congr (hunadopted a b) ?_)
          exact and_congr_right fun _ => ⟨fun h => (ParentSlot.frame.inj h).symm, fun h => h ▸ rfl⟩
        · exact (Nat.lt_or_ge p r.heap.length).symm.imp_right (hnext.old p rfl)
        · exact (object.inj (hnext.back p' hback)).symm
    · have hne : count ≠ 0 := by simpa using hfirst
      refine .pure ⟨hr₁.setCount hfilter hcounts₁ hlength hne, hdata, hpoint, hheap,
        .inl ⟨hunadopted, fun ref' p hwaits hback => ?_⟩⟩
      obtain ⟨⟨rest', hobjs'⟩, slots', hc'⟩ := hwaits
      obtain rfl : ref = ref' := (List.cons.inj (hobjs.symm.trans hobjs')).1
      exact hne (hcount.2 (savedFrame.inj (Option.some.inj (hc.symm.trans hc'))).2)

/-! ## Other objects -/

/-- A round in which no saved frame gets a parent. -/
lemma roundEnd_of_entered {r₁ r' : Reader} (hdata : r₁.data = r.data) (hpoint : r.point + 8 ≤ r₁.point)
    (hheap : r.heap.length ≤ r₁.heap.length) (hunadopted : Unadopted r r₁) (h : Entered cx r₁ r')
    (hwaits : ∀ ref, ¬ r.Waits ref) : RoundEnd cx r r' :=
  ⟨h.1, h.2.1.trans hdata, h.2.2.1.symm ▸ hpoint,
    hheap.trans h.2.2.2.1, .inl ⟨hunadopted.trans h.2.2.2.2, fun ref _ hw => absurd hw (hwaits ref)⟩⟩

lemma runs_readChild_set {r₁ : Reader} (hr₁ : r₁.InStep cx) {ref : ℕ} {keys : List (CloneValue ℕ)}
    (hc₁ : r₁.heap[ref]? = some (.set keys)) {key : CloneValue ℕ} (hkey : ∀ o, key = .object o → o < r₁.heap.length) :
    Runs (readChild cx depth ref key) r₁ (fun _ => Entered cx r₁) fun _ _ => True := by
  refine .bind (.get ?_)
  rw [hc₁]
  refine runs_setObject hr₁ hc₁ rfl rfl rfl fun o ho => ?_
  have hrefs := hr₁.heap _ (mem_of_getElem? hc₁)
  change o ∈ List.filterMap object? (if _ then keys else _) at ho
  split_ifs at ho
  · exact hrefs o ho
  · rw [filterMap_append, mem_append] at ho
    obtain ho | ho := ho
    · exact hrefs o ho
    · obtain ⟨v, hv, heq⟩ := mem_filterMap.1 ho
      rw [mem_singleton.1 hv, hashableValue_object?] at heq
      refine hkey o ?_
      cases key with
      | object o' => exact congrArg _ (Option.some.inj heq)
      | _ => simp [object?] at heq

lemma runs_defineDataProperty_option (hr : r.InStep cx) {ref : ℕ} {c : CloneObject ℕ} (hc : r.heap[ref]? = some c)
    (hkind : (∃ properties, c = .plain properties) ∨ ∃ length properties, c = .array length properties)
    (id : Option Id) {val : CloneValue ℕ} (hval : ∀ o, val = .object o → o < r.heap.length) :
    Runs (match id with
      | some id => defineDataProperty ref id val
      | none => Script.throw .outOfMemory) r (fun _ => Entered cx r) fun _ _ => True := by
  cases id with
  | none => exact .throw trivial
  | some id => exact runs_defineDataProperty hr hc hkind id hval

lemma runs_defineProperty (hr : r.InStep cx) {ref : ℕ} {c : CloneObject ℕ} (hc : r.heap[ref]? = some c)
    (hkind : (∃ properties, c = .plain properties) ∨ ∃ length properties, c = .array length properties)
    (key : CloneValue ℕ) {val : CloneValue ℕ} (hval : ∀ o, val = .object o → o < r.heap.length) :
    Runs (defineProperty ref key val) r (fun _ => Entered cx r) fun _ _ => True := by
  have hdefine := runs_defineDataProperty_option hr hc hkind (primitiveValueToId key) hval
  cases key with
  | string s => exact hdefine
  | int32 i => exact hdefine
  | _ => exact .throw trivial

lemma lt_of_mem_putEntry {n : ℕ} {key val : CloneValue ℕ} {entries : List (CloneValue ℕ × CloneValue ℕ)}
    (hkey : ∀ o, key = .object o → o < n) (hval : ∀ o, val = .object o → o < n)
    (h : ∀ o ∈ (map entries).refs, o < n) :
    ∀ o ∈ (map (putEntry (hashableValue key) val entries)).refs, o < n := by
  have hobject {v : CloneValue ℕ} (hv : ∀ o, v = .object o → o < n) {o : ℕ} (ho : v.object? = some o) : o < n := by
    cases v with
    | object o' => exact Option.some.inj ho ▸ hv o' rfl
    | _ => simp [object?] at ho
  intro o ho
  obtain ho | ho := mem_append.1 ho
  · obtain ⟨e, he, heq⟩ := mem_filterMap.1 ho
    obtain rfl | he := mem_putEntry he
    · exact hobject hkey (hashableValue_object? key ▸ heq)
    · exact h o (mem_append_left _ (mem_filterMap.2 ⟨e, he, heq⟩))
  · obtain ⟨e, he, heq⟩ := mem_filterMap.1 ho
    obtain rfl | he := mem_putEntry he
    · exact hobject hval heq
    · exact h o (mem_append_right _ (mem_filterMap.2 ⟨e, he, heq⟩))

lemma runs_putPair (hr : r.InStep cx) {ref : ℕ} {c : CloneObject ℕ} (hc : r.heap[ref]? = some c)
    (hentries : c.hasEntries = true) (hframe : c.isSavedFrame = false) (hset : ∀ keys, c ≠ .set keys)
    {key val : CloneValue ℕ} (hkey : ∀ o, key = .object o → o < r.heap.length)
    (hval : ∀ o, val = .object o → o < r.heap.length) :
    Runs (putPair ref key val) r (fun _ => Entered cx r) fun _ _ => True := by
  refine .bind (.get ?_)
  rw [hc]
  cases c with
  | map entries =>
    exact runs_setObject hr hc rfl rfl rfl
      (lt_of_mem_putEntry hkey hval (hr.heap _ (mem_of_getElem? hc)))
  | plain properties => exact runs_defineProperty hr hc (.inl ⟨properties, rfl⟩) key hval
  | array length properties => exact runs_defineProperty hr hc (.inr ⟨length, properties, rfl⟩) key hval
  | set keys => exact absurd rfl (hset keys)
  | savedFrame slots parent => exact absurd hframe (by simp [isSavedFrame])
  | _ => exact absurd hentries (by simp [hasEntries])

lemma runs_readChild_pair {r₁ : Reader} (hr₁ : r₁.InStep cx) (hdepth : r₁.data.length < r₁.point + 8 * depth)
    {ref : ℕ} {c : CloneObject ℕ} (hc₁ : r₁.heap[ref]? = some c) (hentries : c.hasEntries = true)
    (hframe : c.isSavedFrame = false) (hset : ∀ keys, c ≠ .set keys) {key : CloneValue ℕ}
    (hkey : ∀ o, key = .object o → o < r₁.heap.length) :
    Runs (readChild cx depth ref key) r₁
      (fun _ r' => ∃ r₂, r₂.data = r₁.data ∧ r₁.point ≤ r₂.point ∧
        r₁.heap.length ≤ r₂.heap.length ∧ Unadopted r₁ r₂ ∧ Entered cx r₂ r')
        fun _ _ => True := by
  have hlt : ref < r₁.heap.length := (List.getElem?_eq_some_iff.1 hc₁).1
  have hread : Runs (startRead cx depth >>= fun val => postStartRead >>= fun _ => putPair ref key val) r₁
      (fun _ r' => ∃ r₂, r₂.data = r₁.data ∧ r₁.point ≤ r₂.point ∧
        r₁.heap.length ≤ r₂.heap.length ∧ Unadopted r₁ r₂ ∧ Entered cx r₂ r')
        fun _ _ => True := by
    refine runs_next hr₁ hdepth fun val r₂ hnext hr₂ => ?_
    have hc₂ : r₂.heap[ref]? = some c := by rwa [getElem?_of_grows hnext.heap hlt]
    refine (runs_putPair hr₂ hc₂ hentries hframe hset (fun o ho => ?_) hnext.value).imp (fun _ r' h => ?_)
      fun _ _ h => h
    · exact (hkey o ho).trans_le hnext.heap.length_le
    · exact ⟨r₂, hnext.data, (Nat.le_add_right _ 8).trans hnext.point, hnext.heap.length_le, hnext.unadopted, h⟩
  refine .bind (.get ?_)
  rw [hc₁]
  cases c with
  | map entries => exact hread
  | plain properties => exact hread
  | array length properties => exact hread
  | set keys => exact absurd rfl (hset keys)
  | savedFrame slots parent => exact absurd hframe (by simp [isSavedFrame])
  | _ => exact absurd hentries (by simp [hasEntries])

/-! ## A round -/

lemma runs_endOfObject {α : Type} {r₁ : Reader} (hr₁ : r₁.InStep cx) (hdata : r₁.data = r.data)
    (hheap : r.heap.length ≤ r₁.heap.length) (hunadopted : Unadopted r r₁) (hback : ∀ ref p, r.Waits ref → ¬ r.IsBackReference p) {ref : ℕ} {rest : List ℕ}
    (hobjs : r₁.objs = ref :: rest) {m : ReadOp α}
    (hm : ∀ r₂ : Reader, r₂.InBounds cx → r₂.point = r₁.point → r₂.data = r₁.data →
      Runs m r₂ (fun _ r' => ∃ point, r' = r₂.seekTo point ∧ r.point + 8 ≤ point ∧ point ≤ r₁.data.length)
        fun _ _ => True) :
    Runs (handleEndOfChildren >>= fun _ => m >>= fun _ => popObj >>= fun _ => pure true) r₁
      (fun again r' => again = true ∧ RoundEnd cx r r') fun _ _ => True := by
  refine .bind ((runs_handleEndOfChildren hr₁ hobjs).imp ?_ fun _ _ h => h)
  rintro _ _ ⟨counts, rfl, hcounts, hparent⟩
  refine .bind ((hm { r₁ with objsLength := rest.length, counts := counts } ⟨hr₁.segments, hr₁.point_le⟩
    rfl rfl).imp ?_ fun _ _ h => h)
  rintro _ _ ⟨point, rfl, hpoint, hlength⟩
  refine .bind (.modify (.pure ⟨rfl, ?_, hdata, hpoint, hheap, .inl ⟨hunadopted, hback⟩⟩))
  exact hr₁.pop hobjs hcounts hparent hlength

/-- A saved frame that waits for a parent is on top of the stack. -/
lemma not_waits {ref : ℕ} {rest : List ℕ} {c : CloneObject ℕ} (hobjs : r.objs = ref :: rest)
    (hc : r.heap[ref]? = some c) (hframe : c.isSavedFrame = false) (ref' : ℕ) : ¬ r.Waits ref' := by
  rintro ⟨⟨rest', hobjs'⟩, slots, hc'⟩
  obtain rfl : ref = ref' := (List.cons.inj (hobjs.symm.trans hobjs')).1
  rw [Option.some.inj (hc.symm.trans hc')] at hframe
  simp [isSavedFrame] at hframe

lemma runs_readChild (hr : r.InStep cx) (hdepth : r.data.length < r.point + 8 * depth) {ref : ℕ} {rest : List ℕ}
    (hobjs : r.objs = ref :: rest) {key : CloneValue ℕ} {r₁ : Reader}
    (hnext : Next { r with objCountsIndex := if r.counts = [] then 2 ^ 64 - 1 else r.counts.length - 1 } key r₁)
    (hr₁ : r₁.InStep cx) : Runs (readChild cx depth ref key) r₁ (fun _ => RoundEnd cx r) fun _ _ => True := by
  have hmem : ref ∈ r.objs := hobjs ▸ mem_cons_self
  obtain ⟨c, hc, hentries⟩ := hr.entries ref hmem
  have hc₁ : r₁.heap[ref]? = some c := by rwa [getElem?_of_grows hnext.heap (hr.objs ref hmem)]
  have hdata : r₁.data = r.data := hnext.data
  have hpoint : r.point + 8 ≤ r₁.point := hnext.point
  have hunadopted : Unadopted r r₁ := hnext.unadopted
  have hheap : r.heap.length ≤ r₁.heap.length := hnext.heap.length_le
  have hpair (hframe : c.isSavedFrame = false) (hset : ∀ keys, c ≠ .set keys) :
      Runs (readChild cx depth ref key) r₁ (fun _ => RoundEnd cx r) fun _ _ => True := by
    refine (runs_readChild_pair hr₁ (by rw [hdata]; omega) hc₁ hentries hframe hset hnext.value).imp ?_
      fun _ _ h => h
    rintro _ r' ⟨r₂, hdata₂, hpoint₂, hheap₂, hunadopted₂, hentered⟩
    exact roundEnd_of_entered (hdata₂.trans hdata) (hpoint.trans hpoint₂) (hheap.trans hheap₂)
      (hunadopted.trans hunadopted₂) hentered (not_waits hobjs hc hframe)
  cases c with
  | savedFrame slots parent => exact runs_readChild_savedFrame hr hobjs hc hnext hr₁
  | set keys =>
    exact (runs_readChild_set hr₁ hc₁ hnext.value).imp
      (fun _ _ h => roundEnd_of_entered hdata hpoint hheap hunadopted h (not_waits hobjs hc rfl)) fun _ _ h => h
  | _ => exact hpair rfl fun _ h => by simp at h

theorem runs_readRound (hr : r.InStep cx) (hdepth : r.data.length < r.point + 8 * depth) :
    Runs (readRound cx depth) r (fun again r' => again = true ∧ RoundEnd cx r r' ∨
      again = false ∧ r.objs = [] ∧ r' = r) fun _ _ => True := by
  refine .bind (.get ?_)
  cases hobjs : r.objs with
  | nil => exact .pure (.inr ⟨rfl, rfl, rfl⟩)
  | cons ref rest =>
    let r₀ : Reader := { r with objCountsIndex := if r.counts = [] then 2 ^ 64 - 1 else r.counts.length - 1 }
    have hr₀ : r₀.InStep cx :=
      ⟨⟨⟨hr.segments, hr.point_le⟩, hr.objs, hr.allObjs, hr.heap⟩, hr.nodup, hr.entries, hr.objsLength, hr.counts,
        hr.initialised, hr.parents⟩
    refine .bind (.modify (.bind ((runs_getPair hr₀.toInBounds).imp ?_ fun _ _ h => h)))
    rintro ⟨tag, data⟩ _ ⟨rfl, htag, hle⟩
    refine .ite (fun hend => ?_) fun _ => ?_
    · -- `SCTAG_END_OF_KEYS` is no back reference
      refine (runs_endOfObject (r := r) (m := readPair cx) hr₀ rfl le_rfl (fun _ _ => Iff.rfl) (fun _ p _ hback => ?_) hobjs
        fun r₂ hr₂ hpoint hdata => ?_).imp (fun _ _ h => Or.inl h) fun _ _ h => h
      · have hword := (Prod.mk.inj htag).1
        have heq := StructuredDataType.code_injective ((hend.symm.trans hword).trans hback.1)
        simp at heq
      · refine (runs_readPair hr₂).imp ?_ fun _ _ h => h
        rintro _ _ ⟨⟨point, rfl, hpoint', hlength⟩, -⟩
        exact ⟨point, rfl, hpoint ▸ hpoint', hdata ▸ hlength⟩
    · have hdepth₀ : r₀.data.length < r₀.point + 8 * depth := hdepth
      refine runs_next hr₀ hdepth₀ fun key r₁ hnext hr₁ => ?_
      have hobjs₀ : r₀.objs = ref :: rest := hobjs
      refine .ite (fun hnull => ?_) fun _ => ?_
      · -- null at the end of an object, which has not been pushed
        have hobjs₁ : r₁.objs = ref :: rest := by
          obtain ⟨h, -⟩ | ⟨new, hkey, -⟩ := hnext.pushed
          · exact h.trans hobjs₀
          · simp [hnull.1] at hkey
        refine (runs_endOfObject (r := r) (m := (pure () : ReadOp Unit)) hr₁ hnext.data hnext.heap.length_le hnext.unadopted
          (fun _ p _ hback => ?_) hobjs₁ fun r₂ hr₂ hpoint hdata => ?_).imp (fun _ _ h => Or.inl h) fun _ _ h => h
        · have := hnext.back p hback
          simp [hnull.1] at this
        · exact .pure ⟨r₂.point, rfl, hpoint ▸ hnext.point, hdata ▸ hr₂.point_le⟩
      · refine .bind ((runs_readChild hr hdepth hobjs hnext hr₁).imp (fun _ _ h => ?_) fun _ _ h => h)
        exact .pure (.inl ⟨rfl, h⟩)

end ReadOp

end SpiderMonkey.StructuredClone
