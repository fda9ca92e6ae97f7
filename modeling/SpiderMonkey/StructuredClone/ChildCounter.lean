import SpiderMonkey.StructuredClone.ReadValue

/-!
# The stack and the `ChildCounter`

At the start of each round of the reader's loop there is a count for every saved frame on the stack, which
is zero as long as the frame has no parent, and the frames that are not on the stack have one.
-/

namespace SpiderMonkey.StructuredClone

open LittleEndian Script List

namespace Reader

open CloneObject

/-! ## The invariant -/

variable (heap : List (CloneObject ℕ))

def frameAt (ref : ℕ) : Bool := (heap[ref]?.map isSavedFrame).getD false

def Parent (a b : ℕ) : Prop := ∃ slots, heap[a]? = some (.savedFrame slots (.frame b))

/-- A saved frame has a parent if the count is not zero. -/
def Counted (ref count : ℕ) : Prop :=
  ∃ slots parent, heap[ref]? = some (.savedFrame slots parent) ∧ (count = 0 ↔ parent = .uninitialized)

/-- The stack, the counts and the parents of the saved frames are in step. -/
structure InStep (cx : ReadContext) (r : Reader) : Prop extends r.Valid cx where
  nodup : r.objs.Nodup
  entries : ∀ ref ∈ r.objs, ∃ c, r.heap[ref]? = some c ∧ c.hasEntries = true
  objsLength : r.objsLength = r.objs.length
  counts : List.Forall₂ (Counted r.heap) (r.objs.filter (frameAt r.heap)) r.counts
  initialised : ∀ ref slots, r.heap[ref]? = some (.savedFrame slots .uninitialized) → ref ∈ r.objs
  parents : ∀ a b, Parent r.heap a b → frameAt r.heap b = true

/-- A value has been read and counted. -/
structure Next (r : Reader) (v : CloneValue ℕ) (r' : Reader) : Prop where
  data : r'.data = r.data
  objCountsIndex : r'.objCountsIndex = r.objCountsIndex
  heap : r.heap <+: r'.heap
  point : r.point + 8 ≤ r'.point
  value : ∀ ref, v = .object ref → ref < r'.heap.length
  old : ∀ ref, v = .object ref → ref < r.heap.length → r.IsBackReference ref
  back : ∀ ref, r.IsBackReference ref → v = .object ref
  frames : ∀ i slots parent, r.heap.length ≤ i → r'.heap[i]? = some (.savedFrame slots parent) → parent = .uninitialized
  pushed : r'.objs = r.objs ∧ r'.counts = r.counts ∨
    ∃ ref, v = .object ref ∧ r.heap.length ≤ ref ∧ r'.objs = ref :: r.objs ∧
      (frameAt r'.heap ref = false ∧ r'.counts = r.counts ∨ frameAt r'.heap ref = true ∧ r'.counts = 0 :: r.counts)

variable {cx : ReadContext} {r r' : Reader} {v : CloneValue ℕ}

lemma frameAt_iff {heap : List (CloneObject ℕ)} {ref : ℕ} :
    frameAt heap ref = true ↔ ∃ slots parent, heap[ref]? = some (.savedFrame slots parent) := by
  unfold frameAt
  cases hc : heap[ref]? with
  | none => simp
  | some c => cases c <;> simp [isSavedFrame]

lemma topIsSavedFrame_cons {ref : ℕ} {objs : List ℕ} (h : r.objs = ref :: objs) :
    ReadOp.topIsSavedFrame r = frameAt r.heap ref := by
  unfold ReadOp.topIsSavedFrame frameAt
  rw [h]
  dsimp only
  cases hc : r.heap[ref]? with
  | none => rfl
  | some c => cases c <;> rfl

lemma getElem?_of_grows {heap heap' : List (CloneObject ℕ)} (h : heap <+: heap') {i : ℕ} (hi : i < heap.length) :
    heap'[i]? = heap[i]? := by
  obtain ⟨added, rfl⟩ := h
  exact getElem?_append_left hi

lemma frameAt_of_grows {heap heap' : List (CloneObject ℕ)} (h : heap <+: heap') {i : ℕ} (hi : i < heap.length) :
    frameAt heap' i = frameAt heap i := by
  unfold frameAt
  rw [getElem?_of_grows h hi]

lemma InStep.counts_of_grows (hr : r.InStep cx) {heap : List (CloneObject ℕ)} (h : r.heap <+: heap) :
    List.Forall₂ (Counted heap) (r.objs.filter (frameAt heap)) r.counts := by
  have hfilter : r.objs.filter (frameAt heap) = r.objs.filter (frameAt r.heap) :=
    filter_congr fun ref href => frameAt_of_grows h (hr.objs ref href)
  rw [hfilter]
  refine hr.counts.imp fun ref count ⟨slots, parent, hc, hcount⟩ => ⟨slots, parent, ?_, hcount⟩
  rwa [getElem?_of_grows h (List.getElem?_eq_some_iff.1 hc).1]

/-! ## Changing an object -/

lemma Valid.setObject (hr : r.Valid cx) {ref : ℕ} {c' : CloneObject ℕ} (hrefs : ∀ o ∈ c'.refs, o < r.heap.length) :
    (r.setObject ref c').Valid cx := by
  have hlength : (r.heap.set ref c').length = r.heap.length := length_set
  refine ⟨⟨hr.segments, hr.point_le⟩, fun o ho => hlength.symm ▸ hr.objs o ho,
    fun o ho => hlength.symm ▸ hr.allObjs o ho, fun c₁ hc₁ o ho => hlength.symm ▸ ?_⟩
  obtain hmem | rfl := mem_or_eq_of_mem_set hc₁
  · exact hr.heap c₁ hmem o ho
  · exact hrefs o ho

lemma InStep.entries_set (hr : r.InStep cx) {ref : ℕ} {c' : CloneObject ℕ} (hlt : ref < r.heap.length)
    (hentries : c'.hasEntries = true) (o : ℕ) (ho : o ∈ r.objs) :
    ∃ c, (r.heap.set ref c')[o]? = some c ∧ c.hasEntries = true := by
  obtain rfl | hne := eq_or_ne ref o
  · simp [hlt, hentries]
  · obtain ⟨c₁, hc₁, hent⟩ := hr.entries o ho
    simp [hne, hc₁, hent]

/-- The saved frames are the same if an object that is none takes the place of another one. -/
lemma getElem?_set_savedFrame {ref : ℕ} {c c' : CloneObject ℕ} (hc : r.heap[ref]? = some c)
    (hframe : c.isSavedFrame = false) (hframe' : c'.isSavedFrame = false) (i : ℕ) (slots : FrameSlots)
    (parent : ParentSlot ℕ) :
    (r.heap.set ref c')[i]? = some (.savedFrame slots parent) ↔ r.heap[i]? = some (.savedFrame slots parent) := by
  obtain rfl | hne := eq_or_ne ref i
  · rw [getElem?_set_self (List.getElem?_eq_some_iff.1 hc).1, hc]
    constructor
    · intro h
      rw [Option.some.inj h] at hframe'
      exact absurd hframe' (by simp [isSavedFrame])
    · intro h
      rw [Option.some.inj h] at hframe
      exact absurd hframe (by simp [isSavedFrame])
  · simp [hne]

lemma InStep.setObject (hr : r.InStep cx) {ref : ℕ} {c c' : CloneObject ℕ} (hc : r.heap[ref]? = some c)
    (hframe : c.isSavedFrame = false) (hframe' : c'.isSavedFrame = false) (hentries : c'.hasEntries = true)
    (hrefs : ∀ o ∈ c'.refs, o < r.heap.length) : (r.setObject ref c').InStep cx := by
  have hget := getElem?_set_savedFrame hc hframe hframe'
  have hframeAt (i : ℕ) : frameAt (r.heap.set ref c') i = frameAt r.heap i :=
    Bool.eq_iff_iff.2 (by simp only [frameAt_iff, hget])
  refine ⟨hr.toValid.setObject hrefs, hr.nodup, hr.entries_set (List.getElem?_eq_some_iff.1 hc).1 hentries,
    hr.objsLength, ?_, fun o slots hc₁ => hr.initialised o slots ((hget o slots _).1 hc₁),
    fun a b ⟨slots, hc₁⟩ => (hframeAt b).trans (hr.parents a b ⟨slots, (hget a slots _).1 hc₁⟩)⟩
  change List.Forall₂ (Counted (r.heap.set ref c')) (r.objs.filter (frameAt (r.heap.set ref c'))) r.counts
  rw [filter_congr fun o _ => hframeAt o]
  exact hr.counts.imp fun o count ⟨slots, parent, hc₁, hcount⟩ => ⟨slots, parent, (hget o slots parent).2 hc₁, hcount⟩

lemma forall₂_update {R R' : ℕ → ℕ → Prop} {before after : List ℕ} {ref count count' : ℕ}
    {countsBefore countsAfter : List ℕ} (hlength : before.length = countsBefore.length)
    (h : List.Forall₂ R (before ++ ref :: after) (countsBefore ++ count :: countsAfter))
    (hothers : ∀ o ∈ before ++ after, ∀ n, R o n → R' o n) (href : R ref count → R' ref count') :
    List.Forall₂ R' (before ++ ref :: after) (countsBefore ++ count' :: countsAfter) := by
  induction before generalizing countsBefore with
  | nil =>
    cases countsBefore with
    | nil =>
      rw [nil_append, nil_append, forall₂_cons] at h ⊢
      refine ⟨href h.1, ?_⟩
      have hmem := (forall₂_and_left (p := (· ∈ after)) after countsAfter).2 ⟨fun _ h => h, h.2⟩
      exact hmem.imp fun o n ho => hothers o ho.1 n ho.2
    | cons n ns => simp at hlength
  | cons o before ih =>
    cases countsBefore with
    | nil => simp at hlength
    | cons n ns =>
      rw [cons_append, cons_append, forall₂_cons] at h ⊢
      exact ⟨hothers o (by simp) n h.1, ih (by simpa using hlength) h.2
        fun o' ho' => hothers o' (mem_cons_of_mem _ ho')⟩

/-! ## Ends and parents -/

lemma InStep.pop (hr : r.InStep cx) {ref : ℕ} {rest counts : List ℕ} (hobjs : r.objs = ref :: rest)
    (hcounts : List.Forall₂ (Counted r.heap) (rest.filter (frameAt r.heap)) counts)
    (hparent : ∀ slots, r.heap[ref]? ≠ some (.savedFrame slots .uninitialized)) {point : ℕ}
    (hpoint : point ≤ r.data.length) :
    InStep cx { r with objsLength := rest.length, counts := counts, point := point, objs := r.objs.tail } := by
  have htail : r.objs.tail = rest := by rw [hobjs]; rfl
  rw [htail]
  have hmem (o : ℕ) (ho : o ∈ rest) : o ∈ r.objs := hobjs ▸ mem_cons_of_mem _ ho
  refine ⟨⟨⟨hr.segments, hpoint⟩, fun o ho => hr.objs o (hmem o ho), hr.allObjs, hr.heap⟩, ?_,
    fun o ho => hr.entries o (hmem o ho), rfl, hcounts, fun o slots hc => ?_, hr.parents⟩
  · exact (nodup_cons.1 (hobjs ▸ hr.nodup)).2
  · have ho := hr.initialised o slots hc
    rw [hobjs] at ho
    obtain rfl | ho := mem_cons.1 ho
    · exact absurd hc (hparent slots)
    · exact ho

lemma InStep.setCount (hr : r.InStep cx) {before after countsBefore countsAfter : List ℕ} {ref count : ℕ}
    (hfilter : r.objs.filter (frameAt r.heap) = before ++ ref :: after)
    (hcounts : r.counts = countsBefore ++ count :: countsAfter) (hlength : before.length = countsBefore.length)
    (hcount : count ≠ 0) :
    InStep cx { r with counts := countsBefore ++ (count + 1) :: countsAfter } := by
  refine ⟨⟨⟨hr.segments, hr.point_le⟩, hr.objs, hr.allObjs, hr.heap⟩, hr.nodup, hr.entries, hr.objsLength, ?_,
    hr.initialised, hr.parents⟩
  have h := hr.counts
  rw [hfilter, hcounts] at h
  change List.Forall₂ (Counted r.heap) (r.objs.filter (frameAt r.heap)) _
  rw [hfilter]
  refine forall₂_update hlength h (fun _ _ _ h => h) fun ⟨slots, parent, hc, hiff⟩ => ⟨slots, parent, hc, ?_⟩
  constructor
  · simp
  · intro h
    exact absurd (hiff.2 h) hcount

lemma InStep.setParent (hr : r.InStep cx) {before after countsBefore countsAfter : List ℕ} {ref : ℕ}
    {slots : FrameSlots} {parent : ParentSlot ℕ} (hc : r.heap[ref]? = some (.savedFrame slots .uninitialized))
    (hfilter : r.objs.filter (frameAt r.heap) = before ++ ref :: after)
    (hcounts : r.counts = countsBefore ++ 0 :: countsAfter) (hlength : before.length = countsBefore.length)
    (hparent : parent ≠ .uninitialized) (hrefs : ∀ o ∈ parent.toValue.object?.toList, o < r.heap.length)
    (hframe : ∀ p, parent = .frame p → frameAt r.heap p = true) :
    (Reader.setObject ref (.savedFrame slots parent)
      { r with counts := countsBefore ++ (0 + 1) :: countsAfter }).InStep cx := by
  have hlt : ref < r.heap.length := (List.getElem?_eq_some_iff.1 hc).1
  have hframeAt (i : ℕ) : frameAt (r.heap.set ref (.savedFrame slots parent)) i = frameAt r.heap i := by
    unfold frameAt
    obtain rfl | hne := eq_or_ne ref i
    · rw [getElem?_set_self hlt, hc]
      rfl
    · rw [getElem?_set_ne hne]
  have hnodup : (before ++ ref :: after).Nodup := hfilter ▸ hr.nodup.filter _
  have hvalid := @Valid.setObject _ _ hr.toValid ref (.savedFrame slots parent) hrefs
  refine ⟨⟨⟨hr.segments, hr.point_le⟩, hvalid.objs, hvalid.allObjs, hvalid.heap⟩, hr.nodup, hr.entries_set hlt rfl, hr.objsLength, ?_, fun o slots' hc₁ => ?_,
    fun a b ⟨slots', hc₁⟩ => ?_⟩
  · change List.Forall₂ (Counted (r.heap.set ref (.savedFrame slots parent)))
      (r.objs.filter (frameAt (r.heap.set ref (.savedFrame slots parent)))) _
    have h := hr.counts
    rw [filter_congr fun o _ => hframeAt o, hfilter]
    rw [hfilter, hcounts] at h
    refine forall₂_update hlength h (fun o ho n ⟨slots', parent', hc', hiff⟩ => ?_) fun _ => ?_
    · have hne : ref ≠ o := by
        rintro rfl
        have := nodup_middle.1 hnodup
        exact (nodup_cons.1 this).1 ho
      exact ⟨slots', parent', (getElem?_set_ne hne).trans hc', hiff⟩
    · exact ⟨slots, parent, getElem?_set_self hlt, by simp [hparent]⟩
  · have hc₂ : (r.heap.set ref (.savedFrame slots parent))[o]? = some (.savedFrame slots' .uninitialized) := hc₁
    obtain rfl | hne := eq_or_ne ref o
    · rw [getElem?_set_self hlt] at hc₂
      exact absurd (savedFrame.inj (Option.some.inj hc₂)).2 hparent
    · rw [getElem?_set_ne hne] at hc₂
      exact hr.initialised o slots' hc₂
  · refine (hframeAt b).trans ?_
    have hc₂ : (r.heap.set ref (.savedFrame slots parent))[a]? = some (.savedFrame slots' (.frame b)) := hc₁
    obtain rfl | hne := eq_or_ne ref a
    · rw [getElem?_set_self hlt] at hc₂
      exact hframe b (savedFrame.inj (Option.some.inj hc₂)).2
    · rw [getElem?_set_ne hne] at hc₂
      exact hr.parents a b ⟨slots', hc₂⟩

/-- The object on top of the stack is a saved frame that has no parent yet. -/
def Waits (r : Reader) (ref : ℕ) : Prop :=
  (∃ rest, r.objs = ref :: rest) ∧ ∃ slots, r.heap[ref]? = some (.savedFrame slots .uninitialized)

/-- A round that changes no saved frame. -/
def Unadopted (r r' : Reader) : Prop := ∀ a b, Parent r'.heap a b ↔ Parent r.heap a b

lemma unadopted_setObject {ref : ℕ} {c c' : CloneObject ℕ} (hc : r.heap[ref]? = some c)
    (hframe : c.isSavedFrame = false) (hframe' : c'.isSavedFrame = false) : Unadopted r (r.setObject ref c') :=
  fun a _ => exists_congr fun slots => getElem?_set_savedFrame hc hframe hframe' a slots _

lemma Next.unadopted {r' : Reader} {v : CloneValue ℕ} (h : Next r v r') : Unadopted r r' := by
  intro a b
  refine exists_congr fun slots => ?_
  obtain hlt | hle := Nat.lt_or_ge a r.heap.length
  · rw [getElem?_of_grows h.heap hlt]
  · constructor
    · intro hc
      have := h.frames a slots _ hle hc
      simp at this
    · intro hc
      exact absurd (List.getElem?_eq_some_iff.1 hc).1 (Nat.not_lt.2 hle)

lemma Unadopted.trans {r' r'' : Reader} (h : Unadopted r r') (h' : Unadopted r' r'') : Unadopted r r'' :=
  fun a b => (h' a b).trans (h a b)

end Reader

namespace ReadOp

open Reader

variable {cx : ReadContext} {r : Reader}

/-! ## Reading a value and counting it -/

/-- The invariant holds again once a value has been counted. -/
lemma runs_next {β : Type} {depth : ℕ} {f : CloneValue ℕ → ReadOp β} {Q : β → Reader → Prop}
    (hr : r.InStep cx) (hdepth : r.data.length < r.point + 8 * depth)
    (hf : ∀ v r', Next r v r' → r'.InStep cx → Runs (f v) r' Q fun _ _ => True) :
    Runs (startRead cx depth >>= fun v => postStartRead >>= fun _ => f v) r Q fun _ _ => True := by
  refine .bind ((runs_startRead depth hr.toValid hdepth).imp ?_ fun _ _ h => h)
  rintro v r₁ ⟨⟨h, hvalid⟩, hback⟩
  have hframes (i : ℕ) (slots : FrameSlots) (parent : ParentSlot ℕ) (hi : r.heap.length ≤ i)
      (hc : r₁.heap[i]? = some (.savedFrame slots parent)) :
      parent = .uninitialized ∧ r₁.objs = i :: r.objs := by
    obtain ⟨hobjs, slots', heq⟩ := h.frames i _ hi hc rfl
    exact ⟨(CloneObject.savedFrame.inj heq).2, hobjs⟩
  have hentries (ref : ℕ) (href : ref ∈ r.objs) : ∃ c, r₁.heap[ref]? = some c ∧ c.hasEntries = true := by
    obtain ⟨c, hc, hent⟩ := hr.entries ref href
    exact ⟨c, by rwa [h.toKept.getElem? (hr.objs ref href)], hent⟩
  have hold (ref : ℕ) (slots : FrameSlots) (hlt : ref < r.heap.length)
      (hc : r₁.heap[ref]? = some (.savedFrame slots .uninitialized)) : ref ∈ r.objs := by
    rw [h.toKept.getElem? hlt] at hc
    exact hr.initialised ref slots hc
  have hparents (a b : ℕ) (hp : Parent r₁.heap a b) : frameAt r₁.heap b = true := by
    obtain ⟨slots, hc⟩ := hp
    obtain hlt | hle := Nat.lt_or_ge a r.heap.length
    · rw [h.toKept.getElem? hlt] at hc
      have hb := hr.parents a b ⟨slots, hc⟩
      obtain ⟨slots', parent, hc'⟩ := frameAt_iff.1 hb
      rwa [frameAt_of_grows h.heap (List.getElem?_eq_some_iff.1 hc').1]
    · exact absurd (hframes a slots _ hle hc).1 (by simp)
  have hcounts := hr.counts_of_grows h.heap
  refine .bind (.bind (.get ?_))
  obtain hobjs | ⟨ref, c, rfl, hobjs, hle, hc, hent⟩ := h.pushed
  · refine .ite (fun _ => .pure (hf v r₁ ?_ ?_)) fun hne => absurd ?_ hne
    · exact
        { h with
          back := hback
          frames := fun i slots parent hi hc => (hframes i slots parent hi hc).1
          pushed := .inl ⟨hobjs, h.counts⟩ }
    · refine ⟨hvalid, hobjs ▸ hr.nodup, hobjs ▸ hentries, ?_, ?_, fun ref slots hc => ?_, hparents⟩
      · rw [h.objsLength, hobjs, hr.objsLength]
      · rw [hobjs, h.counts]
        exact hcounts
      · obtain hlt | hle := Nat.lt_or_ge ref r.heap.length
        · exact hobjs ▸ hold ref slots hlt hc
        · have hpush := (hframes ref slots _ hle hc).2
          rw [hobjs] at hpush
          simpa using congrArg List.length hpush
    · rw [hobjs, h.objsLength, hr.objsLength]
  · have hlength : r₁.objs.length = r₁.objsLength + 1 := by
      rw [hobjs, h.objsLength, hr.objsLength, length_cons]
    have htop : topIsSavedFrame r₁ = frameAt r₁.heap ref := topIsSavedFrame_cons hobjs
    refine .ite (fun heq => absurd heq (by omega)) fun _ => .bind (.assert hlength (.modify (hf _ _ ?_ ?_)))
    · exact
        { h with
          back := hback
          frames := fun i slots parent hi hc => (hframes i slots parent hi hc).1
          pushed := by
            refine .inr ⟨ref, rfl, hle, hobjs, ?_⟩
            rw [htop, h.counts]
            by_cases hframe : frameAt r₁.heap ref = true
            · exact .inr ⟨hframe, if_pos hframe⟩
            · exact .inl ⟨Bool.eq_false_of_not_eq_true hframe, if_neg hframe⟩ }
    · have hnew : ref ∉ r.objs := fun hmem => absurd (hr.objs ref hmem) (Nat.not_lt.2 hle)
      refine ⟨⟨⟨hvalid.segments, hvalid.point_le⟩, hvalid.objs, hvalid.allObjs, hvalid.heap⟩, ?_, fun ref' href' => ?_, ?_, ?_,
        fun ref' slots hc' => ?_, hparents⟩
      · change r₁.objs.Nodup
        rw [hobjs]
        exact nodup_cons.2 ⟨hnew, hr.nodup⟩
      · have hmem : ref' ∈ ref :: r.objs := hobjs ▸ href'
        obtain rfl | hmem := mem_cons.1 hmem
        · exact ⟨c, hc, hent⟩
        · exact hentries ref' hmem
      · rfl
      · change List.Forall₂ (Counted r₁.heap) (r₁.objs.filter (frameAt r₁.heap))
          (if topIsSavedFrame r₁ = true then 0 :: r₁.counts else r₁.counts)
        rw [hobjs, htop, h.counts]
        by_cases hframe : frameAt r₁.heap ref = true
        · rw [if_pos hframe, filter_cons_of_pos hframe]
          obtain ⟨slots, parent, hslots⟩ := frameAt_iff.1 hframe
          refine .cons ⟨slots, parent, hslots, fun _ => (hframes ref slots parent hle hslots).1, fun _ => rfl⟩ hcounts
        · simpa [hframe] using hcounts
      · change ref' ∈ r₁.objs
        rw [hobjs]
        obtain hlt | hle' := Nat.lt_or_ge ref' r.heap.length
        · exact mem_cons_of_mem _ (hold ref' slots hlt hc')
        · have heq := (hframes ref' slots _ hle' hc').2.symm.trans hobjs
          exact mem_cons.2 (.inl (List.cons.inj heq).1)

/-! ## The end of an object -/

/-- The counts without that of the object on top of the stack. -/
lemma runs_handleEndOfChildren (hr : r.InStep cx) {ref : ℕ} {rest : List ℕ} (hobjs : r.objs = ref :: rest) :
    Runs handleEndOfChildren r (fun _ r' => ∃ counts, r' = { r with objsLength := rest.length, counts := counts } ∧
      List.Forall₂ (Counted r.heap) (rest.filter (frameAt r.heap)) counts ∧
      ∀ slots, r.heap[ref]? ≠ some (.savedFrame slots .uninitialized)) fun _ _ => True := by
  have hlength : r.objsLength = rest.length + 1 := by rw [hr.objsLength, hobjs, length_cons]
  have hcounts := hr.counts
  rw [hobjs] at hcounts
  refine .bind (.get (.bind (.assert (by omega) (.bind (.modify ?_)))))
  rw [topIsSavedFrame_cons hobjs, hlength]
  refine .ite (fun hframe => ?_) fun hframe => .pure ⟨r.counts, rfl, ?_, fun slots hc => ?_⟩
  · rw [filter_cons_of_pos hframe] at hcounts
    cases hcs : r.counts with
    | nil => simp [hcs] at hcounts
    | cons count counts =>
      rw [hcs, forall₂_cons] at hcounts
      refine .ite (fun _ => .throw trivial) fun hone => .modify ⟨counts, rfl, hcounts.2, fun slots hc => ?_⟩
      obtain ⟨slots', parent, hc', hcount⟩ := hcounts.1
      have hparent := (CloneObject.savedFrame.inj (Option.some.inj (hc'.symm.trans hc))).2
      have := hcount.2 hparent
      omega
  · rwa [filter_cons_of_neg hframe] at hcounts
  · exact hframe (frameAt_iff.2 ⟨_, _, hc⟩)

/-- Count a parent of the frame that was on top of the stack, of which there were `counts`. -/
lemma runs_checkSingleParentFrame {before : List ℕ} {count : ℕ} {counts : List ℕ}
    (hcounts : r.counts = before ++ count :: counts) (hindex : r.objCountsIndex = counts.length) :
    Runs checkSingleParentFrame r (fun first r' => first = decide (count + 1 = 1) ∧
      r' = { r with counts := before ++ (count + 1) :: counts }) fun _ _ => True := by
  have hlt : r.objCountsIndex < r.counts.length := by
    rw [hindex, hcounts, List.length_append, length_cons]
    omega
  have hposition : r.counts.length - 1 - r.objCountsIndex = before.length := by
    rw [hindex, hcounts, List.length_append, length_cons]
    omega
  refine .bind (.get (.bind (.assert hlt (.bind (.modify (.pure ?_))))))
  rw [hposition]
  have hget : r.counts.getD before.length 0 = count := by
    simp [hcounts]
  rw [hget]
  refine ⟨rfl, ?_⟩
  simp [hcounts]

/-! ## Entries -/

lemma mem_insertProperty {id : Id} {v : CloneValue ℕ} {properties : List (Id × CloneValue ℕ)}
    {p : Id × CloneValue ℕ} (h : p ∈ insertProperty id v properties) : p = (id, v) ∨ p ∈ properties := by
  induction properties with
  | nil => exact .inl (mem_singleton.1 h)
  | cons p' rest ih =>
    obtain ⟨id', v'⟩ := p'
    have hkeep (h : p ∈ (id', v') :: insertProperty id v rest) : p = (id, v) ∨ p ∈ (id', v') :: rest := by
      obtain rfl | h := mem_cons.1 h
      · simp
      · exact (ih h).imp_right (mem_cons_of_mem _)
    unfold insertProperty at h
    split at h
    · split_ifs at h
      · exact mem_cons.1 h
      · exact hkeep h
    · exact mem_cons.1 h
    · exact hkeep h

lemma mem_putProperty {id : Id} {v : CloneValue ℕ} {properties : List (Id × CloneValue ℕ)}
    {p : Id × CloneValue ℕ} (h : p ∈ putProperty id v properties) : p = (id, v) ∨ p ∈ properties := by
  unfold putProperty at h
  split_ifs at h
  · obtain ⟨p', hp', rfl⟩ := mem_map.1 h
    split_ifs
    · exact .inl rfl
    · exact .inr hp'
  · exact mem_insertProperty h

lemma mem_putEntry {key v : CloneValue ℕ} {entries : List (CloneValue ℕ × CloneValue ℕ)}
    {e : CloneValue ℕ × CloneValue ℕ} (h : e ∈ putEntry key v entries) : e = (key, v) ∨ e ∈ entries := by
  unfold putEntry at h
  split_ifs at h
  · obtain ⟨e', he', rfl⟩ := mem_map.1 h
    split_ifs
    · exact .inl rfl
    · exact .inr he'
  · exact (mem_append.1 h).symm.imp_left mem_singleton.1

lemma hashableValue_object? (v : CloneValue ℕ) : (hashableValue v).object? = v.object? := by
  cases v with
  | double d =>
    have hnone (P : Prop) [Decidable P] (i) (d') :
        (if P then (CloneValue.int32 i : CloneValue ℕ) else .double d').object? = none := by
      split_ifs <;> rfl
    exact hnone _ _ _
  | string s => simp only [hashableValue, CloneValue.object?]
  | _ => rfl

lemma lt_of_mem_putProperty {n : ℕ} {id : Id} {v : CloneValue ℕ} {properties : List (Id × CloneValue ℕ)}
    (hv : ∀ o, v = .object o → o < n) (h : ∀ o ∈ properties.filterMap fun p => p.2.object?, o < n) :
    ∀ o ∈ (putProperty id v properties).filterMap fun p => p.2.object?, o < n := by
  intro o ho
  obtain ⟨p, hp, heq⟩ := mem_filterMap.1 ho
  obtain rfl | hp := mem_putProperty hp
  · cases v with
    | object o' => exact Option.some.inj heq ▸ hv o' rfl
    | _ => simp [CloneValue.object?] at heq
  · exact h o (mem_filterMap.2 ⟨p, hp, heq⟩)

/-- Where the entry of an object that is no saved frame goes. -/
def Entered (cx : ReadContext) (r r' : Reader) : Prop :=
  r'.InStep cx ∧ r'.data = r.data ∧ r'.point = r.point ∧ r.heap.length ≤ r'.heap.length ∧ Unadopted r r'

lemma runs_setObject (hr : r.InStep cx) {ref : ℕ} {c c' : CloneObject ℕ} (hc : r.heap[ref]? = some c)
    (hframe : c.isSavedFrame = false) (hframe' : c'.isSavedFrame = false) (hentries : c'.hasEntries = true)
    (hrefs : ∀ o ∈ c'.refs, o < r.heap.length) :
    Runs (Script.modify (Reader.setObject ref c') : ReadOp Unit) r (fun _ => Entered cx r) fun _ _ => True :=
  .modify ⟨hr.setObject hc hframe hframe' hentries hrefs, rfl, rfl, length_set.ge,
    unadopted_setObject hc hframe hframe'⟩

lemma runs_defineDataProperty (hr : r.InStep cx) {ref : ℕ} {c : CloneObject ℕ} (hc : r.heap[ref]? = some c)
    (hkind : (∃ properties, c = .plain properties) ∨ ∃ length properties, c = .array length properties) (id : Id)
    {v : CloneValue ℕ} (hv : ∀ o, v = .object o → o < r.heap.length) :
    Runs (defineDataProperty ref id v) r (fun _ => Entered cx r) fun _ _ => True := by
  have hrefs := hr.heap c (mem_of_getElem? hc)
  refine .bind (.get ?_)
  rw [hc]
  obtain ⟨properties, rfl⟩ | ⟨length, properties, rfl⟩ := hkind
  · exact runs_setObject hr hc rfl rfl rfl (lt_of_mem_putProperty hv hrefs)
  · exact .ite (fun _ => .throw trivial) fun _ =>
      runs_setObject hr hc rfl rfl rfl (lt_of_mem_putProperty hv hrefs)

end ReadOp

end SpiderMonkey.StructuredClone
