import SpiderMonkey.Gc.ElementOperations

/-!
# The remembered set

Between two minor collections, every slot and every initialized element of a tenured object that holds a cell of the
nursery is traced from the store buffer (`rememberedSet_complete`), although the edges give places from the time of
the write, and are clamped by the header when they are traced.
-/

namespace SpiderMonkey.Gc

/-! ## Tracing an edge -/

namespace SlotsEdge

variable (edge : SlotsEdge) (obj : NativeObject)

/-- The index of an element now, and at most the initialized length. -/
def clamp (place : ℕ) : ℕ :=
  min (if obj.numShifted < place then place - obj.numShifted else 0) obj.initializedLength

/-- The first slot or element that is traced, and how many there are; these are numbers with 32 bits. -/
def trace : ℕ × ℕ :=
  match edge.kind with
  | .element =>
    let clampedStart := clamp obj edge.start
    let clampedEnd := clamp obj ((edge.start + edge.count) % 2 ^ 32)
    (clampedStart, (clampedEnd + 2 ^ 32 - clampedStart) % 2 ^ 32)
  | .slot =>
    let start := min edge.start obj.slotSpan
    let stop := min ((edge.start + edge.count) % 2 ^ 32) obj.slotSpan
    (start, (stop + 2 ^ 32 - start) % 2 ^ 32)

def Visits (index : ℕ) : Prop :=
  (edge.trace obj).1 ≤ index ∧ index < (edge.trace obj).1 + (edge.trace obj).2

variable {edge obj}

/-- How many there are between two numbers. -/
lemma sub_mod {start stop : ℕ} (hle : start ≤ stop) (hstop : stop < 2 ^ 32) :
    (stop + 2 ^ 32 - start) % 2 ^ 32 = stop - start := by
  omega

lemma visits_slot_iff (hkind : edge.kind = .slot) (hedge : edge.InRange) (index : ℕ) :
    edge.Visits obj index ↔ edge.start ≤ index ∧ index < edge.start + edge.count ∧ index < obj.slotSpan := by
  obtain ⟨hcount, hrange⟩ := hedge
  rw [Visits, trace, hkind]
  dsimp only
  omega

lemma visits_element_iff (hkind : edge.kind = .element) (hedge : edge.InRange) (index : ℕ) :
    edge.Visits obj index ↔ edge.start ≤ index + obj.numShifted ∧
      index + obj.numShifted < edge.start + edge.count ∧ index < obj.initializedLength := by
  obtain ⟨hcount, hrange⟩ := hedge
  have hstart : clamp obj edge.start = min (edge.start - obj.numShifted) obj.initializedLength := by
    rw [clamp]
    split_ifs <;> omega
  have hstop : clamp obj (edge.start + edge.count) =
      min (edge.start + edge.count - obj.numShifted) obj.initializedLength := by
    rw [clamp]
    split_ifs <;> omega
  rw [Visits, trace, hkind]
  dsimp only
  rw [Nat.mod_eq_of_lt (by omega : edge.start + edge.count < 2 ^ 32), hstart, hstop, sub_mod (by omega) (by omega)]
  omega

end SlotsEdge

/-! ## Runs -/

inductive Operation
  | setSlot (slot : ℕ) (v : HeapValue)
  | initSlotRange (start : ℕ) (values : List HeapValue)
  | setSlotSpan (span : ℕ) (garbage : ℕ → HeapValue)
  | setDenseElement (index : ℕ) (v : HeapValue)
  | copyDenseElements (needsIncrementalBarrier : Bool) (dstStart : ℕ) (src : List HeapValue)
  | initDenseElements (src : List HeapValue)
  | moveDenseElements (needsIncrementalBarrier : Bool) (dstStart srcStart count : ℕ)
  | moveDenseElementsNoPreBarrier (dstStart srcStart count : ℕ)
  | reverseDenseElementsNoPreBarrier (length : ℕ)
  | ensureDenseInitializedLength (index extra : ℕ)
  | setInitializedLength (length : ℕ)
  | appendDenseElements (values : List HeapValue)
  | tryShiftDenseElements (needsIncrementalBarrier : Bool) (count : ℕ) (garbage : ℕ → HeapValue)
  | tryUnshiftDenseElements (needsIncrementalBarrier : Bool) (count : ℕ) (garbage garbage' : ℕ → HeapValue)
  | moveShiftedElements (needsIncrementalBarrier : Bool)
  | maybeMoveShiftedElements (needsIncrementalBarrier : Bool)
  | growElements (needsIncrementalBarrier : Bool) (reqCapacity : ℕ) (ok : Bool) (garbage : ℕ → HeapValue)
  | shrinkElements (needsIncrementalBarrier : Bool) (reqCapacity : ℕ) (ok : Bool) (garbage : ℕ → HeapValue)
  | shrinkCapacityToInitializedLength (needsIncrementalBarrier ok : Bool) (garbage : ℕ → HeapValue)

/-- What the operation asserts, and what its callers have to see to. -/
def NativeObject.Allows (obj : NativeObject) : Operation → Prop
  | .setSlot slot _ => slot < MAX_SLOTS_COUNT
  | .initSlotRange start values => start + values.length ≤ MAX_SLOTS_COUNT
  | .setSlotSpan span _ => span ≤ MAX_SLOTS_COUNT
  | .setDenseElement index _ => index < obj.initializedLength
  | .copyDenseElements _ dstStart src => dstStart + src.length ≤ obj.capacity
  | .initDenseElements src => obj.initializedLength = 0 ∧ src.length ≤ obj.capacity
  | .moveDenseElements _ dstStart srcStart count =>
    dstStart + count ≤ obj.capacity ∧ srcStart + count ≤ obj.initializedLength
  | .moveDenseElementsNoPreBarrier dstStart srcStart count =>
    dstStart + count ≤ obj.capacity ∧ srcStart + count ≤ obj.capacity
  | .reverseDenseElementsNoPreBarrier length => 1 < length ∧ length ≤ obj.initializedLength
  | .ensureDenseInitializedLength index extra => index + extra ≤ obj.capacity
  | .setInitializedLength length => length ≤ obj.initializedLength
  | .appendDenseElements values => obj.initializedLength + values.length ≤ obj.capacity
  | .tryShiftDenseElements _ count _ => 0 < count ∧ count ≤ obj.initializedLength
  | .tryUnshiftDenseElements _ count _ _ => 0 < count
  | .moveShiftedElements _ => 0 < obj.numShifted
  | .maybeMoveShiftedElements _ => 0 < obj.numShifted
  | .growElements _ reqCapacity _ _ => obj.capacity < reqCapacity ∧ reqCapacity < 2 ^ 32 ∧
    (obj.hasNonwritableArrayLength = true → reqCapacity ≤ MAX_DENSE_ELEMENTS_COUNT)
  | .shrinkElements _ reqCapacity _ _ => obj.initializedLength ≤ reqCapacity
  | .shrinkCapacityToInitializedLength _ _ _ => True

namespace ObjectHeap

def apply (s : ObjectHeap) (o : ℕ) : Operation → ObjectHeap
  | .setSlot slot v => s.setSlot o slot v
  | .initSlotRange start values => s.initSlotRange o start values
  | .setSlotSpan span garbage => s.setObject o ((s.objects o).setSlotSpan span garbage)
  | .setDenseElement index v => s.setDenseElement o index v
  | .copyDenseElements needsIncrementalBarrier dstStart src =>
    s.copyDenseElements o needsIncrementalBarrier dstStart src
  | .initDenseElements src => s.initDenseElements o src
  | .moveDenseElements needsIncrementalBarrier dstStart srcStart count =>
    s.moveDenseElements o needsIncrementalBarrier dstStart srcStart count
  | .moveDenseElementsNoPreBarrier dstStart srcStart count =>
    s.moveDenseElementsNoPreBarrier o dstStart srcStart count
  | .reverseDenseElementsNoPreBarrier length => s.reverseDenseElementsNoPreBarrier o length
  | .ensureDenseInitializedLength index extra => s.ensureDenseInitializedLength o index extra
  | .setInitializedLength length => s.setInitializedLength o length
  | .appendDenseElements values => s.appendDenseElements o values
  | .tryShiftDenseElements needsIncrementalBarrier count garbage =>
    s.tryShiftDenseElements o needsIncrementalBarrier count garbage
  | .tryUnshiftDenseElements needsIncrementalBarrier count garbage garbage' =>
    s.tryUnshiftDenseElements o needsIncrementalBarrier count garbage garbage'
  | .moveShiftedElements needsIncrementalBarrier => s.moveShiftedElements o needsIncrementalBarrier
  | .maybeMoveShiftedElements needsIncrementalBarrier => s.maybeMoveShiftedElements o needsIncrementalBarrier
  | .growElements needsIncrementalBarrier reqCapacity ok garbage =>
    s.growElements o needsIncrementalBarrier reqCapacity ok garbage
  | .shrinkElements needsIncrementalBarrier reqCapacity ok garbage =>
    s.shrinkElements o needsIncrementalBarrier reqCapacity ok garbage
  | .shrinkCapacityToInitializedLength needsIncrementalBarrier ok garbage =>
    s.shrinkCapacityToInitializedLength o needsIncrementalBarrier ok garbage

def run (s : ObjectHeap) : List (ℕ × Operation) → ObjectHeap
  | [] => s
  | (o, op) :: rest => run (s.apply o op) rest

def AllowsAll (s : ObjectHeap) : List (ℕ × Operation) → Prop
  | [] => True
  | (o, op) :: rest => (s.objects o).Allows op ∧ (s.apply o op).AllowsAll rest

/-- After a minor collection: nothing that is tenured refers to the nursery, and nothing is remembered. -/
structure AfterMinorGC (s : ObjectHeap) : Prop where
  buffer : s.bufferSlot = MonoTypeBuffer.empty
  sizes : ∀ o, (s.objects o).Sizes
  slots : ∀ o, (s.objects o).isTenured = true → ∀ i < (s.objects o).slotSpan, ((s.objects o).slots i).isNursery = false
  elements : ∀ o, (s.objects o).isTenured = true → ∀ i < (s.objects o).initializedLength,
    ((s.objects o).element i).isNursery = false

/-- What the collector finds in the store buffer. -/
structure Remembered (s : ObjectHeap) : Prop where
  slots : ∀ o, (s.objects o).isTenured = true → ∀ i < (s.objects o).slotSpan, ((s.objects o).slots i).isNursery = true →
      ∃ edge, s.bufferSlot.Has edge ∧ edge.object = o ∧ edge.kind = .slot ∧ edge.Visits (s.objects o) i
  elements : ∀ o, (s.objects o).isTenured = true → ∀ i < (s.objects o).initializedLength,
    ((s.objects o).element i).isNursery = true →
      ∃ edge, s.bufferSlot.Has edge ∧ edge.object = o ∧ edge.kind = .element ∧ edge.Visits (s.objects o) i
  tenured : ∀ edge, s.bufferSlot.Has edge → (s.objects edge.object).isTenured = true
  slotsExact : ∀ edge, s.bufferSlot.Has edge → edge.kind = .slot →
    ∀ i, edge.Visits (s.objects edge.object) i → i < (s.objects edge.object).slotSpan
  elementsExact : ∀ edge, s.bufferSlot.Has edge → edge.kind = .element →
    ∀ i, edge.Visits (s.objects edge.object) i → i < (s.objects edge.object).initializedLength

/-! ## The invariant -/

structure Inv (s : ObjectHeap) : Prop where
  edges : s.EdgesOk
  good : ∀ o, s.Good o

variable {s s' : ObjectHeap} {o : ℕ}

/-- Other objects stay good, because what is covered stays covered. -/
lemma Inv.of_keeps (h : s.Inv) (hkeeps : Keeps s s' o) : s'.Inv := by
  refine ⟨hkeeps.reaches.edges, fun x => ?_⟩
  by_cases hx : x = o
  · exact hx ▸ hkeeps.good
  · have hsame := hkeeps.reaches.others x hx
    have hgood := h.good x
    refine ⟨?_, fun htenured i hi hnursery => ?_, fun u hu htenured hnursery => ?_⟩
    · rw [hsame]
      exact hgood.sizes
    · rw [hsame] at htenured hi hnursery
      exact hkeeps.reaches.covers _ _ _ (hgood.slots htenured i hi hnursery)
    · rw [hsame] at hu htenured hnursery
      exact hkeeps.reaches.covers _ _ _ (hgood.elements u hu htenured hnursery)

lemma Inv.keeps_apply (h : s.Inv) (o : ℕ) (op : Operation) (hallows : (s.objects o).Allows op) :
    Keeps s (s.apply o op) o := by
  have hedges := h.edges
  have hgood := h.good o
  have hinitialized := hgood.sizes.initialized
  cases op with
  | setSlot slot v => exact keeps_setSlot hedges hgood v hallows
  | initSlotRange start values => exact keeps_initSlotRange hedges hgood values hallows
  | setSlotSpan span garbage => exact keeps_setSlotSpan hedges hgood garbage hallows
  | setDenseElement index v =>
    have hindex : index + 1 ≤ (s.objects o).initializedLength := hallows
    have hrange := hgood.inRange (hindex.trans hinitialized)
    exact (wrote_setDenseElement hedges index v (by omega)).keeps hgood
  | copyDenseElements needsIncrementalBarrier dstStart src =>
    exact (wrote_copyDenseElements hedges needsIncrementalBarrier dstStart src (hgood.inRange hallows)).keeps hgood
  | initDenseElements src => exact keeps_initDenseElements hedges hgood src hallows.2
  | moveDenseElements needsIncrementalBarrier dstStart srcStart count =>
    exact (wrote_moveDenseElements hedges needsIncrementalBarrier dstStart srcStart count
      (hgood.inRange hallows.1)).keeps hgood
  | moveDenseElementsNoPreBarrier dstStart srcStart count =>
    exact (wrote_moveDenseElementsNoPreBarrier hedges dstStart srcStart count (hgood.inRange hallows.1)).keeps hgood
  | reverseDenseElementsNoPreBarrier length =>
    exact (wrote_reverse hedges hallows.1 (hgood.inRange (hallows.2.trans hinitialized))).keeps hgood
  | ensureDenseInitializedLength index extra => exact keeps_ensureDenseInitializedLength hedges hgood hallows
  | setInitializedLength length => exact keeps_setInitializedLength hedges hgood hallows
  | appendDenseElements values => exact (appendDenseElements_keeps hedges hgood values hallows).1
  | tryShiftDenseElements needsIncrementalBarrier count garbage =>
    exact keeps_tryShiftDenseElements hedges hgood needsIncrementalBarrier garbage hallows.2
  | tryUnshiftDenseElements needsIncrementalBarrier count garbage garbage' =>
    exact keeps_tryUnshiftDenseElements hedges hgood needsIncrementalBarrier count garbage garbage'
  | moveShiftedElements needsIncrementalBarrier =>
    exact (moveShiftedElements_keeps hedges hgood needsIncrementalBarrier).1
  | maybeMoveShiftedElements needsIncrementalBarrier =>
    exact keeps_maybeMoveShiftedElements hedges hgood needsIncrementalBarrier
  | growElements needsIncrementalBarrier reqCapacity ok garbage =>
    exact keeps_growElements hedges hgood needsIncrementalBarrier ok garbage hallows.1 hallows.2.1 hallows.2.2
  | shrinkElements needsIncrementalBarrier reqCapacity ok garbage =>
    exact (shrinkElements_keeps hedges hgood needsIncrementalBarrier ok garbage hallows).1
  | shrinkCapacityToInitializedLength needsIncrementalBarrier ok garbage =>
    exact keeps_shrinkCapacityToInitializedLength hedges hgood needsIncrementalBarrier ok garbage

lemma Inv.run (h : s.Inv) {ops : List (ℕ × Operation)} (hops : s.AllowsAll ops) : (s.run ops).Inv := by
  induction ops generalizing s with
  | nil => exact h
  | cons first rest ih => exact ih (h.of_keeps (h.keeps_apply first.1 first.2 hops.1)) hops.2

lemma AfterMinorGC.inv (h : s.AfterMinorGC) : s.Inv := by
  have hempty (e : SlotsEdge) : ¬ s.bufferSlot.Has e := by
    rw [h.buffer]
    rintro (hmem | hlast)
    · cases hmem
    · cases hlast
  refine ⟨fun e he => absurd he (hempty e), fun o => ⟨h.sizes o, fun htenured i hi hnursery => ?_,
    fun u hu htenured hnursery => ?_⟩⟩
  · rw [h.slots o htenured i hi] at hnursery
    cases hnursery
  · obtain ⟨hlow, hhigh⟩ := hu
    have hnot := h.elements o htenured (u - (s.objects o).numShifted) (by omega)
    simp [NativeObject.element, NativeObject.unshiftedIndex, Nat.sub_add_cancel hlow, hnursery] at hnot

/-- A place that is covered is visited, if it is in the object now. -/
lemma Inv.remembered (h : s.Inv) : s.Remembered where
  slots o htenured i hi hnursery := by
    obtain ⟨edge, hhas, hobject, hkind, hlow, hhigh⟩ := (h.good o).slots htenured i hi hnursery
    exact ⟨edge, hhas, hobject, hkind, (SlotsEdge.visits_slot_iff hkind (h.edges edge hhas).1 i).2 ⟨hlow, hhigh, hi⟩⟩
  elements o htenured i hi hnursery := by
    have hplace : (s.objects o).Initialized (i + (s.objects o).numShifted) :=
      ⟨Nat.le_add_left _ _, Nat.add_lt_add_right hi _⟩
    obtain ⟨edge, hhas, hobject, hkind, hlow, hhigh⟩ := (h.good o).elements _ hplace htenured hnursery
    exact ⟨edge, hhas, hobject, hkind, (SlotsEdge.visits_element_iff hkind (h.edges edge hhas).1 i).2 ⟨hlow, hhigh, hi⟩⟩
  tenured edge hhas := (h.edges edge hhas).2
  slotsExact edge hhas hkind i hvisits := ((SlotsEdge.visits_slot_iff hkind (h.edges edge hhas).1 i).1 hvisits).2.2
  elementsExact edge hhas hkind i hvisits :=
    ((SlotsEdge.visits_element_iff hkind (h.edges edge hhas).1 i).1 hvisits).2.2

/-- After every run from a minor collection on, what the nursery needs is traced, and nothing else is. -/
theorem rememberedSet_complete (h : s.AfterMinorGC) {ops : List (ℕ × Operation)} (hops : s.AllowsAll ops) :
    (s.run ops).Remembered :=
  (h.inv.run hops).remembered

/-- Objects that are tenured, with two slots and four elements. -/
def tenuredObjects : ObjectHeap where
  objects _ :=
    { isTenured := true
      slots := fun _ => .undefined
      slotSpan := 2
      memory := fun _ => .undefined
      numShifted := 0
      initializedLength := 4
      capacity := 8
      length := 4
      isCopyOnWrite := false
      hasNonwritableArrayLength := false
      hasDynamicElements := true }
  bufferSlot := MonoTypeBuffer.empty

/-- A slot and elements of two objects are written; then the elements of the first one are shifted and unshifted. -/
def shiftAndUnshift : List (ℕ × Operation) :=
  [(0, .setSlot 1 (.nursery 5)), (0, .setDenseElement 3 (.nursery 6)), (1, .setDenseElement 0 (.nursery 7)),
    (0, .tryShiftDenseElements false 2 fun _ => .undefined),
    (0, .tryUnshiftDenseElements false 1 (fun _ => .undefined) fun _ => .undefined)]

lemma tenuredObjects_afterMinorGC : tenuredObjects.AfterMinorGC where
  buffer := rfl
  sizes _ := ⟨show 4 ≤ 8 by decide, show 8 + 0 ≤ MAX_DENSE_ELEMENTS_COUNT by decide,
    show 0 ≤ MaxShiftedElements by decide, fun _ => rfl, show 2 ≤ MAX_SLOTS_COUNT by decide⟩
  slots _ _ _ _ := rfl
  elements _ _ _ _ := rfl

lemma allowsAll_shiftAndUnshift : tenuredObjects.AllowsAll shiftAndUnshift :=
  ⟨show 1 < MAX_SLOTS_COUNT by decide, show 3 < 4 by decide, show 0 < 4 by decide,
    show 0 < 2 ∧ 2 ≤ 4 by decide, show 0 < 1 by decide, trivial⟩

theorem rememberedSet_complete_shiftAndUnshift : (tenuredObjects.run shiftAndUnshift).Remembered ∧
    ((tenuredObjects.run shiftAndUnshift).objects 0).element 2 = .nursery 6 :=
  ⟨rememberedSet_complete tenuredObjects_afterMinorGC allowsAll_shiftAndUnshift, by decide +kernel⟩

end ObjectHeap

end SpiderMonkey.Gc
