import SpiderMonkey.Gc.ElementWrites

/-!
# Headers that move

An object is good if its slots and its initialized elements are remembered (`ObjectHeap.Good`).  A write with its
barrier keeps it good.  When a header moves, elements enter the initialized ones only if they were initialized
before at the same place, or if they are written right after that (`Keeps`).
-/

namespace SpiderMonkey.Gc

/-- The numbers in the header are consistent. -/
structure NativeObject.Sizes (obj : NativeObject) : Prop where
  initialized : obj.initializedLength ≤ obj.capacity
  allocated : obj.capacity + obj.numShifted ≤ MAX_DENSE_ELEMENTS_COUNT
  shifted : obj.numShifted ≤ MaxShiftedElements
  nonwritable : obj.hasNonwritableArrayLength = true → obj.numShifted = 0
  span : obj.slotSpan ≤ MAX_SLOTS_COUNT

/-- The place is that of an initialized element. -/
def NativeObject.Initialized (obj : NativeObject) (u : ℕ) : Prop :=
  obj.numShifted ≤ u ∧ u < obj.initializedLength + obj.numShifted

namespace ObjectHeap

variable {s s' s'' : ObjectHeap} {o : ℕ}

structure Good (s : ObjectHeap) (o : ℕ) : Prop where
  sizes : (s.objects o).Sizes
  slots : (s.objects o).isTenured = true → ∀ i < (s.objects o).slotSpan,
    ((s.objects o).slots i).isNursery = true → s.bufferSlot.Covers o .slot i
  elements : ∀ u, (s.objects o).Initialized u → s.SafeAt o u

structure Keeps (s s' : ObjectHeap) (o : ℕ) : Prop where
  reaches : Reaches s s' o
  good : s'.Good o

namespace Keeps

lemma refl (h : s.EdgesOk) (hgood : s.Good o) : Keeps s s o := ⟨.refl h, hgood⟩

lemma trans (h : Keeps s s' o) (h' : Keeps s' s'' o) : Keeps s s'' o := ⟨h.reaches.trans h'.reaches, h'.good⟩

end Keeps

structure SameSlots (s s' : ObjectHeap) (o : ℕ) : Prop where
  slots : (s'.objects o).slots = (s.objects o).slots
  span : (s'.objects o).slotSpan = (s.objects o).slotSpan

lemma keeps_of_elements (hgood : s.Good o) (hreaches : Reaches s s' o) (hslots : SameSlots s s' o)
    (hsizes : (s'.objects o).Sizes) (helements : ∀ u, (s'.objects o).Initialized u → s'.SafeAt o u) :
    Keeps s s' o := by
  refine ⟨hreaches, hsizes, fun htenured i hi hnursery => hreaches.covers _ _ _ ?_, helements⟩
  rw [hreaches.tenured] at htenured
  rw [hslots.span] at hi
  rw [hslots.slots] at hnursery
  exact hgood.slots htenured i hi hnursery

lemma Wrote.sameSlots {P : ℕ → Prop} (h : Wrote s s' o P) : SameSlots s s' o :=
  ⟨(congrArg NativeObject.slots h.rest).trans rfl, (congrArg NativeObject.slotSpan h.rest).trans rfl⟩

lemma Wrote.sizes {P : ℕ → Prop} (h : Wrote s s' o P) (hsizes : (s.objects o).Sizes) : (s'.objects o).Sizes := by
  rw [h.rest]
  exact ⟨hsizes.initialized, hsizes.allocated, hsizes.shifted, hsizes.nonwritable, hsizes.span⟩

lemma Wrote.initialized_iff {P : ℕ → Prop} (h : Wrote s s' o P) (u : ℕ) :
    (s'.objects o).Initialized u ↔ (s.objects o).Initialized u := by
  simp [NativeObject.Initialized, h.numShifted, h.initializedLength]

lemma Wrote.keeps {P : ℕ → Prop} (h : Wrote s s' o P) (hgood : s.Good o) : Keeps s s' o :=
  keeps_of_elements hgood h.reaches h.sameSlots (h.sizes hgood.sizes) fun u hu =>
    h.safeAt (.inr (hgood.elements u ((h.initialized_iff u).1 hu)))

/-! ## Other headers -/

/-- The elements are the same ones, at other indices. -/
structure Relabels (obj obj' : NativeObject) : Prop where
  tenured : obj'.isTenured = obj.isTenured
  slots : obj'.slots = obj.slots
  span : obj'.slotSpan = obj.slotSpan
  sizes : obj'.Sizes

lemma sameSlots_setObject {obj : NativeObject} (h : Relabels (s.objects o) obj) : SameSlots s (s.setObject o obj) o :=
  ⟨(congrArg NativeObject.slots (setObject_objects s o obj)).trans h.slots,
    (congrArg NativeObject.slotSpan (setObject_objects s o obj)).trans h.span⟩

lemma safeAt_setObject {obj : NativeObject} (htenured : obj.isTenured = (s.objects o).isTenured) {u : ℕ}
    (hmemory : obj.memory u = (s.objects o).memory u) (hsafe : s.SafeAt o u) : (s.setObject o obj).SafeAt o u := by
  intro ht hnursery
  rw [setObject_objects] at ht hnursery
  rw [htenured] at ht
  rw [hmemory] at hnursery
  exact hsafe ht hnursery

lemma keeps_of_relabels_wrote (h : s.EdgesOk) (hgood : s.Good o) (obj : NativeObject) {P : ℕ → Prop}
    (hrelabels : Relabels (s.objects o) obj) (hwrote : Wrote (s.setObject o obj) s' o P)
    (helements : ∀ u, obj.Initialized u → P u ∨
      ((s.objects o).Initialized u ∧ obj.memory u = (s.objects o).memory u)) : Keeps s s' o := by
  have hset := reaches_setObject (o := o) h obj hrelabels.tenured
  have hobj : (s.setObject o obj).objects o = obj := setObject_objects s o obj
  have hfirst := sameSlots_setObject hrelabels
  refine keeps_of_elements hgood (hset.trans hwrote.reaches)
    ⟨hwrote.sameSlots.slots.trans hfirst.slots, hwrote.sameSlots.span.trans hfirst.span⟩
    (hwrote.sizes (by rw [hobj]; exact hrelabels.sizes)) fun u hu => hwrote.safeAt ?_
  rw [hwrote.initialized_iff, hobj] at hu
  exact (helements u hu).imp_right fun hold =>
    safeAt_setObject hrelabels.tenured hold.2 (hgood.elements u hold.1)

lemma keeps_of_relabels (h : s.EdgesOk) (hgood : s.Good o) (obj : NativeObject)
    (hrelabels : Relabels (s.objects o) obj) (helements : ∀ u, obj.Initialized u →
      (s.objects o).Initialized u ∧ obj.memory u = (s.objects o).memory u) : Keeps s (s.setObject o obj) o :=
  keeps_of_relabels_wrote h hgood obj hrelabels (.refl (reaches_setObject h obj hrelabels.tenured).edges)
    fun u hu => .inr (helements u hu)

lemma keeps_of_wrote_relabels (hgood : s.Good o) (obj : NativeObject) {P : ℕ → Prop}
    (hwrote : Wrote s s' o P) (hrelabels : Relabels (s'.objects o) obj)
    (helements : ∀ u, obj.Initialized u → (P u ∨ (s.objects o).Initialized u) ∧
      obj.memory u = (s'.objects o).memory u) : Keeps s (s'.setObject o obj) o := by
  have hset := reaches_setObject (o := o) hwrote.reaches.edges obj hrelabels.tenured
  have hlast := sameSlots_setObject hrelabels
  refine keeps_of_elements hgood (hwrote.reaches.trans hset)
    ⟨hlast.slots.trans hwrote.sameSlots.slots, hlast.span.trans hwrote.sameSlots.span⟩ ?_ fun u hu => ?_
  · rw [setObject_objects]
    exact hrelabels.sizes
  · rw [setObject_objects] at hu
    obtain ⟨hold, hmemory⟩ := helements u hu
    exact safeAt_setObject hrelabels.tenured hmemory (hwrote.safeAt (hold.imp_right (hgood.elements u)))

end ObjectHeap

end SpiderMonkey.Gc
