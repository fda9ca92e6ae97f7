import SpiderMonkey.Gc.ObjectElements
import Mathlib.Data.List.GetD

/-!
# Writes are remembered

After a write with its barrier, the places that have been written are in the buffer if they hold cells of the
nursery (`ObjectHeap.Wrote`); other places are as they were, and stay in the buffer.
-/

namespace SpiderMonkey.Gc.ObjectHeap

open List Function

variable {s s' s'' : ObjectHeap} {o : ℕ}

/-- A place of the elements of an object. -/
def SafeAt (s : ObjectHeap) (o u : ℕ) : Prop :=
  (s.objects o).isTenured = true → ((s.objects o).memory u).isNursery = true → s.bufferSlot.Covers o .element u

/-- The edges are those of tenured objects, with numbers that do not overflow. -/
def EdgesOk (s : ObjectHeap) : Prop :=
  ∀ e, s.bufferSlot.Has e → e.InRange ∧ (s.objects e.object).isTenured = true

/-- One object may have changed; the buffer covers at least what it did. -/
structure Reaches (s s' : ObjectHeap) (o : ℕ) : Prop where
  others : ∀ x ≠ o, s'.objects x = s.objects x
  tenured : (s'.objects o).isTenured = (s.objects o).isTenured
  covers : ∀ x kind i, s.bufferSlot.Covers x kind i → s'.bufferSlot.Covers x kind i
  edges : s'.EdgesOk

namespace Reaches

lemma refl (h : s.EdgesOk) : Reaches s s o := ⟨fun _ _ => rfl, rfl, fun _ _ _ h => h, h⟩

lemma trans (h : Reaches s s' o) (h' : Reaches s' s'' o) : Reaches s s'' o where
  others x hx := (h'.others x hx).trans (h.others x hx)
  tenured := h'.tenured.trans h.tenured
  covers x kind i hc := h'.covers x kind i (h.covers x kind i hc)
  edges := h'.edges

end Reaches

@[simp] lemma setObject_objects (s : ObjectHeap) (o : ℕ) (obj : NativeObject) : (s.setObject o obj).objects o = obj :=
  update_self _ _ _

lemma reaches_setObject (h : s.EdgesOk) (obj : NativeObject) (htenured : obj.isTenured = (s.objects o).isTenured) :
    Reaches s (s.setObject o obj) o := by
  have hsame (x : ℕ) : ((s.setObject o obj).objects x).isTenured = (s.objects x).isTenured := by
    by_cases hx : x = o
    · simp [hx, htenured]
    · rw [setObject]
      simp [hx]
  exact ⟨fun x hx => update_of_ne hx _ _, hsame o, fun _ _ _ h => h,
    fun e he => ⟨(h e he).1, (hsame e.object).trans (h e he).2⟩⟩

/-! ## Putting edges -/

lemma putSlot_reaches (h : s.EdgesOk) (kind : HeapSlotKind) (start count : ℕ) (hcount : 0 < count)
    (hrange : start + count + 1 < 2 ^ 32) : Reaches s (s.putSlot o kind start count) o ∧
    ∀ i, (s.objects o).isTenured = true → start ≤ i → i < start + count →
      (s.putSlot o kind start count).bufferSlot.Covers o kind i := by
  set edge : SlotsEdge := ⟨o, kind, start, count⟩
  have hedge : edge.InRange := ⟨hcount, hrange⟩
  have hbuffer (e : SlotsEdge) (he : s.bufferSlot.Has e) : e.InRange := (h e he).1
  refine ⟨⟨fun _ _ => rfl, rfl, fun x k i hc => ?_, fun e he => ?_⟩, fun i htenured hle hlt => ?_⟩
  · cases htenured : (s.objects o).isTenured with
    | true =>
      rw [putSlot, htenured]
      exact MonoTypeBuffer.covers_putSlot hbuffer hedge (.inl hc)
    | false =>
      -- the last edge is that of another object
      have hsame : s.bufferSlot.putSlot false edge = s.bufferSlot := by
        rw [MonoTypeBuffer.putSlot]
        cases hlast : s.bufferSlot.last with
        | none => rfl
        | some last =>
          dsimp only
          rw [if_neg, if_neg Bool.false_ne_true]
          intro hoverlaps
          have hobject := (h last (.inr hlast)).2
          rw [(SlotsEdge.eq_of_overlaps hoverlaps).1, htenured] at hobject
          cases hobject
      rw [putSlot, htenured]
      dsimp only
      rw [hsame]
      exact hc
  · obtain ⟨hin, hhas | ⟨htenured, hobject⟩ | ⟨e', he', hobject⟩⟩ := MonoTypeBuffer.of_has_putSlot hbuffer hedge he
    · exact ⟨hin, (h e hhas).2⟩
    · exact ⟨hin, hobject ▸ htenured⟩
    · exact ⟨hin, hobject ▸ (h e' he').2⟩
  · rw [putSlot, htenured]
    exact MonoTypeBuffer.covers_putSlot hbuffer hedge (.inr ⟨rfl, rfl, hle, hlt⟩)

lemma post_reaches (h : s.EdgesOk) (kind : HeapSlotKind) (slot : ℕ) (v : HeapValue) (hrange : slot + 2 < 2 ^ 32) :
    Reaches s (s.post o kind slot v) o ∧ (s.post o kind slot v).objects = s.objects ∧
      ((s.objects o).isTenured = true → v.isNursery = true → (s.post o kind slot v).bufferSlot.Covers o kind slot) := by
  rw [post]
  split_ifs with hnursery
  · obtain ⟨hreaches, hcovers⟩ := putSlot_reaches (o := o) h kind slot 1 Nat.one_pos (by omega)
    exact ⟨hreaches, rfl, fun htenured _ => hcovers slot htenured le_rfl (Nat.lt_succ_self slot)⟩
  · exact ⟨.refl h, rfl, fun _ hv => absurd hv hnursery⟩

/-! ## Writing elements -/

/-- The places in `P` have been written, and nothing else of the object. -/
structure Wrote (s s' : ObjectHeap) (o : ℕ) (P : ℕ → Prop) : Prop where
  reaches : Reaches s s' o
  rest : s'.objects o = { s.objects o with memory := (s'.objects o).memory }
  memory : ∀ u, ¬ P u → (s'.objects o).memory u = (s.objects o).memory u
  safe : ∀ u, P u → s'.SafeAt o u

namespace Wrote

variable {P Q : ℕ → Prop}

lemma numShifted (h : Wrote s s' o P) : (s'.objects o).numShifted = (s.objects o).numShifted :=
  (congrArg NativeObject.numShifted h.rest).trans rfl

lemma initializedLength (h : Wrote s s' o P) : (s'.objects o).initializedLength = (s.objects o).initializedLength :=
  (congrArg NativeObject.initializedLength h.rest).trans rfl

lemma capacity (h : Wrote s s' o P) : (s'.objects o).capacity = (s.objects o).capacity :=
  (congrArg NativeObject.capacity h.rest).trans rfl

lemma safeAt (h : Wrote s s' o P) {u : ℕ} (hsafe : P u ∨ s.SafeAt o u) : s'.SafeAt o u := by
  by_cases hu : P u
  · exact h.safe u hu
  · intro htenured hnursery
    rw [h.memory u hu] at hnursery
    exact h.reaches.covers o .element u (hsafe.resolve_left hu (h.reaches.tenured ▸ htenured) hnursery)

lemma refl (h : s.EdgesOk) : Wrote s s o fun _ => False := ⟨.refl h, rfl, fun _ _ => rfl, nofun⟩

lemma trans (h : Wrote s s' o P) (h' : Wrote s' s'' o Q) : Wrote s s'' o fun u => P u ∨ Q u where
  reaches := h.reaches.trans h'.reaches
  rest := h'.rest.trans
    (congrArg (fun obj : NativeObject => { obj with memory := (s''.objects o).memory }) h.rest)
  memory u hu := (h'.memory u fun hq => hu (.inr hq)).trans (h.memory u fun hp => hu (.inl hp))
  safe u hu := h'.safeAt (hu.elim (fun hp => .inr (h.safe u hp)) .inl)

lemma mono (h : Wrote s s' o P) (hsub : ∀ u, P u → Q u) (hsafe : ∀ u, Q u → ¬ P u → s.SafeAt o u) : Wrote s s' o Q where
  reaches := h.reaches
  rest := h.rest
  memory u hu := h.memory u fun hp => hu (hsub u hp)
  safe u hu := by
    by_cases hp : P u
    · exact h.safe u hp
    · exact h.safeAt (.inr (hsafe u hu hp))

lemma congr (h : Wrote s s' o P) (heq : ∀ u, P u ↔ Q u) : Wrote s s' o Q :=
  h.mono (fun u => (heq u).1) fun u hq hp => absurd ((heq u).2 hq) hp

end Wrote

lemma wrote_setDenseElement (h : s.EdgesOk) (index : ℕ) (v : HeapValue)
    (hrange : index + (s.objects o).numShifted + 2 < 2 ^ 32) :
    Wrote s (s.setDenseElement o index v) o fun u => u = index + (s.objects o).numShifted := by
  have hset := reaches_setObject (o := o) h ((s.objects o).setMemory index v) rfl
  obtain ⟨hpost, hobjects, hcovers⟩ := post_reaches (o := o) hset.edges .element
    ((s.objects o).unshiftedIndex index) v hrange
  have hobj : (s.setDenseElement o index v).objects o = (s.objects o).setMemory index v := by
    simp [setDenseElement, hobjects]
  refine ⟨hset.trans hpost, ?_, fun u hu => ?_, fun u hu htenured hnursery => ?_⟩
  · rw [hobj]
    rfl
  · rw [hobj]
    exact update_of_ne hu _ _
  · subst hu
    rw [hobj] at htenured hnursery
    refine hcovers (by rw [setObject_objects]; exact htenured) ?_
    rw [NativeObject.setMemory, NativeObject.unshiftedIndex] at hnursery
    dsimp only at hnursery
    rwa [update_self] at hnursery

lemma wrote_setDenseElements (h : s.EdgesOk) (start : ℕ) (values : List HeapValue)
    (hrange : start + values.length + (s.objects o).numShifted + 1 < 2 ^ 32) :
    Wrote s (s.setDenseElements o start values) o fun u => start + (s.objects o).numShifted ≤ u ∧
      u < start + values.length + (s.objects o).numShifted := by
  induction values generalizing s start with
  | nil => exact (Wrote.refl h).congr fun u => ⟨nofun, fun hu => by simp only [length_nil] at hu; omega⟩
  | cons v values ih =>
    rw [length_cons] at hrange
    have hfirst := wrote_setDenseElement (o := o) h start v (by omega)
    have hrange' : start + 1 + values.length + ((s.setDenseElement o start v).objects o).numShifted + 1 < 2 ^ 32 := by
      rw [hfirst.numShifted]
      omega
    have hrest := ih hfirst.reaches.edges (start + 1) hrange'
    rw [hfirst.numShifted] at hrest
    refine (hfirst.trans hrest).congr fun u => ?_
    rw [length_cons]
    omega

/-! ## Writing a range -/

/-- The barrier covers the cells of the nursery in the range. -/
lemma barrierPost_reaches (h : s.EdgesOk) (start count : ℕ)
    (hrange : start + count + (s.objects o).numShifted + 1 < 2 ^ 32) :
    Reaches s (s.elementsRangeWriteBarrierPost o start count) o ∧
      (s.elementsRangeWriteBarrierPost o start count).objects = s.objects ∧
      ∀ u, start + (s.objects o).numShifted ≤ u → u < start + count + (s.objects o).numShifted →
        (s.elementsRangeWriteBarrierPost o start count).SafeAt o u := by
  rw [elementsRangeWriteBarrierPost]
  split_ifs with htenured
  · refine ⟨.refl h, rfl, fun u _ _ ht => ?_⟩
    simp [htenured] at ht
  · split
    next hnone =>
      refine ⟨.refl h, rfl, fun u hle hlt _ hnursery => ?_⟩
      have hnot := find?_eq_none.1 hnone (u - (s.objects o).numShifted - start) (mem_range.2 (by omega))
      rw [NativeObject.element, NativeObject.unshiftedIndex] at hnot
      have hu : start + (u - (s.objects o).numShifted - start) + (s.objects o).numShifted = u := by omega
      rw [hu] at hnot
      exact absurd hnursery hnot
    next i hsome =>
      have hi := mem_range.1 (mem_of_find?_eq_some hsome)
      have hindex : (s.objects o).unshiftedIndex (start + i) = start + i + (s.objects o).numShifted := rfl
      rw [hindex]
      obtain ⟨hreaches, hcovers⟩ := putSlot_reaches (o := o) h .element
        (start + i + (s.objects o).numShifted) (count - i) (by omega) (by omega)
      refine ⟨hreaches, rfl, fun u hle hlt ht hnursery => hcovers u ht ?_ (by omega)⟩
      -- the elements before the first cell of the nursery are not remembered
      by_contra hbefore
      have hnot := find?_range_eq_some.1 hsome
      have hbefore' := hnot.2.2 (u - (s.objects o).numShifted - start) (by omega)
      have hu : start + (u - (s.objects o).numShifted - start) + (s.objects o).numShifted = u := by omega
      rw [NativeObject.element, NativeObject.unshiftedIndex, hu] at hbefore'
      have hnursery' : ((s.objects o).memory u).isNursery = true := hnursery
      simp [hnursery'] at hbefore'

lemma wrote_barrierPost (h : s.EdgesOk) {obj : NativeObject} (start count : ℕ)
    (hrange : start + count + (s.objects o).numShifted + 1 < 2 ^ 32)
    (hrest : obj = { s.objects o with memory := obj.memory })
    (hmemory : ∀ u, ¬ (start + (s.objects o).numShifted ≤ u ∧ u < start + count + (s.objects o).numShifted) →
      obj.memory u = (s.objects o).memory u) :
    Wrote s ((s.setObject o obj).elementsRangeWriteBarrierPost o start count) o fun u =>
      start + (s.objects o).numShifted ≤ u ∧ u < start + count + (s.objects o).numShifted := by
  have hshifted : obj.numShifted = (s.objects o).numShifted := (congrArg NativeObject.numShifted hrest).trans rfl
  have hset := reaches_setObject (o := o) h obj ((congrArg NativeObject.isTenured hrest).trans rfl)
  obtain ⟨hpost, hobjects, hsafe⟩ := barrierPost_reaches (o := o) hset.edges start count
    (by rw [setObject_objects, hshifted]; exact hrange)
  have hobj : ((s.setObject o obj).elementsRangeWriteBarrierPost o start count).objects o = obj := by
    simp [hobjects]
  rw [setObject_objects, hshifted] at hsafe
  refine ⟨hset.trans hpost, ?_, fun u hu => ?_, fun u hu => hsafe u hu.1 hu.2⟩
  · rw [hobj]
    exact hrest
  · rw [hobj]
    exact hmemory u hu

lemma wrote_writeElementsPost (h : s.EdgesOk) (start : ℕ) (values : List HeapValue)
    (hrange : start + values.length + (s.objects o).numShifted + 1 < 2 ^ 32) :
    Wrote s (s.writeElementsPost o start values) o fun u => start + (s.objects o).numShifted ≤ u ∧
      u < start + values.length + (s.objects o).numShifted := by
  refine wrote_barrierPost h start values.length hrange rfl fun u hu => ?_
  rw [NativeObject.writeElements, NativeObject.unshiftedIndex]
  dsimp only
  split_ifs with hle
  · rw [getD_eq_default]
    omega
  · rfl

lemma memory_swap (obj : NativeObject) {lo hi u : ℕ} (hlo : u ≠ obj.numShifted + lo) (hhi : u ≠ obj.numShifted + hi) :
    ((obj.setMemory lo (obj.element hi)).setMemory hi (obj.element lo)).memory u = obj.memory u := by
  have hindex (index : ℕ) (h : u ≠ obj.numShifted + index) : u ≠ obj.unshiftedIndex index := by
    rw [NativeObject.unshiftedIndex]
    omega
  exact (update_of_ne (hindex hi hhi) _ _).trans (update_of_ne (hindex lo hlo) _ _)

lemma memory_reverseLoop (obj : NativeObject) {lo hi : ℕ} (hlt : lo < hi) :
    obj.reverseLoop lo hi = { obj with memory := (obj.reverseLoop lo hi).memory } ∧
      ∀ u, ¬ (obj.numShifted + lo ≤ u ∧ u ≤ obj.numShifted + hi) → (obj.reverseLoop lo hi).memory u = obj.memory u := by
  fun_induction NativeObject.reverseLoop obj lo hi with
  | case1 obj lo hi obj' hmore ih =>
    obtain ⟨hrest, hmemory⟩ := ih hmore
    have hshifted : obj'.numShifted = obj.numShifted := rfl
    refine ⟨hrest, fun u hu => (hmemory u ?_).trans (memory_swap obj ?_ ?_)⟩
    all_goals omega
  | case2 obj lo hi obj' hmore =>
    refine ⟨rfl, fun u hu => memory_swap obj ?_ ?_⟩
    all_goals omega

lemma wrote_reverse (h : s.EdgesOk) {length : ℕ} (hlength : 1 < length)
    (hrange : length + (s.objects o).numShifted + 1 < 2 ^ 32) :
    Wrote s (s.reverseDenseElementsNoPreBarrier o length) o fun u => (s.objects o).numShifted ≤ u ∧
      u < length + (s.objects o).numShifted := by
  obtain ⟨hrest, hmemory⟩ := memory_reverseLoop (s.objects o) (show 0 < length - 1 by omega)
  refine (wrote_barrierPost h 0 length (by omega) hrest fun u hu => hmemory u ?_).congr
    fun u => ?_
  · omega
  · simp

/-! ## Moving -/

lemma wrote_moveForward (h : s.EdgesOk) (dst src count : ℕ)
    (hrange : dst + count + (s.objects o).numShifted + 1 < 2 ^ 32) :
    Wrote s (s.moveForward o dst src count) o fun u => dst + (s.objects o).numShifted ≤ u ∧
      u < dst + count + (s.objects o).numShifted := by
  induction count generalizing s dst src with
  | zero => exact (Wrote.refl h).congr fun u => ⟨nofun, fun hu => by omega⟩
  | succ count ih =>
    have hfirst := wrote_setDenseElement (o := o) h dst ((s.objects o).element src) (by omega)
    have hrange' : dst + 1 + count +
        ((s.setDenseElement o dst ((s.objects o).element src)).objects o).numShifted + 1 < 2 ^ 32 := by
      rw [hfirst.numShifted]
      omega
    have hrest := ih hfirst.reaches.edges (dst + 1) (src + 1) hrange'
    rw [hfirst.numShifted] at hrest
    exact (hfirst.trans hrest).congr fun u => by omega

lemma wrote_moveBackward (h : s.EdgesOk) (dst src count : ℕ)
    (hrange : dst + count + (s.objects o).numShifted + 1 < 2 ^ 32) :
    Wrote s (s.moveBackward o dst src count) o fun u => dst + (s.objects o).numShifted ≤ u ∧
      u < dst + count + (s.objects o).numShifted := by
  induction count generalizing s with
  | zero => exact (Wrote.refl h).congr fun u => ⟨nofun, fun hu => by omega⟩
  | succ count ih =>
    have hfirst := wrote_setDenseElement (o := o) h (dst + count) ((s.objects o).element (src + count)) (by omega)
    have hrange' : dst + count +
        ((s.setDenseElement o (dst + count) ((s.objects o).element (src + count))).objects o).numShifted + 1 <
          2 ^ 32 := by
      rw [hfirst.numShifted]
      omega
    have hrest := ih hfirst.reaches.edges hrange'
    rw [hfirst.numShifted] at hrest
    exact (hfirst.trans hrest).congr fun u => by omega

lemma wrote_moveDenseElementsNoPreBarrier (h : s.EdgesOk) (dst src count : ℕ)
    (hrange : dst + count + (s.objects o).numShifted + 1 < 2 ^ 32) :
    Wrote s (s.moveDenseElementsNoPreBarrier o dst src count) o fun u => dst + (s.objects o).numShifted ≤ u ∧
      u < dst + count + (s.objects o).numShifted := by
  have hlength : ((List.range count).map fun i => (s.objects o).element (src + i)).length = count := by
    simp
  have hwrote := wrote_writeElementsPost (o := o) h dst
    ((List.range count).map fun i => (s.objects o).element (src + i)) (by rw [hlength]; exact hrange)
  rw [hlength] at hwrote
  exact hwrote

lemma wrote_moveDenseElements (h : s.EdgesOk) (needsIncrementalBarrier : Bool) (dst src count : ℕ)
    (hrange : dst + count + (s.objects o).numShifted + 1 < 2 ^ 32) :
    Wrote s (s.moveDenseElements o needsIncrementalBarrier dst src count) o fun u =>
      dst + (s.objects o).numShifted ≤ u ∧ u < dst + count + (s.objects o).numShifted := by
  rw [moveDenseElements]
  split_ifs
  · exact wrote_moveForward h dst src count hrange
  · exact wrote_moveBackward h dst src count hrange
  · exact wrote_moveDenseElementsNoPreBarrier h dst src count hrange

lemma wrote_copyDenseElements (h : s.EdgesOk) (needsIncrementalBarrier : Bool) (dst : ℕ) (src : List HeapValue)
    (hrange : dst + src.length + (s.objects o).numShifted + 1 < 2 ^ 32) :
    Wrote s (s.copyDenseElements o needsIncrementalBarrier dst src) o fun u =>
      dst + (s.objects o).numShifted ≤ u ∧ u < dst + src.length + (s.objects o).numShifted := by
  rw [copyDenseElements]
  split_ifs with hnil
  · subst hnil
    exact (Wrote.refl h).congr fun u => ⟨nofun, fun hu => by simp only [length_nil] at hu; omega⟩
  · exact wrote_setDenseElements h dst src hrange
  · exact wrote_writeElementsPost h dst src hrange

end SpiderMonkey.Gc.ObjectHeap
