import Mathlib.Data.Finset.Basic
import Mathlib.Tactic

/-!
# Edges from slots and elements to the nursery

The store buffer remembers ranges of slots and of elements of tenured objects.  A range that overlaps the last
one, or is next to it, is merged with it, so the buffer covers at least what has been put
(`MonoTypeBuffer.covers_putSlot`).
-/

namespace SpiderMonkey.Gc

inductive HeapSlotKind
  | slot
  | element
  deriving DecidableEq

/-- Objects are told by their addresses. -/
structure SlotsEdge where
  object : ℕ
  kind : HeapSlotKind
  start : ℕ
  count : ℕ
  deriving DecidableEq

namespace SlotsEdge

variable (edge other : SlotsEdge)

/-- The range is made wider by one on each side; these are numbers with 32 bits. -/
def overlaps : Bool :=
  if edge.object ≠ other.object ∨ edge.kind ≠ other.kind then false
  else
    let stop := (edge.start + edge.count + 1) % 2 ^ 32
    let start := if 0 < edge.start then edge.start - 1 else 0
    let otherStop := (other.start + other.count) % 2 ^ 32
    decide ((start ≤ other.start ∧ other.start ≤ stop) ∨ (start ≤ otherStop ∧ otherStop ≤ stop))

def merge : SlotsEdge :=
  let stop := max ((edge.start + edge.count) % 2 ^ 32) ((other.start + other.count) % 2 ^ 32)
  let start := min edge.start other.start
  { edge with start := start, count := stop - start }

/-- The edge covers a slot or an element. -/
def Covers (object : ℕ) (kind : HeapSlotKind) (index : ℕ) : Prop :=
  edge.object = object ∧ edge.kind = kind ∧ edge.start ≤ index ∧ index < edge.start + edge.count

/-- The numbers do not overflow. -/
def InRange : Prop := 0 < edge.count ∧ edge.start + edge.count + 1 < 2 ^ 32

variable {edge other}

lemma eq_of_overlaps (h : edge.overlaps other = true) : edge.object = other.object ∧ edge.kind = other.kind := by
  by_contra hnot
  rw [not_and_or] at hnot
  simp [overlaps, if_pos hnot] at h

lemma stop_merge (h : edge.InRange) (h' : other.InRange) :
    (edge.merge other).start + (edge.merge other).count = max (edge.start + edge.count) (other.start + other.count) := by
  unfold merge InRange at *
  dsimp only
  omega

lemma inRange_merge (h : edge.InRange) (h' : other.InRange) : (edge.merge other).InRange := by
  have hstop := stop_merge h h'
  have hstart : (edge.merge other).start = min edge.start other.start := rfl
  unfold InRange at *
  omega

lemma covers_merge (h : edge.InRange) (h' : other.InRange) (hoverlaps : edge.overlaps other = true) {object index : ℕ}
    {kind : HeapSlotKind} (hcovers : edge.Covers object kind index ∨ other.Covers object kind index) :
    (edge.merge other).Covers object kind index := by
  have hstop := stop_merge h h'
  have hstart : (edge.merge other).start = min edge.start other.start := rfl
  obtain ⟨hobject, hkind⟩ := eq_of_overlaps hoverlaps
  obtain ⟨ho, hk, hle, hlt⟩ | ⟨ho, hk, hle, hlt⟩ := hcovers
  · exact ⟨ho, hk, by omega, by omega⟩
  · exact ⟨hobject.trans ho, hkind.trans hk, by omega, by omega⟩

end SlotsEdge

/-! ## The buffer -/

/-- The last edge is kept in front of the set. -/
structure MonoTypeBuffer where
  stores : Finset SlotsEdge
  last : Option SlotsEdge
  aboutToOverflow : Bool

namespace MonoTypeBuffer

/-- An edge has 16 bytes. -/
def MaxEntries : ℕ := 48 * 1024 / 16

def empty : MonoTypeBuffer := ⟨∅, none, false⟩

variable (buffer : MonoTypeBuffer)

def sinkStore : MonoTypeBuffer :=
  let stores := match buffer.last with
    | none => buffer.stores
    | some edge => insert edge buffer.stores
  ⟨stores, none, buffer.aboutToOverflow || decide (MaxEntries < stores.card)⟩

def put (edge : SlotsEdge) : MonoTypeBuffer := { buffer.sinkStore with last := some edge }

/-- Edges of objects in the nursery are not put into the buffer. -/
def putSlot (tenured : Bool) (edge : SlotsEdge) : MonoTypeBuffer :=
  match buffer.last with
  | some last =>
    if last.overlaps edge = true then { buffer with last := some (last.merge edge) }
    else if tenured = true then buffer.put edge
    else buffer
  | none => if tenured = true then buffer.put edge else buffer

def Has (edge : SlotsEdge) : Prop := edge ∈ buffer.stores ∨ buffer.last = some edge

def Covers (object : ℕ) (kind : HeapSlotKind) (index : ℕ) : Prop :=
  ∃ edge, buffer.Has edge ∧ edge.Covers object kind index

variable {buffer} {edge : SlotsEdge} {object index : ℕ} {kind : HeapSlotKind}

lemma has_put : (buffer.put edge).Has edge := .inr rfl

lemma has_put_of_has {edge' : SlotsEdge} (h : buffer.Has edge') : (buffer.put edge).Has edge' := by
  refine .inl ?_
  rw [put, sinkStore]
  obtain h | h := h
  · cases buffer.last with
    | none => exact h
    | some last => exact Finset.mem_insert_of_mem h
  · simp [h]

lemma eq_or_has {edge' : SlotsEdge} (h : (buffer.put edge).Has edge') : edge' = edge ∨ buffer.Has edge' := by
  obtain h | h := h
  · right
    rw [put, sinkStore] at h
    dsimp only at h
    cases hlast : buffer.last with
    | none =>
      rw [hlast] at h
      exact .inl h
    | some last =>
      rw [hlast] at h
      obtain rfl | h := Finset.mem_insert.1 h
      · exact .inr hlast
      · exact .inl h
  · exact .inl (Option.some.inj h).symm

theorem covers_putSlot (hbuffer : ∀ e, buffer.Has e → e.InRange) (hedge : edge.InRange)
    (hcovers : buffer.Covers object kind index ∨ edge.Covers object kind index) :
    (buffer.putSlot true edge).Covers object kind index := by
  have hput : (buffer.put edge).Covers object kind index := by
    obtain ⟨e, he, hc⟩ | hc := hcovers
    · exact ⟨e, has_put_of_has he, hc⟩
    · exact ⟨edge, has_put, hc⟩
  unfold putSlot
  cases hlast : buffer.last with
  | none => exact hput
  | some last =>
    dsimp only
    by_cases hoverlaps : last.overlaps edge = true
    · rw [if_pos hoverlaps]
      have hrange := hbuffer last (.inr hlast)
      obtain ⟨e, he | he, hc⟩ | hc := hcovers
      · exact ⟨e, .inl he, hc⟩
      · cases hlast.symm.trans he
        exact ⟨_, .inr rfl, SlotsEdge.covers_merge hrange hedge hoverlaps (.inl hc)⟩
      · exact ⟨_, .inr rfl, SlotsEdge.covers_merge hrange hedge hoverlaps (.inr hc)⟩
    · rw [if_neg hoverlaps]
      exact hput

/-- The edges are those of tenured objects. -/
lemma of_has_putSlot {tenured : Bool} {edge' : SlotsEdge} (hbuffer : ∀ e, buffer.Has e → e.InRange)
    (hedge : edge.InRange) (h : (buffer.putSlot tenured edge).Has edge') : edge'.InRange ∧
      (buffer.Has edge' ∨ (tenured = true ∧ edge'.object = edge.object) ∨
        ∃ e, buffer.Has e ∧ edge'.object = e.object) := by
  have hput (h : (if tenured = true then buffer.put edge else buffer).Has edge') : edge'.InRange ∧
      (buffer.Has edge' ∨ (tenured = true ∧ edge'.object = edge.object) ∨
        ∃ e, buffer.Has e ∧ edge'.object = e.object) := by
    split_ifs at h with htenured
    · obtain rfl | h := eq_or_has h
      · simp [hedge, htenured]
      · simp [hbuffer, h]
    · simp [hbuffer, h]
  unfold putSlot at h
  cases hlast : buffer.last with
  | none =>
    rw [hlast] at h
    exact hput h
  | some last =>
    rw [hlast] at h
    dsimp only at h
    by_cases hoverlaps : last.overlaps edge = true
    · rw [if_pos hoverlaps] at h
      obtain h | h := h
      · exact ⟨hbuffer _ (.inl h), .inl (.inl h)⟩
      · cases h
        exact ⟨SlotsEdge.inRange_merge (hbuffer _ (.inr hlast)) hedge, .inr (.inr ⟨last, .inr hlast, rfl⟩)⟩
    · rw [if_neg hoverlaps] at h
      exact hput h

end MonoTypeBuffer

end SpiderMonkey.Gc
