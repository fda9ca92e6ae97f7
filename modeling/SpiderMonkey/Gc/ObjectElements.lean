import SpiderMonkey.Gc.SlotsEdge
import Mathlib.Data.Nat.Log

/-!
# Slots and dense elements with post barriers

The elements of an object are in memory after a header, which can be moved over the first elements: these are
then shifted.  `memory` is counted from the start of the allocation, so that an element keeps its place in it
when elements are shifted or unshifted; the barriers remember elements by this place.  What is in memory that
is not initialized is arbitrary, and so is what is left of a header.
-/

namespace SpiderMonkey.Gc

/-- A value with a cell of the nursery, or another one. -/
inductive HeapValue
  | undefined
  | hole
  | nursery (cell : ℕ)
  | other (payload : ℕ)
  deriving DecidableEq

def HeapValue.isNursery : HeapValue → Bool
  | .nursery _ => true
  | _ => false

def VALUES_PER_HEADER : ℕ := 2
def MaxShiftedElements : ℕ := 2 ^ 11 - 1
def SLOT_CAPACITY_MIN : ℕ := 8
def MAX_SLOTS_COUNT : ℕ := 2 ^ 28 - 1
def MAX_DENSE_ELEMENTS_ALLOCATION : ℕ := 2 ^ 28 - 1
def MAX_DENSE_ELEMENTS_COUNT : ℕ := MAX_DENSE_ELEMENTS_ALLOCATION - VALUES_PER_HEADER

structure NativeObject where
  isTenured : Bool
  slots : ℕ → HeapValue
  slotSpan : ℕ
  memory : ℕ → HeapValue
  numShifted : ℕ
  initializedLength : ℕ
  capacity : ℕ
  length : ℕ
  isCopyOnWrite : Bool
  hasNonwritableArrayLength : Bool
  hasDynamicElements : Bool

namespace NativeObject

variable (obj : NativeObject)

def unshiftedIndex (index : ℕ) : ℕ := index + obj.numShifted

def element (index : ℕ) : HeapValue := obj.memory (obj.unshiftedIndex index)

def numAllocatedElements : ℕ := VALUES_PER_HEADER + obj.capacity + obj.numShifted

def setMemory (index : ℕ) (v : HeapValue) : NativeObject :=
  { obj with memory := Function.update obj.memory (obj.unshiftedIndex index) v }

/-- Values are copied to the elements, without barriers. -/
def writeElements (start : ℕ) (values : List HeapValue) : NativeObject :=
  { obj with
    memory := fun u =>
      if obj.unshiftedIndex start ≤ u then values.getD (u - obj.unshiftedIndex start) (obj.memory u)
      else obj.memory u }

/-- The header is in front of the elements. -/
def writeHeader (garbage : ℕ → HeapValue) : NativeObject :=
  { obj with
    memory := fun u => if u < obj.numShifted ∧ obj.numShifted ≤ u + VALUES_PER_HEADER then garbage u
      else obj.memory u }

def addShiftedElements (count : ℕ) : NativeObject :=
  { obj with
    numShifted := obj.numShifted + count
    capacity := obj.capacity - count
    initializedLength := obj.initializedLength - count }

def unshiftShiftedElements (count : ℕ) : NativeObject :=
  { obj with
    numShifted := obj.numShifted - count
    capacity := obj.capacity + count
    initializedLength := obj.initializedLength + count }

def clearShiftedElements : NativeObject := { obj with numShifted := 0 }

/-- The elements are swapped from both ends. -/
def reverseLoop (obj : NativeObject) (lo hi : ℕ) : NativeObject :=
  let obj := (obj.setMemory lo (obj.element hi)).setMemory hi (obj.element lo)
  if lo + 1 < hi - 1 then reverseLoop obj (lo + 1) (hi - 1) else obj
termination_by hi - lo

/-! ## Allocation -/

def BigBuckets : List ℕ :=
  [0x100000, 0x200000, 0x300000, 0x400000, 0x500000, 0x600000, 0x700000, 0x800000, 0x900000, 0xb00000, 0xd00000,
    0xf00000, 0x1100000, 0x1400000, 0x1700000, 0x1a00000, 0x1e00000, 0x2200000, 0x2700000, 0x2c00000, 0x3200000,
    0x3900000, 0x4100000, 0x4a00000, 0x5400000, 0x5f00000, 0x6b00000, 0x7900000, 0x8900000, 0x9b00000, 0xaf00000,
    0xc500000, 0xde00000, 0xfa00000]

def goodElementsAllocationAmount (reqCapacity length : ℕ) : Option ℕ :=
  if MAX_DENSE_ELEMENTS_COUNT < reqCapacity then none
  else
    let reqAllocated := reqCapacity + VALUES_PER_HEADER
    if reqAllocated < 2 ^ 20 then
      let amount := 2 ^ Nat.clog 2 reqAllocated
      let goodCapacity := amount - VALUES_PER_HEADER
      let amount := if reqCapacity ≤ length ∧ length / 3 * 2 < goodCapacity then length + VALUES_PER_HEADER
        else amount
      some (if amount < SLOT_CAPACITY_MIN then SLOT_CAPACITY_MIN else amount)
    else some ((BigBuckets.find? fun b => decide (reqAllocated ≤ b)).getD MAX_DENSE_ELEMENTS_ALLOCATION)

/-- The elements are in a new allocation, with what has been copied. -/
def reallocate (newAllocated : ℕ) (garbage : ℕ → HeapValue) : NativeObject :=
  let copied := if obj.hasDynamicElements = true then min obj.numAllocatedElements newAllocated - VALUES_PER_HEADER
    else obj.initializedLength + obj.numShifted
  { obj with
    memory := fun u => if u < copied then obj.memory u else garbage u
    capacity := newAllocated - VALUES_PER_HEADER - obj.numShifted
    hasDynamicElements := true }

/-- The slots that are added are initialized. -/
def setSlotSpan (span : ℕ) (garbage : ℕ → HeapValue) : NativeObject :=
  { obj with
    slots := fun i =>
      if i < min obj.slotSpan span then obj.slots i else if i < span then HeapValue.undefined else garbage i
    slotSpan := span }

end NativeObject

/-! ## The heap -/

structure ObjectHeap where
  objects : ℕ → NativeObject
  bufferSlot : MonoTypeBuffer

namespace ObjectHeap

variable (s : ObjectHeap) (o : ℕ)

def setObject (obj : NativeObject) : ObjectHeap := { s with objects := Function.update s.objects o obj }

def putSlot (kind : HeapSlotKind) (start count : ℕ) : ObjectHeap :=
  { s with bufferSlot := s.bufferSlot.putSlot (s.objects o).isTenured ⟨o, kind, start, count⟩ }

def post (kind : HeapSlotKind) (slot : ℕ) (v : HeapValue) : ObjectHeap :=
  if v.isNursery = true then s.putSlot o kind slot 1 else s

/-- Also `initSlot`. -/
def setSlot (slot : ℕ) (v : HeapValue) : ObjectHeap :=
  (s.setObject o { s.objects o with slots := Function.update (s.objects o).slots slot v }).post o .slot slot v

def initSlotRange (s : ObjectHeap) (o start : ℕ) : List HeapValue → ObjectHeap
  | [] => s
  | v :: values => initSlotRange (s.setSlot o start v) o (start + 1) values

/-- Also `initDenseElement` and `setDenseElementHole`. -/
def setDenseElement (index : ℕ) (v : HeapValue) : ObjectHeap :=
  (s.setObject o ((s.objects o).setMemory index v)).post o .element ((s.objects o).unshiftedIndex index) v

def setDenseElements (s : ObjectHeap) (o start : ℕ) : List HeapValue → ObjectHeap
  | [] => s
  | v :: values => setDenseElements (s.setDenseElement o start v) o (start + 1) values

/-- Everything from the first cell of the nursery on is put into the buffer. -/
def elementsRangeWriteBarrierPost (start count : ℕ) : ObjectHeap :=
  if (s.objects o).isTenured = false then s
  else
    match (List.range count).find? fun i => ((s.objects o).element (start + i)).isNursery with
    | none => s
    | some i => s.putSlot o .element ((s.objects o).unshiftedIndex (start + i)) (count - i)

/-- Values are copied, and then there is one barrier for them. -/
def writeElementsPost (start : ℕ) (values : List HeapValue) : ObjectHeap :=
  (s.setObject o ((s.objects o).writeElements start values)).elementsRangeWriteBarrierPost o start values.length

def setInitializedLength (length : ℕ) : ObjectHeap :=
  s.setObject o { s.objects o with initializedLength := length }

/-! ## Copying and moving -/

variable (needsIncrementalBarrier : Bool)

def copyDenseElements (dstStart : ℕ) (src : List HeapValue) : ObjectHeap :=
  if src = [] then s
  else if needsIncrementalBarrier = true then s.setDenseElements o dstStart src
  else s.writeElementsPost o dstStart src

def initDenseElements (src : List HeapValue) : ObjectHeap :=
  (s.setInitializedLength o src.length).writeElementsPost o 0 src

def moveForward (s : ObjectHeap) (o dst src : ℕ) : ℕ → ObjectHeap
  | 0 => s
  | count + 1 => moveForward (s.setDenseElement o dst ((s.objects o).element src)) o (dst + 1) (src + 1) count

def moveBackward (s : ObjectHeap) (o dst src : ℕ) : ℕ → ObjectHeap
  | 0 => s
  | count + 1 =>
    moveBackward (s.setDenseElement o (dst + count) ((s.objects o).element (src + count))) o dst src count

def moveDenseElementsNoPreBarrier (dstStart srcStart count : ℕ) : ObjectHeap :=
  s.writeElementsPost o dstStart ((List.range count).map fun i => (s.objects o).element (srcStart + i))

def moveDenseElements (dstStart srcStart count : ℕ) : ObjectHeap :=
  if needsIncrementalBarrier = true then
    if dstStart < srcStart then s.moveForward o dstStart srcStart count
    else s.moveBackward o dstStart srcStart count
  else s.moveDenseElementsNoPreBarrier o dstStart srcStart count

def reverseDenseElementsNoPreBarrier (length : ℕ) : ObjectHeap :=
  (s.setObject o ((s.objects o).reverseLoop 0 (length - 1))).elementsRangeWriteBarrierPost o 0 length

/-! ## The initialized length -/

/-- The new elements are holes. -/
def ensureDenseInitializedLength (index extra : ℕ) : ObjectHeap :=
  let initlen := (s.objects o).initializedLength
  if index + extra ≤ initlen then s
  else
    (s.setDenseElements o initlen (List.replicate (index + extra - initlen) .hole)).setInitializedLength o
      (index + extra)

/-- The length is made greater, and the elements are initialized right after that. -/
def appendDenseElements (values : List HeapValue) : ObjectHeap :=
  let initlen := (s.objects o).initializedLength
  (s.setInitializedLength o (initlen + values.length)).setDenseElements o initlen values

/-! ## Shifted elements -/

def moveShiftedElements : ObjectHeap :=
  let numShifted := (s.objects o).numShifted
  let initLength := (s.objects o).initializedLength
  let s := s.setObject o
    { (s.objects o).clearShiftedElements with
      capacity := (s.objects o).capacity + numShifted
      initializedLength := initLength + numShifted }
  let s := s.setDenseElements o 0 (List.replicate numShifted .undefined)
  (s.moveDenseElements o needsIncrementalBarrier 0 numShifted initLength).setInitializedLength o initLength

/-- If less than a third of the allocation is in use. -/
def maybeMoveShiftedElements : ObjectHeap :=
  if (s.objects o).capacity < (s.objects o).numAllocatedElements / 3 then
    s.moveShiftedElements o needsIncrementalBarrier
  else s

def shiftDenseElementsUnchecked (count : ℕ) (garbage : ℕ → HeapValue) : ObjectHeap :=
  let s := if MaxShiftedElements < (s.objects o).numShifted + count then
      s.moveShiftedElements o needsIncrementalBarrier
    else s
  s.setObject o (((s.objects o).addShiftedElements count).writeHeader garbage)

def tryShiftDenseElements (count : ℕ) (garbage : ℕ → HeapValue) : ObjectHeap :=
  if (s.objects o).initializedLength = count ∨ MaxShiftedElements < count ∨ (s.objects o).isCopyOnWrite = true ∨
      (s.objects o).hasNonwritableArrayLength = true then s
  else s.shiftDenseElementsUnchecked o needsIncrementalBarrier count garbage

/-- The elements that are added are undefined. -/
def unshiftDenseElements (count : ℕ) (garbage : ℕ → HeapValue) : ObjectHeap :=
  (s.setObject o (((s.objects o).unshiftShiftedElements count).writeHeader garbage)).setDenseElements o 0
    (List.replicate count .undefined)

/-- The elements are moved back, and the first ones are shifted. -/
def reserveShiftedElements (toShift : ℕ) (garbage : ℕ → HeapValue) : ObjectHeap :=
  let initLen := (s.objects o).initializedLength
  let s := s.appendDenseElements o (List.replicate toShift .undefined)
  (s.moveDenseElements o needsIncrementalBarrier toShift 0 initLen).shiftDenseElementsUnchecked o
    needsIncrementalBarrier toShift garbage

def tryUnshiftDenseElements (count : ℕ) (garbage garbage' : ℕ → HeapValue) : ObjectHeap :=
  let header := s.objects o
  if header.numShifted < count then
    if header.initializedLength ≤ 10 ∨ header.isCopyOnWrite = true ∨ header.hasNonwritableArrayLength = true ∨
        MaxShiftedElements < count then s
    else
      let unusedCapacity := header.capacity - header.initializedLength
      let toShift := count - header.numShifted
      if unusedCapacity < toShift then s
      else
        let toShift := min (toShift + unusedCapacity / 2) unusedCapacity
        let toShift := if MaxShiftedElements < header.numShifted + toShift then MaxShiftedElements - header.numShifted
          else toShift
        (s.reserveShiftedElements o needsIncrementalBarrier toShift garbage).unshiftDenseElements o count garbage'
  else s.unshiftDenseElements o count garbage'

/-! ## Growing and shrinking -/

/-- What is done before the elements grow. -/
def moveBeforeGrowing : ObjectHeap :=
  if (s.objects o).initializedLength ≤ 20 then s.moveShiftedElements o needsIncrementalBarrier
  else s.maybeMoveShiftedElements o needsIncrementalBarrier

/-- The elements get a greater allocation; `ok` is whether there is memory for it. -/
def growAllocation (reqCapacity : ℕ) (ok : Bool) (garbage : ℕ → HeapValue) : ObjectHeap :=
  let obj := s.objects o
  let newAllocated := if obj.hasNonwritableArrayLength = true then
      some (reqCapacity + obj.numShifted + VALUES_PER_HEADER)
    else NativeObject.goodElementsAllocationAmount (reqCapacity + obj.numShifted) obj.length
  match newAllocated, ok with
  | some newAllocated, true => s.setObject o (obj.reallocate newAllocated garbage)
  | _, _ => s

def growElements (reqCapacity : ℕ) (ok : Bool) (garbage : ℕ → HeapValue) : ObjectHeap :=
  if 0 < (s.objects o).numShifted then
    let s := s.moveBeforeGrowing o needsIncrementalBarrier
    if reqCapacity ≤ (s.objects o).capacity then s
    else
      let s := if 2 ^ 32 ≤ reqCapacity + (s.objects o).numShifted then s.moveShiftedElements o needsIncrementalBarrier
        else s
      s.growAllocation o reqCapacity ok garbage
  else s.growAllocation o reqCapacity ok garbage

def shrinkElements (reqCapacity : ℕ) (ok : Bool) (garbage : ℕ → HeapValue) : ObjectHeap :=
  if (s.objects o).hasDynamicElements = false then s
  else
    let s := if 0 < (s.objects o).numShifted then s.maybeMoveShiftedElements o needsIncrementalBarrier else s
    let obj := s.objects o
    match NativeObject.goodElementsAllocationAmount (reqCapacity + obj.numShifted) 0, ok with
    | some newAllocated, true =>
      if newAllocated = obj.numAllocatedElements then s else s.setObject o (obj.reallocate newAllocated garbage)
    | _, _ => s

def shrinkCapacityToInitializedLength (needsIncrementalBarrier ok : Bool) (garbage : ℕ → HeapValue) : ObjectHeap :=
  let s := if 0 < (s.objects o).numShifted then s.moveShiftedElements o needsIncrementalBarrier else s
  let len := (s.objects o).initializedLength
  if (s.objects o).capacity = len then s
  else
    let s := s.shrinkElements o needsIncrementalBarrier len ok garbage
    s.setObject o { s.objects o with capacity := len }

end ObjectHeap

end SpiderMonkey.Gc
