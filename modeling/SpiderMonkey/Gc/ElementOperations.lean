import SpiderMonkey.Gc.ElementHeaders

/-!
# Operations on slots and elements

Each operation keeps the object good, if it may be done in the first place.
-/

namespace SpiderMonkey.Gc

open List

lemma NativeObject.Sizes.withLength {obj : NativeObject} (h : obj.Sizes) (length : ℕ) (hlength : length ≤ obj.capacity) :
    { obj with initializedLength := length }.Sizes :=
  ⟨hlength, h.allocated, h.shifted, h.nonwritable, h.span⟩

/-- There is enough room, and not too much. -/
lemma NativeObject.le_of_goodElementsAllocationAmount {reqCapacity length amount : ℕ}
    (h : goodElementsAllocationAmount reqCapacity length = some amount) :
    reqCapacity + VALUES_PER_HEADER ≤ amount ∧ amount ≤ MAX_DENSE_ELEMENTS_ALLOCATION := by
  have hmax : MAX_DENSE_ELEMENTS_ALLOCATION = 268435455 := rfl
  have hcount : MAX_DENSE_ELEMENTS_COUNT = 268435453 := rfl
  have hheader : VALUES_PER_HEADER = 2 := rfl
  have hmin : SLOT_CAPACITY_MIN = 8 := rfl
  unfold goodElementsAllocationAmount at h
  dsimp only at h
  by_cases hmany : MAX_DENSE_ELEMENTS_COUNT < reqCapacity
  · rw [if_pos hmany] at h
    cases h
  rw [if_neg hmany] at h
  by_cases hsmall : reqCapacity + VALUES_PER_HEADER < 2 ^ 20
  · have hlow : reqCapacity + VALUES_PER_HEADER ≤ 2 ^ Nat.clog 2 (reqCapacity + VALUES_PER_HEADER) :=
      Nat.le_pow_clog Nat.one_lt_two _
    have hhigh : 2 ^ Nat.clog 2 (reqCapacity + VALUES_PER_HEADER) ≤ 2 ^ 20 :=
      Nat.pow_le_pow_right Nat.two_pos (Nat.clog_le_of_le_pow hsmall.le)
    rw [if_pos hsmall] at h
    generalize 2 ^ Nat.clog 2 (reqCapacity + VALUES_PER_HEADER) = pow at h hlow hhigh
    have hamount := Option.some.inj h
    split_ifs at hamount <;> omega
  · rw [if_neg hsmall] at h
    have hamount := Option.some.inj h
    cases hfind : BigBuckets.find? fun b => decide (reqCapacity + VALUES_PER_HEADER ≤ b) with
    | none =>
      rw [hfind, Option.getD_none] at hamount
      omega
    | some bucket =>
      rw [hfind, Option.getD_some] at hamount
      have hle := of_decide_eq_true (find?_some (p := fun b => decide (reqCapacity + VALUES_PER_HEADER ≤ b)) hfind)
      have hbuckets : ∀ b ∈ BigBuckets, b ≤ MAX_DENSE_ELEMENTS_ALLOCATION := by decide
      have hmem := hbuckets bucket (mem_of_find?_eq_some hfind)
      omega

namespace ObjectHeap

open NativeObject HeapValue

variable {s s' : ObjectHeap} {o : ℕ}

lemma Good.inRange (hgood : s.Good o) {stop : ℕ} (hstop : stop ≤ (s.objects o).capacity) :
    stop + (s.objects o).numShifted + 1 < 2 ^ 32 := by
  have hcount : MAX_DENSE_ELEMENTS_COUNT = 268435453 := rfl
  have hallocated := hgood.sizes.allocated
  omega

/-! ## Slots -/

section

variable (h : s.EdgesOk) (hgood : s.Good o)

include h hgood

lemma keeps_setSlot {slot : ℕ} (v : HeapValue) (hslot : slot < MAX_SLOTS_COUNT) : Keeps s (s.setSlot o slot v) o := by
  have hmax : MAX_SLOTS_COUNT = 268435455 := rfl
  set obj : NativeObject := { s.objects o with slots := Function.update (s.objects o).slots slot v }
  have hset := reaches_setObject (o := o) h obj rfl
  obtain ⟨hpost, hobjects, hcovers⟩ := post_reaches (o := o) hset.edges .slot slot v (by omega)
  have hobj : (s.setSlot o slot v).objects o = obj := by
    rw [setSlot, hobjects, setObject_objects]
  have hreaches : Reaches s (s.setSlot o slot v) o := hset.trans hpost
  rw [setObject_objects] at hcovers
  refine ⟨hreaches, ?_, fun htenured i hi hnursery => ?_, fun u hu htenured hnursery => ?_⟩
  · rw [hobj]
    exact ⟨hgood.sizes.initialized, hgood.sizes.allocated, hgood.sizes.shifted, hgood.sizes.nonwritable,
      hgood.sizes.span⟩
  · rw [hobj] at htenured hi hnursery
    by_cases hslot' : i = slot
    · subst hslot'
      rw [show obj.slots i = v from Function.update_self _ _ _] at hnursery
      exact hcovers htenured hnursery
    · rw [show obj.slots i = (s.objects o).slots i from Function.update_of_ne hslot' _ _] at hnursery
      exact hreaches.covers _ _ _ (hgood.slots htenured i hi hnursery)
  · rw [hobj] at hu htenured hnursery
    exact hreaches.covers _ _ _ (hgood.elements u hu htenured hnursery)

lemma keeps_initSlotRange {start : ℕ} (values : List HeapValue)
    (hstop : start + values.length ≤ MAX_SLOTS_COUNT) : Keeps s (s.initSlotRange o start values) o := by
  induction values generalizing s start with
  | nil => exact .refl h hgood
  | cons v values ih =>
    rw [length_cons] at hstop
    have hfirst := keeps_setSlot h hgood v (show start < MAX_SLOTS_COUNT by omega)
    exact hfirst.trans (ih hfirst.reaches.edges hfirst.good (by omega))

lemma keeps_setSlotSpan {span : ℕ} (garbage : ℕ → HeapValue)
    (hspan : span ≤ MAX_SLOTS_COUNT) : Keeps s (s.setObject o ((s.objects o).setSlotSpan span garbage)) o := by
  refine ⟨reaches_setObject h _ rfl, ?_, fun htenured i hi hnursery => ?_, fun u hu htenured hnursery => ?_⟩
  · rw [setObject_objects]
    exact ⟨hgood.sizes.initialized, hgood.sizes.allocated, hgood.sizes.shifted, hgood.sizes.nonwritable, hspan⟩
  · rw [setObject_objects] at htenured hi hnursery
    have hi' : i < span := hi
    by_cases hold : i < min (s.objects o).slotSpan span
    · rw [setSlotSpan] at hnursery
      dsimp only at hnursery
      rw [if_pos hold] at hnursery
      exact hgood.slots htenured i (by omega) hnursery
    · rw [setSlotSpan] at hnursery
      dsimp only at hnursery
      rw [if_neg hold, if_pos hi'] at hnursery
      cases hnursery
  · rw [setObject_objects] at hu htenured hnursery
    exact hgood.elements u hu htenured hnursery

/-! ## Initialized lengths -/

lemma keeps_setInitializedLength {length : ℕ}
    (hlength : length ≤ (s.objects o).initializedLength) : Keeps s (s.setInitializedLength o length) o := by
  refine keeps_of_relabels h hgood _ ⟨rfl, rfl, rfl, ?_⟩ fun u hu => ⟨⟨hu.1, ?_⟩, rfl⟩
  · exact ⟨hlength.trans hgood.sizes.initialized, hgood.sizes.allocated, hgood.sizes.shifted, hgood.sizes.nonwritable,
      hgood.sizes.span⟩
  · have hstop : u < length + (s.objects o).numShifted := hu.2
    omega

lemma keeps_initDenseElements (src : List HeapValue)
    (hcapacity : src.length ≤ (s.objects o).capacity) : Keeps s (s.initDenseElements o src) o := by
  set obj : NativeObject := { s.objects o with initializedLength := src.length }
  have hset := reaches_setObject (o := o) h obj rfl
  have hrange : 0 + src.length + ((s.setObject o obj).objects o).numShifted + 1 < 2 ^ 32 := by
    simpa using hgood.inRange hcapacity
  have hwrote := wrote_writeElementsPost hset.edges 0 src hrange
  have hsizes : obj.Sizes := hgood.sizes.withLength src.length hcapacity
  refine keeps_of_relabels_wrote h hgood obj ⟨rfl, rfl, rfl, hsizes⟩ hwrote fun u hu => .inl ?_
  rw [setObject_objects, Nat.zero_add, Nat.zero_add]
  exact hu

lemma keeps_ensureDenseInitializedLength {index extra : ℕ}
    (hcapacity : index + extra ≤ (s.objects o).capacity) : Keeps s (s.ensureDenseInitializedLength o index extra) o := by
  rw [ensureDenseInitializedLength]
  split_ifs with hle
  · exact .refl h hgood
  · have hlength : (replicate (index + extra - (s.objects o).initializedLength) hole).length =
        index + extra - (s.objects o).initializedLength := length_replicate
    have hwrote := wrote_setDenseElements (o := o) h (s.objects o).initializedLength
      (replicate (index + extra - (s.objects o).initializedLength) hole) (by
        rw [hlength]
        have := hgood.inRange hcapacity
        omega)
    rw [hlength] at hwrote
    refine keeps_of_wrote_relabels hgood _ hwrote ⟨rfl, rfl, rfl, ?_⟩ fun u hu => ⟨?_, rfl⟩
    · exact (hwrote.sizes hgood.sizes).withLength (index + extra) (by rw [hwrote.capacity]; exact hcapacity)
    · obtain ⟨hlow, hhigh⟩ := hu
      dsimp only at hlow hhigh
      rw [hwrote.numShifted] at hlow hhigh
      rw [Initialized]
      omega

lemma appendDenseElements_keeps (values : List HeapValue)
    (hcapacity : (s.objects o).initializedLength + values.length ≤ (s.objects o).capacity) :
    Keeps s (s.appendDenseElements o values) o ∧ ∃ memory, (s.appendDenseElements o values).objects o =
        { s.objects o with
          initializedLength := (s.objects o).initializedLength + values.length
          memory := memory } := by
  set length := (s.objects o).initializedLength + values.length
  set obj : NativeObject := { s.objects o with initializedLength := length }
  have hset := reaches_setObject (o := o) h obj rfl
  have hrange : (s.objects o).initializedLength + values.length + ((s.setObject o obj).objects o).numShifted + 1 <
      2 ^ 32 := by
    rw [setObject_objects]
    exact hgood.inRange hcapacity
  have hwrote := wrote_setDenseElements hset.edges (s.objects o).initializedLength values hrange
  have hsizes : obj.Sizes := hgood.sizes.withLength length hcapacity
  refine ⟨keeps_of_relabels_wrote h hgood obj ⟨rfl, rfl, rfl, hsizes⟩ hwrote fun u hu => ?_, ?_⟩
  swap
  · have hrest := hwrote.rest
    rw [setObject_objects] at hrest
    exact ⟨_, hrest⟩
  rw [setObject_objects]
  have hlow : (s.objects o).numShifted ≤ u := hu.1
  have hhigh : u < (s.objects o).initializedLength + values.length + (s.objects o).numShifted := hu.2
  have hshifted : obj.numShifted = (s.objects o).numShifted := rfl
  by_cases hold : u < (s.objects o).initializedLength + (s.objects o).numShifted
  · exact .inr ⟨⟨hlow, hold⟩, rfl⟩
  · exact .inl (by omega)

/-! ## Moving the elements back -/

variable (needsIncrementalBarrier : Bool)

lemma moveShiftedElements_keeps : Keeps s (s.moveShiftedElements o needsIncrementalBarrier) o ∧
      ∃ memory, (s.moveShiftedElements o needsIncrementalBarrier).objects o = { s.objects o with
          numShifted := 0
          capacity := (s.objects o).capacity + (s.objects o).numShifted
          memory := memory } := by
  set numShifted := (s.objects o).numShifted
  set initLength := (s.objects o).initializedLength
  set obj : NativeObject :=
    { (s.objects o).clearShiftedElements with
      capacity := (s.objects o).capacity + numShifted
      initializedLength := initLength + numShifted }
  have hinitialized := hgood.sizes.initialized
  have hallocated := hgood.sizes.allocated
  have hrange := hgood.inRange hinitialized
  have hset := reaches_setObject (o := o) h obj rfl
  have hobj : (s.setObject o obj).objects o = obj := setObject_objects s o obj
  have hshifted : obj.numShifted = 0 := rfl
  have hlength : (replicate numShifted undefined).length = numShifted := length_replicate
  have hsizes : obj.Sizes :=
    ⟨show initLength + numShifted ≤ (s.objects o).capacity + numShifted by omega,
      show (s.objects o).capacity + numShifted + 0 ≤ _ by omega, Nat.zero_le _, fun _ => rfl, hgood.sizes.span⟩
  -- the places of the shifted elements, and then the elements
  have hfirst := wrote_setDenseElements hset.edges 0 (replicate numShifted undefined) (by
    rw [hlength, hobj, hshifted]
    omega)
  have hsecond := wrote_moveDenseElements hfirst.reaches.edges needsIncrementalBarrier 0 numShifted initLength (by
    rw [hfirst.numShifted, hobj, hshifted]
    omega)
  have hwrote := hfirst.trans hsecond
  have hkeeps := keeps_of_relabels_wrote h hgood obj ⟨rfl, rfl, rfl, hsizes⟩ hwrote fun u hu => by
    rw [hfirst.numShifted, hobj, hshifted, hlength]
    have hhigh : u < initLength + numShifted + 0 := hu.2
    by_cases hu' : u < numShifted
    · exact .inl (.inl (by omega))
    · exact .inr ⟨⟨by omega, hhigh⟩, rfl⟩
  have hlength' : initLength + numShifted = obj.initializedLength := rfl
  have hlast := keeps_setInitializedLength hkeeps.reaches.edges hkeeps.good
    (show initLength ≤ _ by rw [hwrote.initializedLength, hobj, ← hlength']; omega)
  refine ⟨hkeeps.trans hlast, ?_⟩
  have hrest := hwrote.rest
  rw [hobj] at hrest
  rw [moveShiftedElements]
  dsimp only
  rw [setInitializedLength, setObject_objects, hrest]
  exact ⟨_, rfl⟩

lemma keeps_maybeMoveShiftedElements : Keeps s (s.maybeMoveShiftedElements o needsIncrementalBarrier) o := by
  rw [maybeMoveShiftedElements]
  split_ifs
  · exact (moveShiftedElements_keeps h hgood needsIncrementalBarrier).1
  · exact .refl h hgood

/-! ## Shifting -/

/-- The header is moved over the first elements. -/
lemma keeps_addShiftedElements {count : ℕ} (garbage : ℕ → HeapValue) (hcount : count < (s.objects o).initializedLength)
    (hshifted : (s.objects o).numShifted + count ≤ MaxShiftedElements)
    (hwritable : (s.objects o).hasNonwritableArrayLength = false) :
    Keeps s (s.setObject o (((s.objects o).addShiftedElements count).writeHeader garbage)) o := by
  set obj := ((s.objects o).addShiftedElements count).writeHeader garbage
  have hinitialized := hgood.sizes.initialized
  have hallocated := hgood.sizes.allocated
  have hsizes : obj.Sizes := by
    refine ⟨?_, ?_, hshifted, fun hnonwritable => ?_, hgood.sizes.span⟩
    · exact Nat.sub_le_sub_right hinitialized count
    · change (s.objects o).capacity - count + ((s.objects o).numShifted + count) ≤ _
      omega
    · rw [show obj.hasNonwritableArrayLength = (s.objects o).hasNonwritableArrayLength from rfl, hwritable]
        at hnonwritable
      cases hnonwritable
  refine keeps_of_relabels h hgood obj ⟨rfl, rfl, rfl, hsizes⟩ fun u hu => ?_
  have hlow : (s.objects o).numShifted + count ≤ u := hu.1
  have hhigh : u < (s.objects o).initializedLength - count + ((s.objects o).numShifted + count) := hu.2
  refine ⟨⟨by omega, by omega⟩, if_neg fun hheader => ?_⟩
  have hbefore : u < (s.objects o).numShifted + count := hheader.1
  omega

lemma shiftDenseElementsUnchecked_keeps {count : ℕ}
    (garbage : ℕ → HeapValue) (hcount : count < (s.objects o).initializedLength) (hmax : count ≤ MaxShiftedElements)
    (hwritable : (s.objects o).hasNonwritableArrayLength = false) :
    Keeps s (s.shiftDenseElementsUnchecked o needsIncrementalBarrier count garbage) o ∧
      ((s.objects o).numShifted + count ≤ MaxShiftedElements →
        ((s.shiftDenseElementsUnchecked o needsIncrementalBarrier count garbage).objects o).numShifted =
          (s.objects o).numShifted + count) := by
  rw [shiftDenseElementsUnchecked]
  split_ifs with hmany
  · obtain ⟨hkeeps, memory, hobj⟩ := moveShiftedElements_keeps h hgood needsIncrementalBarrier
    refine ⟨hkeeps.trans (keeps_addShiftedElements hkeeps.reaches.edges hkeeps.good garbage ?_ ?_ ?_), fun hfew => ?_⟩
    · rw [hobj]
      exact hcount
    · simp [hobj, hmax]
    · rw [hobj]
      exact hwritable
    · omega
  · refine ⟨keeps_addShiftedElements h hgood garbage hcount (by omega) hwritable, fun _ => ?_⟩
    rw [setObject_objects]
    rfl

lemma keeps_tryShiftDenseElements {count : ℕ}
    (garbage : ℕ → HeapValue) (hcount : count ≤ (s.objects o).initializedLength) :
    Keeps s (s.tryShiftDenseElements o needsIncrementalBarrier count garbage) o := by
  rw [tryShiftDenseElements]
  split_ifs with hnot
  · exact .refl h hgood
  · rw [not_or, not_or, not_or] at hnot
    obtain ⟨hlength, hmax, -, hwritable⟩ := hnot
    exact (shiftDenseElementsUnchecked_keeps h hgood needsIncrementalBarrier garbage (by omega) (by omega)
      (Bool.eq_false_of_not_eq_true hwritable)).1

/-! ## Unshifting -/

lemma keeps_unshiftDenseElements {count : ℕ} (garbage : ℕ → HeapValue)
    (hcount : count ≤ (s.objects o).numShifted) : Keeps s (s.unshiftDenseElements o count garbage) o := by
  set obj := ((s.objects o).unshiftShiftedElements count).writeHeader garbage
  have hinitialized := hgood.sizes.initialized
  have hallocated := hgood.sizes.allocated
  have hrange := hgood.inRange hinitialized
  have hshifted := hgood.sizes.shifted
  have hset := reaches_setObject (o := o) h obj rfl
  have hobj : (s.setObject o obj).objects o = obj := setObject_objects s o obj
  have hnum : obj.numShifted = (s.objects o).numShifted - count := rfl
  have hlength : (replicate count undefined).length = count := length_replicate
  have hsizes : obj.Sizes := by
    refine ⟨Nat.add_le_add_right hinitialized count, ?_, ?_, fun hnonwritable => ?_, hgood.sizes.span⟩
    · change (s.objects o).capacity + count + ((s.objects o).numShifted - count) ≤ _
      omega
    · change (s.objects o).numShifted - count ≤ _
      omega
    · have hzero := hgood.sizes.nonwritable hnonwritable
      omega
  have hwrote := wrote_setDenseElements hset.edges 0 (replicate count undefined) (by
    rw [hlength, hobj, hnum]
    omega)
  refine keeps_of_relabels_wrote h hgood obj ⟨rfl, rfl, rfl, hsizes⟩ hwrote fun u hu => ?_
  rw [hlength, hobj, hnum]
  have hlow : (s.objects o).numShifted - count ≤ u := hu.1
  have hhigh : u < (s.objects o).initializedLength + count + ((s.objects o).numShifted - count) := hu.2
  by_cases hu' : u < (s.objects o).numShifted
  · exact .inl (by omega)
  · refine .inr ⟨⟨by omega, by omega⟩, if_neg fun hheader => ?_⟩
    have hbefore : u < (s.objects o).numShifted - count := hheader.1
    omega

/-- The elements are moved by as many places as the header is. -/
lemma reserveShiftedElements_keeps {toShift : ℕ}
    (garbage : ℕ → HeapValue) (hlength : 0 < (s.objects o).initializedLength)
    (hcapacity : (s.objects o).initializedLength + toShift ≤ (s.objects o).capacity)
    (hshifted : (s.objects o).numShifted + toShift ≤ MaxShiftedElements)
    (hwritable : (s.objects o).hasNonwritableArrayLength = false) :
    Keeps s (s.reserveShiftedElements o needsIncrementalBarrier toShift garbage) o ∧
      ((s.reserveShiftedElements o needsIncrementalBarrier toShift garbage).objects o).numShifted =
        (s.objects o).numShifted + toShift := by
  have hreplicate : (replicate toShift undefined).length = toShift := length_replicate
  obtain ⟨happend, memory, hobj⟩ := appendDenseElements_keeps h hgood (replicate toShift .undefined)
    (by rw [hreplicate]; exact hcapacity)
  rw [hreplicate] at hobj
  set s₁ := s.appendDenseElements o (replicate toShift .undefined)
  have hnum : (s₁.objects o).numShifted = (s.objects o).numShifted := by rw [hobj]
  have hlength' : (s₁.objects o).initializedLength = (s.objects o).initializedLength + toShift := by rw [hobj]
  have hwritable' : (s₁.objects o).hasNonwritableArrayLength = false := by
    rw [hobj]
    exact hwritable
  have hrange := hgood.inRange hcapacity
  have hwrote := wrote_moveDenseElements happend.reaches.edges needsIncrementalBarrier toShift 0
    (s.objects o).initializedLength (by rw [hnum]; omega)
  have hmove := hwrote.keeps happend.good
  obtain ⟨hshift, hnum'⟩ := shiftDenseElementsUnchecked_keeps hmove.reaches.edges hmove.good needsIncrementalBarrier
    garbage (show toShift < _ by rw [hwrote.initializedLength, hlength']; omega) (by omega)
    ((congrArg hasNonwritableArrayLength hwrote.rest).trans hwritable')
  rw [hwrote.numShifted, hnum] at hnum'
  exact ⟨happend.trans (hmove.trans hshift), hnum' hshifted⟩

lemma keeps_reserveUnshift {count toShift : ℕ}
    (garbage garbage' : ℕ → HeapValue) (hlength : 0 < (s.objects o).initializedLength)
    (hcapacity : (s.objects o).initializedLength + toShift ≤ (s.objects o).capacity)
    (hshifted : (s.objects o).numShifted + toShift ≤ MaxShiftedElements)
    (hwritable : (s.objects o).hasNonwritableArrayLength = false)
    (hcount : count ≤ (s.objects o).numShifted + toShift) :
    Keeps s ((s.reserveShiftedElements o needsIncrementalBarrier toShift garbage).unshiftDenseElements o count garbage')
      o := by
  obtain ⟨hreserve, hnum⟩ :=
    reserveShiftedElements_keeps h hgood needsIncrementalBarrier garbage hlength hcapacity hshifted hwritable
  exact hreserve.trans
    (keeps_unshiftDenseElements hreserve.reaches.edges hreserve.good garbage' (hcount.trans hnum.ge))

lemma keeps_tryUnshiftDenseElements (count : ℕ) (garbage garbage' : ℕ → HeapValue) :
    Keeps s (s.tryUnshiftDenseElements o needsIncrementalBarrier count garbage garbage') o := by
  have hinitialized := hgood.sizes.initialized
  have hshifted := hgood.sizes.shifted
  rw [tryUnshiftDenseElements]
  dsimp only
  by_cases hmore : (s.objects o).numShifted < count
  · rw [if_pos hmore]
    split_ifs with hnot hfull hmany
    · exact .refl h hgood
    · exact .refl h hgood
    all_goals
      rw [not_or, not_or, not_or] at hnot
      obtain ⟨hlength, -, hwritable, hmax⟩ := hnot
      refine keeps_reserveUnshift h hgood needsIncrementalBarrier garbage garbage' ?_ ?_ ?_
        (Bool.eq_false_of_not_eq_true hwritable) ?_ <;> omega
  · rw [if_neg hmore]
    exact keeps_unshiftDenseElements h hgood garbage' (by omega)

/-! ## Growing and shrinking -/

lemma keeps_reallocate {newAllocated : ℕ} (garbage : ℕ → HeapValue)
    (hroom : (s.objects o).initializedLength + (s.objects o).numShifted + VALUES_PER_HEADER ≤ newAllocated)
    (hmax : newAllocated ≤ MAX_DENSE_ELEMENTS_ALLOCATION) :
    Keeps s (s.setObject o ((s.objects o).reallocate newAllocated garbage)) o := by
  set obj := (s.objects o).reallocate newAllocated garbage
  have hheader : VALUES_PER_HEADER = 2 := rfl
  have hcount : MAX_DENSE_ELEMENTS_COUNT = MAX_DENSE_ELEMENTS_ALLOCATION - VALUES_PER_HEADER := rfl
  have hinitialized := hgood.sizes.initialized
  have hcapacity : obj.capacity = newAllocated - VALUES_PER_HEADER - (s.objects o).numShifted := rfl
  have hlength : obj.initializedLength = (s.objects o).initializedLength := rfl
  have hnum : obj.numShifted = (s.objects o).numShifted := rfl
  have hsizes : obj.Sizes := ⟨by omega, by omega, hgood.sizes.shifted, hgood.sizes.nonwritable, hgood.sizes.span⟩
  refine keeps_of_relabels h hgood obj ⟨rfl, rfl, rfl, hsizes⟩ fun u hu => ⟨hu, if_pos ?_⟩
  have hhigh : u < (s.objects o).initializedLength + (s.objects o).numShifted := hu.2
  split_ifs
  · rw [numAllocatedElements]
    omega
  · exact hhigh

lemma keeps_growAllocation {reqCapacity : ℕ} (ok : Bool) (garbage : ℕ → HeapValue)
    (hcapacity : (s.objects o).capacity < reqCapacity)
    (hnonwritable : (s.objects o).hasNonwritableArrayLength = true → reqCapacity ≤ MAX_DENSE_ELEMENTS_COUNT) :
    Keeps s (s.growAllocation o reqCapacity ok garbage) o := by
  have hheader : VALUES_PER_HEADER = 2 := rfl
  have hcount : MAX_DENSE_ELEMENTS_COUNT = MAX_DENSE_ELEMENTS_ALLOCATION - VALUES_PER_HEADER := rfl
  have hmax : MAX_DENSE_ELEMENTS_ALLOCATION = 268435455 := rfl
  have hinitialized := hgood.sizes.initialized
  unfold growAllocation
  dsimp only
  split
  next newAllocated hamount =>
    split_ifs at hamount with hwritable
    · have hzero := hgood.sizes.nonwritable hwritable
      have hreq := hnonwritable hwritable
      have hsame := Option.some.inj hamount
      exact keeps_reallocate h hgood garbage (by omega) (by omega)
    · have hgoodAmount := le_of_goodElementsAllocationAmount hamount
      exact keeps_reallocate h hgood garbage (by omega) hgoodAmount.2
  next => exact .refl h hgood

lemma moveBeforeGrowing_keeps : Keeps s (s.moveBeforeGrowing o needsIncrementalBarrier) o ∧
      ((s.moveBeforeGrowing o needsIncrementalBarrier).objects o).hasNonwritableArrayLength =
        (s.objects o).hasNonwritableArrayLength := by
  obtain ⟨hkeeps, memory, hobj⟩ := moveShiftedElements_keeps h hgood needsIncrementalBarrier
  have hwritable := congrArg hasNonwritableArrayLength hobj
  rw [moveBeforeGrowing, maybeMoveShiftedElements]
  split_ifs
  · exact ⟨hkeeps, hwritable⟩
  · exact ⟨hkeeps, hwritable⟩
  · exact ⟨.refl h hgood, rfl⟩

lemma keeps_growElements {reqCapacity : ℕ}
    (ok : Bool) (garbage : ℕ → HeapValue) (hcapacity : (s.objects o).capacity < reqCapacity)
    (hreq : reqCapacity < 2 ^ 32)
    (hnonwritable : (s.objects o).hasNonwritableArrayLength = true → reqCapacity ≤ MAX_DENSE_ELEMENTS_COUNT) :
    Keeps s (s.growElements o needsIncrementalBarrier reqCapacity ok garbage) o := by
  rw [growElements]
  split_ifs with hshifted
  · obtain ⟨hmove, hwritable⟩ := moveBeforeGrowing_keeps h hgood needsIncrementalBarrier
    rw [← hwritable] at hnonwritable
    set s₁ := s.moveBeforeGrowing o needsIncrementalBarrier
    have hedges := hmove.reaches.edges
    dsimp only
    split_ifs with henough hoverflow
    · exact hmove
    · obtain ⟨hback, memory, hobj⟩ := moveShiftedElements_keeps hedges hmove.good needsIncrementalBarrier
      have hcount : MAX_DENSE_ELEMENTS_COUNT = 268435453 := rfl
      have hallocated := hback.good.sizes.allocated
      have hshifted' : (s₁.objects o).numShifted ≤ 2047 := hmove.good.sizes.shifted
      rw [← congrArg hasNonwritableArrayLength hobj] at hnonwritable
      exact hmove.trans (hback.trans
        (keeps_growAllocation hback.reaches.edges hback.good ok garbage (by omega) hnonwritable))
    · exact hmove.trans (keeps_growAllocation hedges hmove.good ok garbage (by omega) hnonwritable)
  · exact keeps_growAllocation h hgood ok garbage hcapacity hnonwritable

lemma moveBeforeShrinking_keeps :
    Keeps s (if 0 < (s.objects o).numShifted then s.maybeMoveShiftedElements o needsIncrementalBarrier else s) o ∧
      ((if 0 < (s.objects o).numShifted then s.maybeMoveShiftedElements o needsIncrementalBarrier
        else s).objects o).initializedLength = (s.objects o).initializedLength := by
  obtain ⟨hkeeps, memory, hobj⟩ := moveShiftedElements_keeps h hgood needsIncrementalBarrier
  have hlength := congrArg initializedLength hobj
  rw [maybeMoveShiftedElements]
  split_ifs
  · exact ⟨hkeeps, hlength⟩
  · exact ⟨.refl h hgood, rfl⟩
  · exact ⟨.refl h hgood, rfl⟩

lemma shrinkElements_keeps {reqCapacity : ℕ}
    (ok : Bool) (garbage : ℕ → HeapValue) (hlength : (s.objects o).initializedLength ≤ reqCapacity) :
    Keeps s (s.shrinkElements o needsIncrementalBarrier reqCapacity ok garbage) o ∧
      ((s.shrinkElements o needsIncrementalBarrier reqCapacity ok garbage).objects o).initializedLength =
        (s.objects o).initializedLength := by
  rw [shrinkElements]
  by_cases hfixed : (s.objects o).hasDynamicElements = false
  · rw [if_pos hfixed]
    exact ⟨.refl h hgood, rfl⟩
  · rw [if_neg hfixed]
    obtain ⟨hmove, hsame⟩ := moveBeforeShrinking_keeps h hgood needsIncrementalBarrier
    rw [← hsame] at hlength ⊢
    generalize (if 0 < (s.objects o).numShifted then s.maybeMoveShiftedElements o needsIncrementalBarrier
      else s) = s₁ at hmove hlength ⊢
    dsimp only
    split
    next newAllocated hamount =>
      have hgoodAmount := le_of_goodElementsAllocationAmount hamount
      split_ifs
      · exact ⟨hmove, rfl⟩
      · refine ⟨hmove.trans (keeps_reallocate hmove.reaches.edges hmove.good garbage (by omega) hgoodAmount.2), ?_⟩
        rw [setObject_objects]
        rfl
    next => exact ⟨hmove, rfl⟩

lemma keeps_setCapacity {capacity : ℕ}
    (hlength : (s.objects o).initializedLength ≤ capacity) (hcapacity : capacity ≤ (s.objects o).capacity) :
    Keeps s (s.setObject o { s.objects o with capacity := capacity }) o := by
  have hallocated := hgood.sizes.allocated
  refine keeps_of_relabels h hgood _ ⟨rfl, rfl, rfl, ?_⟩ fun u hu => ⟨hu, rfl⟩
  exact ⟨hlength, show capacity + (s.objects o).numShifted ≤ _ by omega, hgood.sizes.shifted, hgood.sizes.nonwritable,
    hgood.sizes.span⟩

lemma keeps_shrinkCapacityToInitializedLength (needsIncrementalBarrier ok : Bool) (garbage : ℕ → HeapValue) :
    Keeps s (s.shrinkCapacityToInitializedLength o needsIncrementalBarrier ok garbage) o := by
  have hmove : Keeps s (if 0 < (s.objects o).numShifted then s.moveShiftedElements o needsIncrementalBarrier else s)
      o := by
    split_ifs
    · exact (moveShiftedElements_keeps h hgood needsIncrementalBarrier).1
    · exact .refl h hgood
  rw [shrinkCapacityToInitializedLength]
  generalize (if 0 < (s.objects o).numShifted then s.moveShiftedElements o needsIncrementalBarrier else s) = s₁
    at hmove ⊢
  dsimp only
  split_ifs with hexact
  · exact hmove
  · obtain ⟨hshrink, hlength⟩ := shrinkElements_keeps hmove.reaches.edges hmove.good needsIncrementalBarrier ok garbage
      (le_refl (s₁.objects o).initializedLength)
    have hinitialized := hshrink.good.sizes.initialized
    rw [hlength] at hinitialized
    exact hmove.trans (hshrink.trans (keeps_setCapacity hshrink.reaches.edges hshrink.good hlength.le hinitialized))

end

end ObjectHeap

end SpiderMonkey.Gc
