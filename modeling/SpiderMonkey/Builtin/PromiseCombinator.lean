import SpiderMonkey.Lib.EventRun

/-!
# The element functions of the promise combinators

`Promise.all`, `Promise.allSettled` and `Promise.any`, and what user code can do with the functions that they
hand out and, once it has got it, with the array of values.
-/

namespace SpiderMonkey

open EventRun List

/-! ## The combinator -/

inductive CombinatorKind
  | All
  | AllSettled
  | Any
  deriving DecidableEq

/-- An element of the array of values, or of errors.  `settled` is the object that `Promise.allSettled` makes,
with its `status` and its `value` or `reason`. -/
inductive ElementValue (V : Type)
  | undefined
  | other (v : V)
  | settled (fulfilled : Bool) (valueOrReason : ElementValue V)

def ElementValue.isUndefined {V : Type} : ElementValue V → Bool
  | .undefined => true
  | _ => false

/-- An element function.  Its data slot is cleared when it is called; `fulfilled` tells the resolve function
from the reject function. -/
structure ElementFunction where
  fulfilled : Bool
  index : ℕ
  data : Bool

/-- What element functions do with the array and with the count; `called` says that the function of the
capability is called. -/
inductive ElementAccess
  | read (index initializedLength : ℕ)
  | write (index initializedLength : ℕ) (published : Bool)
  | decreased (remaining : ℤ) (called : Bool)
  deriving DecidableEq

inductive IterationPhase
  | running
  | aborted
  | finished
  deriving DecidableEq

/-- `values` are the initialized elements of the array, `index` is the number of elements that there have been
in the iteration, and `published` says that user code has got the array. -/
structure Combinator (V : Type) where
  kind : CombinatorKind
  values : List (ElementValue V)
  index : ℕ
  functions : List ElementFunction
  remainingCount : ℤ
  phase : IterationPhase
  published : Bool
  accesses : List ElementAccess

/-- Where there can be no memory in an iteration step. -/
inductive NextFailure
  | push
  | functions
  deriving DecidableEq

/-- Where a call of an element function can fail: the array is a dead wrapper, or there is no memory to make
the value or to wrap it. -/
inductive CallFailure
  | elements
  | store
  deriving DecidableEq

/-- What is read outside of the array is `stray`. -/
inductive CombinatorEvent (V : Type)
  | next (failure : Option NextFailure)
  | abrupt
  | finish
  | call (f : ℕ) (x stray : ElementValue V) (failure : Option CallFailure)
  | mutate (values : List (ElementValue V))

namespace Combinator

open ElementAccess

variable {V : Type}

def init (kind : CombinatorKind) : Combinator V := ⟨kind, [], 0, [], 1, .running, false, []⟩

/-- The functions that `getResolveAndReject` makes. -/
def newFunctions (kind : CombinatorKind) (index : ℕ) : List ElementFunction :=
  match kind with
  | .All => [⟨true, index, true⟩]
  | .AllSettled => [⟨true, index, true⟩, ⟨false, index, true⟩]
  | .Any => [⟨false, index, true⟩]

def getResolveAndReject (failure : Option NextFailure) (s : Combinator V) : Combinator V :=
  match failure with
  | some .push => { s with phase := .aborted }
  | some .functions => { s with values := s.values ++ [.undefined], phase := .aborted }
  | none =>
    { s with
      values := s.values ++ [.undefined]
      functions := s.functions ++ newFunctions s.kind s.index
      remainingCount := s.remainingCount + 1
      index := s.index + 1 }

/-- The end of `PerformPromiseAll` and the like. -/
def finish (s : Combinator V) : Combinator V :=
  let remainingCount := s.remainingCount - 1
  { s with
    remainingCount := remainingCount
    phase := .finished
    published := s.published || remainingCount = 0 }

/-- `setElement`, and what follows it. -/
def setElement (index : ℕ) (v : ElementValue V) (s : Combinator V) : Combinator V :=
  let remainingCount := s.remainingCount - 1
  { s with
    values := s.values.set index v
    remainingCount := remainingCount
    published := s.published || remainingCount = 0
    accesses := s.accesses ++
      [.write index s.values.length s.published, .decreased remainingCount (remainingCount = 0)] }

/-- `PromiseAllSettledElementFunction`, once it has got the array. -/
def settleElement (fn : ElementFunction) (x stray : ElementValue V) (failure : Option CallFailure)
    (s : Combinator V) : Combinator V :=
  let element := s.values.getD fn.index stray
  let s := { s with accesses := s.accesses ++ [.read fn.index s.values.length] }
  if element.isUndefined = false ∨ failure = some .store then s
  else s.setElement fn.index (.settled fn.fulfilled x)

/-- An element function is called for the first time. -/
def callElement (fn : ElementFunction) (x stray : ElementValue V) (failure : Option CallFailure) (s : Combinator V) :
    Combinator V :=
  if failure = some .elements then s
  else if s.kind = .AllSettled then s.settleElement fn x stray failure
  else if failure = some .store then s
  else s.setElement fn.index x

def step : CombinatorEvent V → Combinator V → Option (Combinator V)
  | .next failure, s => if s.phase = .running then some (s.getResolveAndReject failure) else none
  | .abrupt, s => if s.phase = .running then some { s with phase := .aborted } else none
  | .finish, s => if s.phase = .running then some s.finish else none
  | .call f x stray failure, s =>
    match s.functions[f]? with
    | none => none
    | some fn =>
      if fn.data = false then some s
      else some (callElement fn x stray failure { s with functions := s.functions.set f { fn with data := false } })
  | .mutate values, s => if s.published = true then some { s with values := values } else none

/-! ## What is expected of it -/

variable (accesses : List ElementAccess)

/-- The indices that have been written. -/
def writes : List ℕ :=
  accesses.filterMap fun access =>
    match access with
    | .write index _ _ => some index
    | _ => none

/-- How often the function of the capability has been called. -/
def calls : ℕ := accesses.countP fun access =>
  match access with
  | .decreased _ called => called
  | _ => false

/-- The number of elements that have not been settled. -/
def unsettled (s : Combinator V) : ℕ := (List.range s.index).countP fun i => i ∉ writes s.accesses

/-- An access is in bounds, a write is to the unpublished array, and the function of the capability is called
when the count reaches zero. -/
def Proper : ElementAccess → Prop
  | .read index initializedLength => index < initializedLength
  | .write index initializedLength published => index < initializedLength ∧ published = false
  | .decreased remaining called => 0 ≤ remaining ∧ (called = true ↔ remaining = 0)

structure Kept (s : Combinator V) : Prop where
  proper : ∀ access ∈ s.accesses, Proper access
  once : (writes s.accesses).Nodup
  count : s.phase = .running → s.remainingCount = unsettled s + 1
  nonneg : 0 ≤ s.remainingCount
  called : calls s.accesses ≤ 1

/-- A function of a pair that is called after the array has been published finds its element in the array, and
does not find it undefined. -/
def Heeds (s : Combinator V) : CombinatorEvent V → Prop
  | .call f _ _ failure => s.kind = .AllSettled → s.published = true → ∀ fn, s.functions[f]? = some fn →
    fn.data = true → failure ≠ some .elements → ∃ v, s.values[fn.index]? = some v ∧
      (v.isUndefined = false ∨ failure = some .store)
  | _ => True

/-! ## The invariant -/

variable {s s' : Combinator V}

variable (index length : ℕ)

@[simp] lemma writes_read : writes (accesses ++ [read index length]) = writes accesses := by simp [writes]

@[simp] lemma writes_write (published : Bool) (remaining : ℤ)
    (called : Bool) : writes (accesses ++ [write index length published, decreased remaining called]) =
      writes accesses ++ [index] := by simp [writes]

@[simp] lemma calls_read : calls (accesses ++ [read index length]) = calls accesses := by simp [calls]

@[simp] lemma calls_write (published : Bool) (remaining : ℤ)
    (called : Bool) : calls (accesses ++ [write index length published, decreased remaining called]) =
      calls accesses + if called = true then 1 else 0 := by
  cases called <;> simp [calls]

lemma countP_notMem_add_length {n : ℕ} {l : List ℕ} (hl : l.Nodup) (hlt : ∀ i ∈ l, i < n) :
    ((List.range n).countP fun i => i ∉ l) + l.length = n := by
  have hperm : ((List.range n).filter fun i => i ∈ l).Perm l := by
    refine (perm_ext_iff_of_nodup (nodup_range.filter _) hl).2 fun i => ?_
    simp only [mem_filter, mem_range, decide_eq_true_eq]
    exact ⟨fun h => h.2, fun h => ⟨hlt i h, h⟩⟩
  have hsplit := length_eq_countP_add_countP (fun i => decide (i ∈ l)) (l := List.range n)
  rw [length_range, countP_eq_length_filter, hperm.length_eq] at hsplit
  simp only [decide_eq_true_eq] at hsplit
  omega

lemma getElem?_append_of_some {α : Type} {l l' : List α} {i : ℕ} {v : α} (h : l[i]? = some v) :
    (l ++ l')[i]? = some v :=
  (getElem?_append_left (List.getElem?_eq_some_iff.1 h).1).trans h

structure Sound (s : Combinator V) : Prop where
  length : s.published = false → s.index ≤ s.values.length
  bounded : ∀ fn ∈ s.functions, fn.index < s.index
  written : ∀ i ∈ writes s.accesses, i < s.index
  once : (writes s.accesses).Nodup
  count : s.remainingCount + (writes s.accesses).length = s.index + if s.phase = .finished then 0 else 1
  published : s.published = true ↔ s.remainingCount = 0
  /-- An element of `Promise.allSettled` that has been written is not undefined any more. -/
  settled : s.kind = .AllSettled → s.published = false → ∀ i ∈ writes s.accesses,
    ∃ v, s.values[i]? = some v ∧ v.isUndefined = false
  /-- Elsewhere there is one function for each element. -/
  single : s.kind ≠ .AllSettled → (s.functions.map ElementFunction.index).Nodup ∧
    ∀ fn ∈ s.functions, fn.data = true → fn.index ∉ writes s.accesses
  proper : ∀ access ∈ s.accesses, Proper access
  called : calls s.accesses ≤ 1 ∧ (s.published = false → calls s.accesses = 0)

lemma sound_init (kind : CombinatorKind) : (init kind : Combinator V).Sound where
  length _ := le_rfl
  bounded := by simp [init]
  written := by simp [init, writes]
  once := nodup_nil
  count := rfl
  published := by simp [init]
  settled := by simp [init, writes]
  single := by simp [init]
  proper := by simp [init]
  called := by simp [init, calls]

namespace Sound

open Option

section

variable (h : s.Sound)

include h

lemma length_writes_le : (writes s.accesses).length ≤ s.index := by
  have := countP_notMem_add_length h.once h.written
  omega

lemma kept : s.Kept where
  proper := h.proper
  once := h.once
  count hrunning := by
    have hcount := h.count
    have hunsettled := countP_notMem_add_length h.once h.written
    rw [if_neg (by simp [hrunning])] at hcount
    unfold unsettled
    omega
  nonneg := by
    have hcount := h.count
    have := h.length_writes_le
    omega
  called := h.called.1

lemma pos (hpublished : s.published = false) : 0 < s.remainingCount := by
  have hne : s.remainingCount ≠ 0 := fun heq => by simp [h.published.2 heq] at hpublished
  have := h.kept.nonneg
  omega

lemma not_published (hphase : s.phase ≠ .finished) : s.published = false := by
  have hcount := h.count
  have := h.length_writes_le
  rw [if_neg hphase] at hcount
  refine Bool.eq_false_iff.2 fun hpublished => ?_
  have := h.published.1 hpublished
  omega

lemma abort (hphase : s.phase ≠ .finished) (pushed : List (ElementValue V)) :
    Sound { s with values := s.values ++ pushed, phase := .aborted } where
  length hpublished := by
    have := h.length hpublished
    simp only [List.length_append]
    omega
  bounded := h.bounded
  written := h.written
  once := h.once
  count := by
    have hcount := h.count
    rwa [if_neg hphase] at hcount
  published := h.published
  settled hkind hpublished i hi := by
    obtain ⟨v, hv, hdefined⟩ := h.settled hkind hpublished i hi
    exact ⟨v, getElem?_append_of_some hv, hdefined⟩
  single := h.single
  proper := h.proper
  called := h.called

lemma next (hrunning : s.phase = .running) (failure : Option NextFailure) : (s.getResolveAndReject failure).Sound := by
  have hphase : s.phase ≠ .finished := by simp [hrunning]
  have hunpublished := h.not_published hphase
  match failure with
  | some .push => simpa [getResolveAndReject] using h.abort hphase []
  | some .functions => exact h.abort hphase [.undefined]
  | none =>
    have hnew (fn : ElementFunction) (hfn : fn ∈ newFunctions s.kind s.index) : fn.index = s.index := by
      cases hkind : s.kind <;> rw [hkind] at hfn <;> simp [newFunctions] at hfn
      · rw [hfn]
      · obtain rfl | rfl := hfn <;> rfl
      · rw [hfn]
    refine ⟨fun hpublished => ?_, fun fn hfn => ?_, fun i hi => Nat.lt_succ_of_lt (h.written i hi), h.once, ?_, ?_,
      fun hkind hpublished i hi => ?_, fun hkind => ?_, h.proper, h.called⟩
    · have := h.length hpublished
      simp only [getResolveAndReject, List.length_append, length_singleton]
      omega
    · change fn.index < s.index + 1
      obtain hfn | hfn := mem_append.1 hfn
      · exact Nat.lt_succ_of_lt (h.bounded fn hfn)
      · simp [hnew fn hfn]
    · have hcount := h.count
      change s.remainingCount + 1 + (writes s.accesses).length = (s.index + 1 : ℕ) + if s.phase = .finished then 0 else 1
      rw [if_neg hphase] at hcount ⊢
      omega
    · change s.published = true ↔ s.remainingCount + 1 = 0
      have := h.pos hunpublished
      simp only [hunpublished, Bool.false_eq_true, false_iff]
      omega
    · obtain ⟨v, hv, hdefined⟩ := h.settled hkind hpublished i hi
      exact ⟨v, getElem?_append_of_some hv, hdefined⟩
    · obtain ⟨hnodup, hfresh⟩ := h.single hkind
      have hone : (newFunctions s.kind s.index).map ElementFunction.index = [s.index] := by
        change s.kind ≠ .AllSettled at hkind
        cases hk : s.kind <;> simp_all [newFunctions]
      constructor
      · change ((s.functions ++ newFunctions s.kind s.index).map ElementFunction.index).Nodup
        rw [map_append, hone]
        refine nodup_append.2 ⟨hnodup, nodup_singleton _, fun i hi j hj heq => ?_⟩
        obtain ⟨fn, hfn, rfl⟩ := mem_map.1 hi
        have := h.bounded fn hfn
        rw [mem_singleton] at hj
        omega
      · intro fn hfn hdata hmem
        obtain hfn | hfn := mem_append.1 hfn
        · exact hfresh fn hfn hdata hmem
        · have := h.written _ hmem
          rw [hnew fn hfn] at this
          exact lt_irrefl _ this

lemma finish (hrunning : s.phase = .running) : s.finish.Sound := by
  have hphase : s.phase ≠ .finished := by simp [hrunning]
  have hunpublished := h.not_published hphase
  refine ⟨fun _ => h.length hunpublished, h.bounded, h.written, h.once, ?_, ?_,
    fun hkind _ => h.settled hkind hunpublished, h.single, h.proper, h.called.1, fun _ => h.called.2 hunpublished⟩
  · have hcount := h.count
    rw [if_neg hphase] at hcount
    change s.remainingCount - 1 + (writes s.accesses).length = s.index + 0
    omega
  · simp [Combinator.finish, hunpublished]

lemma clear {f : ℕ} {fn : ElementFunction} (hfn : s.functions[f]? = some fn) :
    Sound { s with functions := s.functions.set f { fn with data := false } } := by
  obtain ⟨hlt, hget⟩ := List.getElem?_eq_some_iff.1 hfn
  have hmap : (s.functions.set f { fn with data := false }).map ElementFunction.index =
      s.functions.map ElementFunction.index := by
    rw [map_set]
    refine ext_getElem (by simp) fun i hi hi' => ?_
    by_cases hif : i = f
    · subst hif
      simp [hget]
    · simp [Ne.symm hif]
  refine ⟨h.length, fun fn' hfn' => ?_, h.written, h.once, h.count, h.published, h.settled, fun hkind => ?_, h.proper,
    h.called⟩
  · obtain hfn' | rfl := mem_or_eq_of_mem_set hfn'
    · exact h.bounded fn' hfn'
    · exact h.bounded fn (hget ▸ getElem_mem hlt)
  · obtain ⟨hnodup, hfresh⟩ := h.single hkind
    refine ⟨hmap ▸ hnodup, fun fn' hfn' hdata => ?_⟩
    obtain hfn' | rfl := mem_or_eq_of_mem_set hfn'
    · exact hfresh fn' hfn' hdata
    · simp at hdata

lemma read {index : ℕ} (hindex : index < s.values.length) :
    Sound { s with accesses := s.accesses ++ [.read index s.values.length] } := by
  refine ⟨h.length, h.bounded, ?_, ?_, ?_, h.published, ?_, ?_, ?_, ?_⟩
  · rw [writes_read]
    exact h.written
  · rw [writes_read]
    exact h.once
  · rw [writes_read]
    exact h.count
  · rw [writes_read]
    exact h.settled
  · rw [writes_read]
    exact h.single
  · intro access haccess
    obtain haccess | haccess := mem_append.1 haccess
    · exact h.proper access haccess
    · rw [mem_singleton.1 haccess]
      exact hindex
  · rw [calls_read]
    exact h.called

lemma setElement (hpublished : s.published = false) {index : ℕ} (hindex : index < s.index)
    (hnew : index ∉ writes s.accesses) {v : ElementValue V}
    (hdefined : s.kind = .AllSettled → v.isUndefined = false)
    (hothers : s.kind ≠ .AllSettled → ∀ fn ∈ s.functions, fn.data = true → fn.index ≠ index) :
    (s.setElement index v).Sound := by
  have hbound := lt_of_lt_of_le hindex (h.length hpublished)
  have hpos := h.pos hpublished
  have hwrites : writes (s.setElement index v).accesses = writes s.accesses ++ [index] := writes_write ..
  have hcalls : calls (s.setElement index v).accesses =
      calls s.accesses + if decide (s.remainingCount - 1 = 0) = true then 1 else 0 := calls_write ..
  have hpub : (s.setElement index v).published = decide (s.remainingCount - 1 = 0) := by
    simp [Combinator.setElement, hpublished]
  refine ⟨fun _ => ?_, h.bounded, ?_, ?_, ?_, ?_, fun hkind _ i hi => ?_, fun hkind => ⟨(h.single hkind).1, ?_⟩, ?_, ?_⟩
  · change s.index ≤ (s.values.set index v).length
    rw [length_set]
    exact h.length hpublished
  · rw [hwrites]
    intro i hi
    obtain hi | hi := mem_append.1 hi
    · exact h.written i hi
    · exact mem_singleton.1 hi ▸ hindex
  · rw [hwrites]
    refine nodup_append.2 ⟨h.once, nodup_singleton _, fun i hi j hj heq => hnew ?_⟩
    rw [← mem_singleton.1 hj, ← heq]
    exact hi
  · have hcount := h.count
    rw [hwrites, List.length_append, length_singleton]
    change s.remainingCount - 1 + ((writes s.accesses).length + 1 : ℕ) = s.index + if s.phase = .finished then 0 else 1
    omega
  · rw [hpub, decide_eq_true_eq]
    rfl
  · change ∃ v', (s.values.set index v)[i]? = some v' ∧ _
    rw [hwrites] at hi
    by_cases heq : i = index
    · subst heq
      exact ⟨v, getElem?_set_self hbound, hdefined hkind⟩
    · have hi : i ∈ writes s.accesses := (mem_append.1 hi).resolve_right fun hmem => heq (mem_singleton.1 hmem)
      rw [getElem?_set_ne (Ne.symm heq)]
      exact h.settled hkind hpublished i hi
  · rw [hwrites]
    intro fn hfn hdata hmem
    obtain hmem | hmem := mem_append.1 hmem
    · exact (h.single hkind).2 fn hfn hdata hmem
    · exact hothers hkind fn hfn hdata (mem_singleton.1 hmem)
  · intro access haccess
    obtain haccess | haccess := mem_append.1 haccess
    · exact h.proper access haccess
    · obtain rfl | haccess := mem_cons.1 haccess
      · exact ⟨hbound, hpublished⟩
      · rw [mem_singleton.1 haccess]
        exact ⟨by omega, decide_eq_true_iff⟩
  · rw [hcalls, hpub, h.called.2 hpublished]
    by_cases hzero : s.remainingCount - 1 = 0 <;> simp [hzero]

/-- A function of a pair is called: what it finds in the array tells whether the other one has been called. -/
lemma settleElement {fn : ElementFunction} (hindex : fn.index < s.index) (hkind : s.kind = .AllSettled)
    {x stray : ElementValue V} {failure : Option CallFailure}
    (hheeds : s.published = true → ∃ v, s.values[fn.index]? = some v ∧
      (v.isUndefined = false ∨ failure = some .store)) : (s.settleElement fn x stray failure).Sound := by
  cases hpublished : s.published with
  | false =>
    have hbound := lt_of_lt_of_le hindex (h.length hpublished)
    have hread := h.read hbound
    unfold Combinator.settleElement
    rw [getD_eq_getElem?_getD, getElem?_eq_getElem hbound, getD_some]
    dsimp only
    split_ifs with hdefined
    · exact hread
    · -- what is undefined has not been written
      have hnew : fn.index ∉ writes s.accesses := fun hmem => by
        obtain ⟨v, hv, hv'⟩ := h.settled hkind hpublished fn.index hmem
        rw [getElem?_eq_getElem hbound] at hv
        exact hdefined (.inl (some.inj hv ▸ hv'))
      exact hread.setElement hpublished hindex (by rwa [writes_read]) (fun _ => rfl) fun hne => absurd hkind hne
  | true =>
    obtain ⟨v, hv, hdefined⟩ := hheeds hpublished
    have hread := h.read (List.getElem?_eq_some_iff.1 hv).1
    unfold Combinator.settleElement
    rw [getD_eq_getElem?_getD, hv, getD_some]
    exact (if_pos hdefined).symm ▸ hread

lemma mem_writes (hpublished : s.published = true) {i : ℕ} (hi : i < s.index) : i ∈ writes s.accesses := by
  have hcount := h.count
  have hunsettled := countP_notMem_add_length h.once h.written
  rw [h.published.1 hpublished] at hcount
  have hzero : ((List.range s.index).countP fun i => i ∉ writes s.accesses) = 0 := by
    split_ifs at hcount <;> omega
  have := countP_eq_zero.1 hzero i (mem_range.2 hi)
  simpa using this

lemma index_ne {f : ℕ} {fn fn' : ElementFunction} (hfn : s.functions[f]? = some fn)
    (hkind : s.kind ≠ .AllSettled) (hfn' : fn' ∈ s.functions.set f { fn with data := false })
    (hdata : fn'.data = true) : fn'.index ≠ fn.index := by
  intro heq
  obtain ⟨j, hj⟩ := getElem?_of_mem hfn'
  obtain ⟨hf, hget⟩ := List.getElem?_eq_some_iff.1 hfn
  by_cases hjf : j = f
  · rw [hjf, getElem?_set_self hf] at hj
    rw [← some.inj hj] at hdata
    simp at hdata
  · rw [getElem?_set_ne (Ne.symm hjf)] at hj
    obtain ⟨hlt, hget'⟩ := List.getElem?_eq_some_iff.1 hj
    have hsame : (s.functions.map ElementFunction.index).get ⟨j, by simpa using hlt⟩ =
        (s.functions.map ElementFunction.index).get ⟨f, by simpa using hf⟩ := by
      simp [hget, hget', heq]
    exact hjf (congrArg Fin.val ((h.single hkind).1.get_inj_iff.1 hsame))

lemma call {f : ℕ} {fn : ElementFunction} (hfn : s.functions[f]? = some fn) (hdata : fn.data = true)
    {x stray : ElementValue V} {failure : Option CallFailure} (hheeds : s.Heeds (.call f x stray failure)) :
    (callElement fn x stray failure { s with functions := s.functions.set f { fn with data := false } }).Sound := by
  have hclear := h.clear hfn
  have hmem : fn ∈ s.functions := mem_of_getElem? hfn
  have hindex := h.bounded fn hmem
  unfold callElement
  split_ifs with helements hkind hstore
  · exact hclear
  · exact hclear.settleElement hindex hkind fun hpublished => hheeds hkind hpublished fn hfn hdata helements
  · exact hclear
  · have hnew := (h.single hkind).2 fn hmem hdata
    have hpublished : s.published = false := Bool.eq_false_iff.2 fun hpublished => hnew (h.mem_writes hpublished hindex)
    exact hclear.setElement hpublished hindex hnew (fun heq => absurd heq hkind) fun _ fn' hfn' hdata' heq =>
      h.index_ne hfn hkind hfn' hdata' heq

/-- Each step keeps the invariant, unless a function finds its element undefined in the published array, or does
not find it at all. -/
theorem after {e : CombinatorEvent V} (hheeds : s.Heeds e) (hstep : step e s = some s') : s'.Sound := by
  cases e with
  | next failure =>
    simp only [step] at hstep
    split_ifs at hstep with hrunning
    exact some.inj hstep ▸ h.next hrunning failure
  | abrupt =>
    simp only [step] at hstep
    split_ifs at hstep with hrunning
    cases hstep
    simpa using h.abort (by simp [hrunning]) []
  | finish =>
    simp only [step] at hstep
    split_ifs at hstep with hrunning
    exact some.inj hstep ▸ h.finish hrunning
  | call f x stray failure =>
    simp only [step] at hstep
    split at hstep
    · simp at hstep
    next fn hfn =>
      split_ifs at hstep with hdata
      · exact some.inj hstep ▸ h
      · exact some.inj hstep ▸ h.call hfn (by simpa using hdata) hheeds
  | mutate values =>
    simp only [step] at hstep
    split_ifs at hstep with hpublished
    cases hstep
    have hno : ¬ s.published = false := by simp [hpublished]
    exact ⟨fun hpub => absurd hpub hno, h.bounded, h.written, h.once, h.count, h.published,
      fun _ hpub => absurd hpub hno, h.single, h.proper, h.called⟩

end

end Sound

lemma read_mem_settleElement (fn : ElementFunction) (x stray : ElementValue V) (failure : Option CallFailure) :
    .read fn.index s.values.length ∈ (s.settleElement fn x stray failure).accesses := by
  unfold settleElement
  dsimp only
  split_ifs
  · simp
  · simp [setElement]

lemma write_mem_settleElement {fn : ElementFunction} {x stray : ElementValue V} {failure : Option CallFailure}
    (h : ¬ ((s.values.getD fn.index stray).isUndefined = false ∨ failure = some .store)) :
    .write fn.index s.values.length s.published ∈ (s.settleElement fn x stray failure).accesses := by
  unfold settleElement
  rw [if_neg h]
  simp [setElement]

lemma Kept.heeds {e : CombinatorEvent V} (hstep : step e s = some s') (h : s'.Kept) : s.Heeds e := by
  cases e with
  | call f x stray failure =>
    intro hkind hpublished fn hfn hdata helements
    simp only [step, hfn, hdata, Bool.true_eq_false, reduceIte] at hstep
    cases hstep
    unfold callElement at h
    rw [if_neg helements, if_pos hkind] at h
    have hread : fn.index < s.values.length := h.proper _ (read_mem_settleElement ..)
    refine ⟨_, getElem?_eq_getElem hread, ?_⟩
    by_contra hno
    have hwrite := h.proper _ (write_mem_settleElement (by
      rwa [getD_eq_getElem?_getD, getElem?_eq_getElem hread, Option.getD_some]))
    exact absurd hwrite.2 (by simp [hpublished])
  | _ => trivial

/-! ## Runs -/

/-- In every state of a run the count and the accesses are as expected if and only if no function of a pair is
called that does not find its element defined in the published array. -/
theorem kept_iff {kind : CombinatorKind} {es : List (CombinatorEvent V)}
    (h : EventRun.run step es (init kind) = some s) :
    EventRun.Always Kept step es (init kind : Combinator V) ↔ EventRun.Along Heeds step es (init kind) :=
  EventRun.always_iff_along (fun _ h => Sound.kept h)
    (fun _ _ _ hs hstep => ⟨fun hheeds => hs.after hheeds hstep, fun hkept => hkept.heeds hstep⟩) (sound_init kind) h

/-- `Promise.allSettled` of one promise, whose resolve function is called; the array that is published is emptied
of its result, and the reject function is called as well. -/
def secondOfPair : List (CombinatorEvent Unit) :=
  [.next none, .finish, .call 0 (.other ()) .undefined none, .mutate [.undefined], .call 1 (.other ()) .undefined none]

/-- The element is written again, after the array has been published, and the count drops below zero. -/
theorem secondOfPair_not_kept : ∃ s, EventRun.run step secondOfPair (init .AllSettled) = some s ∧
    s.remainingCount = -1 ∧ .write 0 1 true ∈ s.accesses ∧ ¬ s.Kept := by
  refine ⟨_, rfl, rfl, by decide, fun h => ?_⟩
  cases h.nonneg

theorem kept_iff_secondOfPair : EventRun.Always Kept step secondOfPair (init .AllSettled) ↔
      EventRun.Along Heeds step secondOfPair (init .AllSettled) := by
  obtain ⟨s, h, -⟩ := secondOfPair_not_kept
  exact kept_iff h

end Combinator

end SpiderMonkey
