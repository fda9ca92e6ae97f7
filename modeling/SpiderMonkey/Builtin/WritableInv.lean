import SpiderMonkey.Builtin.WritableStream

/-!
# The invariant of a writable stream

What holds between two events, by the state of the stream.
-/

namespace SpiderMonkey

open List

namespace WritableStream

variable {E D : Type} [SizeArith D]

/-! ## What has happened -/

def QueueRecord.chunk? : QueueRecord D → Option ℕ
  | .write chunk _ => some chunk
  | .close _ => none

def writeIds (queue : List (QueueRecord D)) : List ℕ := queue.filterMap QueueRecord.chunk?

def SinkOp.promise? : SinkOp → Option ℕ
  | .abort p => some p
  | _ => none

/-- The promises that something is still to settle. -/
def openPromises (s : WritableStream E D) : List ℕ :=
  s.writeRequests.getD [] ++ s.closeRequestSlot.toList ++
    (s.pendingAbortRequest.map Prod.fst).toList ++ s.pending.filterMap SinkOp.promise?

/-- Every promise is either settled, once, or still open, once. -/
def Promises (settled opens : List ℕ) (next : ℕ) : Prop :=
  ∀ p, settled.count p + opens.count p = if p < next then 1 else 0

def SinkCall.chunk? : SinkCall → Option ℕ
  | .write chunk => some chunk
  | _ => none

def SinkCall.isClose : SinkCall → Bool
  | .close _ _ => true
  | _ => false

def SinkCall.isAbort : SinkCall → Bool
  | .abort => true
  | _ => false

variable (calls : List (WritableState × SinkCall))

/-- The chunks that `sink.write` has received. -/
def written : List ℕ :=
  calls.filterMap fun c => SinkCall.chunk? c.2

/-- How often `sink.close` has been called. -/
def closeCalls : ℕ :=
  calls.countP fun c => SinkCall.isClose c.2

/-- How often `sink.abort` has been called. -/
def abortCalls : ℕ :=
  calls.countP fun c => SinkCall.isAbort c.2

/-- What the calls of the sink have in common. -/
structure Calls (calls : List (WritableState × SinkCall)) (accepted : List ℕ) : Prop where
  /-- The sink receives what has been accepted, in this order. -/
  written : written calls <+: accepted
  /-- Only `abort` is called in a stream that is not writable. -/
  writable : ∀ c ∈ calls, c.1 = .writable ∨ c.2 = .abort
  /-- `close` is called when everything accepted has finished. -/
  closeAfter : ∀ c ∈ calls, ∀ accepted finished, c.2 = .close accepted finished → accepted = finished
  /-- No chunk follows the close. -/
  order : calls.Pairwise fun c c' => SinkCall.isClose c.2 = true → SinkCall.chunk? c'.2 = none
  closeOnce : closeCalls calls ≤ 1
  abortOnce : abortCalls calls ≤ 1

/-- The states that the stream has had. -/
def Chain (states : List WritableState) (state : WritableState) : Prop :=
  states.IsChain StateChange ∧ states.getLast? = some state

section

variable {settled opens settled' opens' : List ℕ} {next : ℕ} {states : List WritableState}
  {state state' : WritableState} {calls : List (WritableState × SinkCall)} {accepted : List ℕ}

lemma Promises.of_count (h : Promises settled opens next)
    (heq : ∀ p, settled'.count p + opens'.count p = settled.count p + opens.count p) :
    Promises settled' opens' next :=
  fun p => (heq p).trans (h p)

lemma Promises.new (h : Promises settled opens next) (heq : ∀ p,
    settled'.count p + opens'.count p = settled.count p + opens.count p + [next].count p) :
    Promises settled' opens' (next + 1) := by
  intro p
  have hp := h p
  rw [heq p, hp, count_singleton]
  simp only [beq_iff_eq]
  split_ifs <;> omega

lemma Chain.snoc (h : Chain states state) (hchange : StateChange state state') : Chain (states ++ [state']) state' := by
  refine ⟨isChain_append.2 ⟨h.1, isChain_singleton _, ?_⟩, getLast?_concat⟩
  intro x hx y hy
  cases h.2.symm.trans hx
  cases hy
  exact hchange

lemma Calls.mono {accepted' : List ℕ} (h : Calls calls accepted) (hle : accepted <+: accepted') :
    Calls calls accepted' :=
  { h with written := h.written.trans hle }

lemma written_snoc (st : WritableState) (c : SinkCall) :
    WritableStream.written (calls ++ [(st, c)]) = WritableStream.written calls ++ (SinkCall.chunk? c).toList := by
  unfold WritableStream.written
  rw [filterMap_append]
  cases c <;> rfl

lemma closeCalls_snoc (st : WritableState) (c : SinkCall) : closeCalls (calls ++ [(st, c)]) =
    closeCalls calls + if SinkCall.isClose c = true then 1 else 0 := by
  unfold closeCalls
  simp

lemma abortCalls_snoc (st : WritableState) (c : SinkCall) : abortCalls (calls ++ [(st, c)]) =
    abortCalls calls + if SinkCall.isAbort c = true then 1 else 0 := by
  unfold abortCalls
  simp

lemma Calls.snoc_write {chunk : ℕ} (h : Calls calls accepted)
    (hwritten : WritableStream.written calls ++ [chunk] <+: accepted) (hclose : closeCalls calls = 0) :
    Calls (calls ++ [(WritableState.writable, SinkCall.write chunk)]) accepted where
  written := by
    rw [written_snoc]
    exact hwritten
  writable := by
    simpa [or_imp, forall_and] using h.writable
  closeAfter := by
    intro c hc a f heq
    rcases mem_append.1 hc with hc | hc
    · exact h.closeAfter c hc a f heq
    · obtain rfl := mem_singleton.1 hc
      cases heq
  order := by
    refine pairwise_append.2 ⟨h.order, pairwise_singleton _ _, fun c hc _ _ hclosed => ?_⟩
    exact absurd hclosed (countP_eq_zero.1 hclose c hc)
  closeOnce := by
    rw [closeCalls_snoc]
    exact h.closeOnce
  abortOnce := by
    rw [abortCalls_snoc]
    exact h.abortOnce

lemma Calls.snoc_close (h : Calls calls accepted) (hclose : closeCalls calls = 0) :
    Calls (calls ++ [(WritableState.writable, SinkCall.close accepted accepted)]) accepted where
  written := by
    rw [written_snoc]
    exact (append_nil _).symm ▸ h.written
  writable := by
    simpa [or_imp, forall_and] using h.writable
  closeAfter := by
    intro c hc a f heq
    rcases mem_append.1 hc with hc | hc
    · exact h.closeAfter c hc a f heq
    · obtain rfl := mem_singleton.1 hc
      cases heq
      rfl
  order := by
    refine pairwise_append.2 ⟨h.order, pairwise_singleton _ _, fun c _ c' hc' _ => ?_⟩
    obtain rfl := mem_singleton.1 hc'
    rfl
  closeOnce := by
    rw [closeCalls_snoc, hclose]
    exact le_rfl
  abortOnce := by
    rw [abortCalls_snoc]
    exact h.abortOnce

lemma Calls.snoc_abort (h : Calls calls accepted) (habort : abortCalls calls = 0) :
    Calls (calls ++ [(state, SinkCall.abort)]) accepted where
  written := by
    rw [written_snoc]
    exact (append_nil _).symm ▸ h.written
  writable := by
    intro c hc
    rcases mem_append.1 hc with hc | hc
    · exact h.writable c hc
    · exact .inr (congrArg Prod.snd (mem_singleton.1 hc))
  closeAfter := by
    intro c hc a f heq
    rcases mem_append.1 hc with hc | hc
    · exact h.closeAfter c hc a f heq
    · obtain rfl := mem_singleton.1 hc
      cases heq
  order := by
    refine pairwise_append.2 ⟨h.order, pairwise_singleton _ _, fun c _ c' hc' _ => ?_⟩
    obtain rfl := mem_singleton.1 hc'
    rfl
  closeOnce := by
    rw [closeCalls_snoc]
    exact h.closeOnce
  abortOnce := by
    rw [abortCalls_snoc, habort]
    exact le_rfl

end

/-! ## The invariant -/

/-- The operation of the sink that the flags say is in flight. -/
def opsInFlight (s : WritableStream E D) : List SinkOp :=
  if s.started = false then [.start]
  else if s.haveInFlightWriteRequest = true then [.write]
  else if s.haveInFlightCloseRequest = true then [.close]
  else []

section

variable (plain : Prop)

/-- A stream that is neither closed nor errored.  More is known if the stream is `plain`: no conversion
of a size writes or closes. -/
structure Live (s : WritableStream E D) : Prop where
  pending : s.pending = s.opsInFlight
  notStarted : s.started = false → s.haveInFlightWriteRequest = false ∧ s.haveInFlightCloseRequest = false
  exclusive : s.haveInFlightWriteRequest = true → s.haveInFlightCloseRequest = false
  slot : s.closeRequestSlot = none → s.haveInFlightCloseRequest = false
  someRequests : ∃ requests, s.writeRequests = some requests
  /-- The request in flight and its record are the first. -/
  head : s.haveInFlightWriteRequest = true → ∃ chunk size rest requests,
    s.queue = .write chunk size :: rest ∧ s.writeRequests = some (chunk :: requests)
  closing : s.haveInFlightCloseRequest = true → s.queue = []
  /-- Requests and records are aligned, up to a last request without record. -/
  requests : plain → ∃ extra, s.writeRequests = some (writeIds s.queue ++ extra) ∧
    extra.length ≤ 1 ∧ (s.converting ≠ [] → extra = s.converting)
  plainClosing : plain → s.haveInFlightCloseRequest = true → s.writeRequests = some [] ∧ s.converting = []
  abortFlag : s.pendingAbortRequest = none → s.pendingAbortRequestWasAlreadyErroring = false
  noAbort : abortCalls s.calls = 0

structure Writable (s : WritableStream E D) : Prop extends Live plain s where
  aligned : s.writeRequests = some (writeIds s.queue ++ s.converting.reverse)
  storedError : s.storedError = none
  noAbortRequest : s.pendingAbortRequest = none
  convert : plain → s.converting ≠ [] → s.closeRequestSlot = none
  noClose : s.closeRequestSlot = none → ∀ r ∈ s.queue, (QueueRecord.chunk? r).isSome = true
  closeQueued : s.closeRequestSlot ≠ none → s.haveInFlightCloseRequest = false →
    ∃ writes size, s.queue = writes ++ [QueueRecord.close size] ∧ ∀ r ∈ writes, (QueueRecord.chunk? r).isSome = true
  accepted : s.accepted = s.finished ++ writeIds s.queue
  received : written s.calls = if s.sink.write = true then s.finished ++
    (if s.haveInFlightWriteRequest = true then (writeIds s.queue).take 1 else []) else []
  notClosed : s.haveInFlightCloseRequest = false → closeCalls s.calls = 0
  method : s.writeMethod = s.sink.write

structure Erroring (s : WritableStream E D) : Prop extends Live plain s where
  waits : s.started = false ∨ s.haveInFlightWriteRequest = true ∨ s.haveInFlightCloseRequest = true

/-- The promise of the close request is rejected with that of the abort. -/
structure Errored (s : WritableStream E D) : Prop where
  started : s.started = true
  noRequests : s.writeRequests = none
  queue : s.queue = []
  noWrite : s.haveInFlightWriteRequest = false
  noClose : s.haveInFlightCloseRequest = false
  noAbortRequest : s.pendingAbortRequest = none
  pending : (s.pending = [] ∧ s.closeRequestSlot = none) ∨ ∃ p, s.pending = [.abort p]

structure Closed (s : WritableStream E D) : Prop where
  noRequests : plain → s.writeRequests = some []
  queue : s.queue = []
  noWrite : s.haveInFlightWriteRequest = false
  noClose : s.haveInFlightCloseRequest = false
  noAbortRequest : s.pendingAbortRequest = none
  slot : s.closeRequestSlot = none
  pending : s.pending = []
  converting : s.converting = []
  noAbort : abortCalls s.calls = 0

/-- `conv` are the writes whose sizes are being converted, if the stream is plain. -/
structure Inv (conv : List ℕ) (s : WritableStream E D) : Prop where
  chain : Chain s.states s.state
  promises : Promises s.settled s.openPromises s.nextPromise
  calls : Calls s.calls s.accepted
  converting : plain → s.converting = conv
  writable : s.state = .writable → Writable plain s
  erroring : s.state = .erroring → Erroring plain s
  errored : s.state = .errored → Errored s
  closed : s.state = .closed → Closed plain s

lemma inv_create (sink : Sink) (hwm : D) : Inv plain [] (create E sink hwm) where
  chain := ⟨isChain_singleton _, rfl⟩
  promises := fun p => by simp [create, openPromises, SinkOp.promise?, filterMap_cons]
  calls := ⟨List.nil_prefix, by simp [create], by simp [create], List.Pairwise.nil, Nat.zero_le _, Nat.zero_le _⟩
  converting := fun _ => rfl
  writable := fun _ =>
    { pending := rfl
      notStarted := fun _ => ⟨rfl, rfl⟩
      exclusive := fun _ => rfl
      slot := fun _ => rfl
      someRequests := ⟨[], rfl⟩
      head := fun h => absurd h Bool.false_ne_true
      closing := fun h => absurd h Bool.false_ne_true
      requests := fun _ => ⟨[], rfl, Nat.zero_le _, fun h => absurd rfl h⟩
      plainClosing := fun _ h => absurd h Bool.false_ne_true
      abortFlag := fun _ => rfl
      noAbort := rfl
      aligned := rfl
      storedError := rfl
      noAbortRequest := rfl
      convert := fun _ _ => rfl
      noClose := fun _ r hr => absurd hr not_mem_nil
      closeQueued := fun h => absurd rfl h
      accepted := rfl
      received := (ite_self _).symm
      notClosed := fun _ => rfl
      method := rfl }
  erroring := fun h => WritableState.noConfusion h
  errored := fun h => WritableState.noConfusion h
  closed := fun h => WritableState.noConfusion h

end

end WritableStream

end SpiderMonkey
