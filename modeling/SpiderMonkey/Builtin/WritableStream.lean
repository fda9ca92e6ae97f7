import SpiderMonkey.Builtin.PipeTo

/-!
# Writable streams

A `WritableStream` with its controller, its writer and what its operations do, in the order of the
source.  Promises are numbers, given out in turn; a chunk has the number of the promise of its write.
Sizes are doubles, of which nothing is used here but that they can be computed with.  Values that user
code supplies are taken as they come; `undefined` is `none`.

`none` as a result is a failed `MOZ_ASSERT`, or an event that cannot happen.
-/

namespace SpiderMonkey

/-- The arithmetic of chunk sizes. -/
class SizeArith (D : Type) where
  zero : D
  add : D → D → D
  sub : D → D → D
  negative : D → Bool
  /-- Is `strategyHWM - queueTotalSize <= 0`? -/
  exhausted : D → D → Bool

inductive PromiseState
  | pending
  | fulfilled
  | rejected
  deriving DecidableEq

structure WritableStreamDefaultWriter where
  readyPromise : PromiseState
  closedPromise : PromiseState

/-- An entry of the queue: a chunk, or the close record. -/
inductive QueueRecord (D : Type)
  | write (chunk : ℕ) (size : D)
  | close (size : D)

/-- Which methods the underlying sink has. -/
structure Sink where
  write : Bool
  close : Bool
  abort : Bool

/-- What the promises of the sink are of. -/
inductive SinkOp
  | start
  | write
  | close
  /-- `promise` is that of the abort request. -/
  | abort (promise : ℕ)
  deriving DecidableEq

/-- The calls of methods of the sink.  That of `close` is noted with the writes that had been accepted
and those that had finished. -/
inductive SinkCall
  | write (chunk : ℕ)
  | close (accepted finished : List ℕ)
  | abort

structure WritableStream (E D : Type) where
  state : WritableState
  backpressure : Bool
  haveInFlightWriteRequest : Bool
  haveInFlightCloseRequest : Bool
  pendingAbortRequestWasAlreadyErroring : Bool
  storedError : Option E
  writer : Option WritableStreamDefaultWriter
  /-- The request in flight first; undefined once the stream is errored. -/
  writeRequests : Option (List ℕ)
  /-- Both `closeRequest` and `inFlightCloseRequest`. -/
  closeRequestSlot : Option ℕ
  pendingAbortRequest : Option (ℕ × Option E)
  -- the controller
  started : Bool
  queue : List (QueueRecord D)
  queueTotalSize : D
  strategyHWM : D
  writeMethod : Bool
  closeMethod : Bool
  abortMethod : Bool
  -- what has happened
  sink : Sink
  nextPromise : ℕ
  settled : List ℕ
  pending : List SinkOp
  calls : List (WritableState × SinkCall)
  accepted : List ℕ
  finished : List ℕ
  /-- The writes whose sizes are being converted to numbers, the innermost first. -/
  converting : List ℕ
  states : List WritableState

namespace WritableStream

open SizeArith

variable {E D : Type} [SizeArith D]

def MOZ_ASSERT (c : Prop) [Decidable c] : Option Unit := if c then some () else none

/-! ## Fields -/

/-- The changes of the state that `setState` allows. -/
def StateChange : WritableState → WritableState → Prop
  | .writable, new => new = .closed ∨ new = .erroring
  | .erroring, new => new = .errored ∨ new = .closed
  | _, _ => False

instance (old new : WritableState) : Decidable (StateChange old new) := by
  cases old <;> unfold StateChange <;> infer_instance

def setState (new : WritableState) (s : WritableStream E D) : Option (WritableStream E D) := do
  MOZ_ASSERT (StateChange s.state new)
  some { s with state := new, states := s.states ++ [new] }

variable (s : WritableStream E D)

def assertCloseRequestSlot : Option Unit :=
  MOZ_ASSERT (s.closeRequestSlot.isNone = true → s.haveInFlightCloseRequest = false)

def closeRequest : Option (Option ℕ) := do
  s.assertCloseRequestSlot
  some (if s.haveInFlightCloseRequest then none else s.closeRequestSlot)

def inFlightCloseRequest : Option (Option ℕ) := do
  s.assertCloseRequestSlot
  some (if s.haveInFlightCloseRequest then s.closeRequestSlot else none)

def closeQueuedOrInFlight : Option Bool := do
  s.assertCloseRequestSlot
  some s.closeRequestSlot.isSome

def hasOperationMarkedInFlight : Bool :=
  s.haveInFlightWriteRequest || s.haveInFlightCloseRequest

/-- Resolve or reject a promise of a request. -/
def settle (p : ℕ) (s : WritableStream E D) : WritableStream E D :=
  { s with settled := s.settled ++ [p] }

/-- Settling a promise that is settled does nothing. -/
def PromiseState.settle (outcome : PromiseState) : PromiseState → PromiseState
  | .pending => outcome
  | old => old

def resolveReadyPromise : WritableStream E D :=
  { s with writer := s.writer.map fun w =>
      { w with readyPromise := PromiseState.settle .fulfilled w.readyPromise } }

def resolveClosedPromise : WritableStream E D :=
  { s with writer := s.writer.map fun w =>
      { w with closedPromise := PromiseState.settle .fulfilled w.closedPromise } }

def rejectClosedPromise : WritableStream E D :=
  { s with writer := s.writer.map fun w =>
      { w with closedPromise := PromiseState.settle .rejected w.closedPromise } }

/-- A pending promise is rejected, a settled one is replaced by a rejected one. -/
def ensureReadyPromiseRejected : WritableStream E D :=
  { s with writer := s.writer.map fun w => { w with readyPromise := .rejected } }

def clearAlgorithms : WritableStream E D :=
  { s with writeMethod := false, closeMethod := false, abortMethod := false }

/-! ## The queue -/

def QueueRecord.size : QueueRecord D → D
  | .write _ size => size
  | .close size => size

/-- Step 4 and 5 of `EnqueueValueWithSize`. -/
def enqueue (r : QueueRecord D) (s : WritableStream E D) : WritableStream E D :=
  { s with queue := s.queue ++ [r], queueTotalSize := add s.queueTotalSize (QueueRecord.size r) }

def dequeueValue : Option (WritableStream E D) :=
  match s.queue with
  | [] => none
  | r :: queue =>
    let total := sub s.queueTotalSize (QueueRecord.size r)
    some { s with
      queue := queue
      queueTotalSize := if negative total then zero else total }

def resetQueue : WritableStream E D :=
  { s with queue := [], queueTotalSize := zero }

/-! ## Erroring -/

def rejectCloseAndClosedPromiseIfNeeded : Option (WritableStream E D) := do
  MOZ_ASSERT (s.state = .errored)
  match ← s.closeRequest with
  | some p =>
    let inFlight ← s.inFlightCloseRequest
    MOZ_ASSERT (inFlight.isNone = true)
    -- clearCloseRequest
    MOZ_ASSERT (s.haveInFlightCloseRequest = false)
    MOZ_ASSERT (s.closeRequestSlot.isSome = true)
    some (rejectClosedPromise { s.settle p with closeRequestSlot := none })
  | none => some s.rejectClosedPromise

/-- `[[AbortSteps]]`, where `p` is the promise of the abort request. -/
def abortSteps (p : ℕ) (s : WritableStream E D) : WritableStream E D :=
  clearAlgorithms { s with
    calls := if s.abortMethod then s.calls ++ [(s.state, .abort)] else s.calls
    pending := s.pending ++ [.abort p] }

def finishErroring : Option (WritableStream E D) := do
  MOZ_ASSERT (s.state = .erroring)
  MOZ_ASSERT (s.hasOperationMarkedInFlight = false)
  let s ← s.setState .errored
  let s := s.resetQueue
  let requests ← s.writeRequests
  -- clearWriteRequests
  MOZ_ASSERT (s.haveInFlightWriteRequest = false)
  let s := { s with settled := s.settled ++ requests, writeRequests := none }
  match s.pendingAbortRequest with
  | none => s.rejectCloseAndClosedPromiseIfNeeded
  | some (p, _) =>
    let s := { s with pendingAbortRequest := none }
    if s.pendingAbortRequestWasAlreadyErroring then
      (s.settle p).rejectCloseAndClosedPromiseIfNeeded
    else some (s.abortSteps p)

def startErroring (reason : Option E) (s : WritableStream E D) : Option (WritableStream E D) := do
  MOZ_ASSERT (s.storedError.isNone = true)
  MOZ_ASSERT (s.state = .writable)
  let s ← s.setState .erroring
  let s := ensureReadyPromiseRejected { s with storedError := reason }
  if s.hasOperationMarkedInFlight = false ∧ s.started = true then s.finishErroring else some s

def dealWithRejection (error : Option E) (s : WritableStream E D) : Option (WritableStream E D) :=
  if s.state = .writable then s.startErroring error
  else do
    MOZ_ASSERT (s.state = .erroring)
    s.finishErroring

def controllerError (error : Option E) (s : WritableStream E D) : Option (WritableStream E D) := do
  MOZ_ASSERT (s.state = .writable)
  s.clearAlgorithms.startErroring error

/-- Also the `error` method of the controller. -/
def errorIfNeeded (error : Option E) (s : WritableStream E D) : Option (WritableStream E D) :=
  if s.state = .writable then s.controllerError error else some s

/-! ## Processing the queue -/

def markCloseRequestInFlight : Option (WritableStream E D) := do
  MOZ_ASSERT (s.haveInFlightCloseRequest = false)
  let request ← s.closeRequest
  MOZ_ASSERT (request.isSome = true)
  some { s with haveInFlightCloseRequest := true }

def markFirstWriteRequestInFlight : Option (WritableStream E D) := do
  MOZ_ASSERT (s.haveInFlightWriteRequest = false)
  let requests ← s.writeRequests
  MOZ_ASSERT (requests.length > 0)
  some { s with haveInFlightWriteRequest := true }

def performCloseAlgorithm : WritableStream E D :=
  { s with
    calls := if s.closeMethod then s.calls ++ [(s.state, .close s.accepted s.finished)] else s.calls
    pending := s.pending ++ [.close] }

def performWriteAlgorithm (chunk : ℕ) (s : WritableStream E D) : WritableStream E D :=
  { s with
    calls := if s.writeMethod then s.calls ++ [(s.state, .write chunk)] else s.calls
    pending := s.pending ++ [.write] }

def processIfNeeded : Option (WritableStream E D) :=
  match s.queue with
  | [] => some s
  | .close _ :: rest => do
    MOZ_ASSERT (rest.length = 0)
    let s ← s.markCloseRequestInFlight
    let s ← s.dequeueValue
    MOZ_ASSERT (s.queue.length = 0)
    some s.performCloseAlgorithm
  | .write chunk _ :: _ => do
    let s ← s.markFirstWriteRequestInFlight
    some (s.performWriteAlgorithm chunk)

def advanceQueueIfNeeded : Option (WritableStream E D) :=
  if s.started = false then some s
  else if s.haveInFlightWriteRequest = true then do
    -- inFlightWriteRequest
    let requests ← s.writeRequests
    MOZ_ASSERT (requests.length > 0)
    some s
  else do
    MOZ_ASSERT (s.state ≠ .closed)
    MOZ_ASSERT (s.state ≠ .errored)
    if s.state = .erroring then s.finishErroring else s.processIfNeeded

def updateBackpressure (backpressure : Bool) (s : WritableStream E D) : Option (WritableStream E D) := do
  MOZ_ASSERT (s.state = .writable)
  MOZ_ASSERT ((← s.closeQueuedOrInFlight) = false)
  let s := if backpressure = s.backpressure then s
    else if backpressure then { s with writer := s.writer.map fun w =>
      { w with readyPromise := .pending } }
    else s.resolveReadyPromise
  some { s with backpressure := backpressure }

def getBackpressure : Bool :=
  exhausted s.strategyHWM s.queueTotalSize

/-- The step that `write` and the handler of a write share. -/
def updateBackpressureIfNeeded : Option (WritableStream E D) := do
  if (← s.closeQueuedOrInFlight) = false ∧ s.state = .writable then
    s.updateBackpressure s.getBackpressure
  else some s

/-! ## The operations of the writer -/

def controllerClose : Option (WritableStream E D) :=
  (s.enqueue (.close zero)).advanceQueueIfNeeded

/-- `WritableStreamDefaultControllerWrite` from the conversion of the size on, whose result is `size`. -/
def controllerWrite (chunk : ℕ) (size : Except (Option E) D) (s : WritableStream E D) : Option (WritableStream E D) :=
  match size with
  | .error e => s.errorIfNeeded e
  | .ok size => do
    let s := enqueue (.write chunk size) { s with accepted := s.accepted ++ [chunk] }
    let s ← s.updateBackpressureIfNeeded
    s.advanceQueueIfNeeded

/-- `WritableStreamAddWriteRequest`, after which the size is converted. -/
def addWriteRequest : Option (WritableStream E D) := do
  MOZ_ASSERT (s.writer.isSome = true)
  MOZ_ASSERT (s.state = .writable)
  let requests ← s.writeRequests
  some { s with
    nextPromise := s.nextPromise + 1
    writeRequests := some (requests ++ [s.nextPromise])
    converting := s.nextPromise :: s.converting }

/-- `WritableStreamDefaultWriterWrite` from the return of the size function to the conversion of its
value; is the chunk taken? -/
def writerWrite : Option (Bool × WritableStream E D) :=
  if s.state = .errored then some (false, s)
  else do
    if (← s.closeQueuedOrInFlight) = true ∨ s.state = .closed then some (false, s)
    else if s.state = .erroring then some (false, s)
    else do
      MOZ_ASSERT (s.state = .writable)
      let s ← s.addWriteRequest
      some (true, s)

/-- The conversion that was begun last ends. -/
def endConversion (size : Except (Option E) D) (s : WritableStream E D) : Option (WritableStream E D) :=
  match s.converting with
  | [] => none
  | chunk :: rest => controllerWrite chunk size { s with converting := rest }

/-- `WritableStreamClose` and `WritableStreamDefaultWriterClose`. -/
def streamClose : Option (WritableStream E D) :=
  if s.state = .closed ∨ s.state = .errored then some s
  else do
    MOZ_ASSERT (s.state = .writable ∨ s.state = .erroring)
    MOZ_ASSERT ((← s.closeQueuedOrInFlight) = false)
    let s := { s with
      nextPromise := s.nextPromise + 1
      closeRequestSlot := some s.nextPromise }
    MOZ_ASSERT (s.haveInFlightCloseRequest = false)
    let s := if s.backpressure = true ∧ s.state = .writable then s.resolveReadyPromise else s
    s.controllerClose

/-- The `close` methods of the stream and of the writer. -/
def close : Option (WritableStream E D) := do
  if (← s.closeQueuedOrInFlight) = true then some s else s.streamClose

def abort (reason : Option E) (s : WritableStream E D) : Option (WritableStream E D) :=
  if s.state = .closed ∨ s.state = .errored then some s
  else if s.pendingAbortRequest.isSome = true then some s
  else do
    MOZ_ASSERT (s.state = .writable ∨ s.state = .erroring)
    let wasAlreadyErroring := decide (s.state = .erroring)
    let pendingReason := if wasAlreadyErroring then none else reason
    -- setPendingAbortRequest
    MOZ_ASSERT (s.pendingAbortRequestWasAlreadyErroring = false)
    let s := { s with
      nextPromise := s.nextPromise + 1
      pendingAbortRequest := some (s.nextPromise, pendingReason)
      pendingAbortRequestWasAlreadyErroring := wasAlreadyErroring }
    if wasAlreadyErroring then some s else s.startErroring pendingReason

def getWriter : Option (WritableStream E D) := do
  let closing ← s.closeQueuedOrInFlight
  let w : WritableStreamDefaultWriter := match s.state with
    | .writable => ⟨if closing = false ∧ s.backpressure = true then .pending else .fulfilled, .pending⟩
    | .closed => ⟨.fulfilled, .fulfilled⟩
    | .erroring => ⟨.rejected, .pending⟩
    | .errored => ⟨.rejected, .rejected⟩
  MOZ_ASSERT (s.writer.isNone = true)
  some { s with writer := some w }

/-- `WritableStreamDefaultWriterRelease`. -/
def releaseLock : Option (WritableStream E D) := do
  MOZ_ASSERT (s.writer.isSome = true)
  some { s with writer := none }

/-! ## The handlers of the promises of the sink -/

def startHandler : Option (WritableStream E D) := do
  MOZ_ASSERT (s.state = .writable ∨ s.state = .erroring)
  advanceQueueIfNeeded { s with started := true }

def startFailedHandler (r : Option E) (s : WritableStream E D) : Option (WritableStream E D) := do
  MOZ_ASSERT (s.state = .writable ∨ s.state = .erroring)
  dealWithRejection r { s with started := true }

/-- Settles the write request in flight and clears it. -/
def settleInFlightWriteRequest : Option (ℕ × WritableStream E D) := do
  MOZ_ASSERT (s.haveInFlightWriteRequest = true)
  match ← s.writeRequests with
  | [] => none
  | p :: requests => some (p, { s.settle p with
      writeRequests := some requests
      haveInFlightWriteRequest := false })

def writeHandler : Option (WritableStream E D) := do
  let (p, s) ← s.settleInFlightWriteRequest
  let s := { s with finished := s.finished ++ [p] }
  MOZ_ASSERT (s.state = .writable ∨ s.state = .erroring)
  let s ← s.dequeueValue
  let s ← s.updateBackpressureIfNeeded
  s.advanceQueueIfNeeded

def writeFailedHandler (r : Option E) (s : WritableStream E D) : Option (WritableStream E D) := do
  let s := if s.state = .writable then s.clearAlgorithms else s
  let (_, s) ← s.settleInFlightWriteRequest
  MOZ_ASSERT (s.state = .writable ∨ s.state = .erroring)
  s.dealWithRejection r

def settleInFlightCloseRequest : Option (WritableStream E D) := do
  MOZ_ASSERT (s.haveInFlightCloseRequest = true)
  let p ← ← s.inFlightCloseRequest
  some { s.settle p with haveInFlightCloseRequest := false, closeRequestSlot := none }

/-- Settles the promise of the pending abort request and clears the request. -/
def settlePendingAbortRequest : WritableStream E D :=
  match s.pendingAbortRequest with
  | some (p, _) => { s.settle p with pendingAbortRequest := none }
  | none => s

def closeHandler : Option (WritableStream E D) := do
  let s ← s.settleInFlightCloseRequest
  MOZ_ASSERT (s.state = .writable ∨ s.state = .erroring)
  let s := if s.state = .erroring then settlePendingAbortRequest { s with storedError := none } else s
  let s ← s.setState .closed
  let s := s.resolveClosedPromise
  MOZ_ASSERT (s.pendingAbortRequest.isNone = true)
  MOZ_ASSERT (s.storedError.isNone = true)
  some s

def closeFailedHandler (r : Option E) (s : WritableStream E D) : Option (WritableStream E D) := do
  let s ← s.settleInFlightCloseRequest
  MOZ_ASSERT (s.state = .writable ∨ s.state = .erroring)
  s.settlePendingAbortRequest.dealWithRejection r

/-- Both handlers of the promise of `abort`; `p` is the promise of the abort request. -/
def abortHandler (p : ℕ) (s : WritableStream E D) : Option (WritableStream E D) :=
  (s.settle p).rejectCloseAndClosedPromiseIfNeeded

/-! ## Runs -/

/-- A new stream, after `SetUpWritableStreamDefaultController`. -/
def create (E : Type) (sink : Sink) (strategyHWM : D) : WritableStream E D where
  state := .writable
  backpressure := exhausted strategyHWM zero
  haveInFlightWriteRequest := false
  haveInFlightCloseRequest := false
  pendingAbortRequestWasAlreadyErroring := false
  storedError := none
  writer := none
  writeRequests := some []
  closeRequestSlot := none
  pendingAbortRequest := none
  started := false
  queue := []
  queueTotalSize := zero
  strategyHWM := strategyHWM
  writeMethod := sink.write
  closeMethod := sink.close
  abortMethod := sink.abort
  sink := sink
  nextPromise := 0
  settled := []
  pending := [.start]
  calls := []
  accepted := []
  finished := []
  converting := []
  states := [.writable]

/-- Calls of user code, at any time, and reactions to promises of the sink, while no conversion runs. -/
inductive Event (E D : Type)
  | getWriter
  | releaseLock
  /-- A write whose size is converted without running code. -/
  | write (size : Except (Option E) D)
  /-- The conversion of the size of a write begins, and what happens until it ends happens in it. -/
  | beginWrite
  | converted (size : Except (Option E) D)
  | close
  | abort (reason : Option E)
  | error (e : Option E)
  | settled (op : SinkOp) (outcome : Except (Option E) Unit)

/-- The reaction to a promise of the sink. -/
def react (op : SinkOp) (outcome : Except (Option E) Unit) (s : WritableStream E D) : Option (WritableStream E D) :=
  match op, outcome with
  | .start, .ok _ => s.startHandler
  | .start, .error r => s.startFailedHandler r
  | .write, .ok _ => s.writeHandler
  | .write, .error r => s.writeFailedHandler r
  | .close, .ok _ => s.closeHandler
  | .close, .error r => s.closeFailedHandler r
  | .abort p, _ => s.abortHandler p

def step : Event E D → WritableStream E D → Option (WritableStream E D)
  | .getWriter, s => s.getWriter
  | .releaseLock, s => s.releaseLock
  | .write size, s => s.writerWrite.bind fun (taken, s) =>
      if taken = true then s.endConversion size else some s
  | .beginWrite, s => s.writerWrite.map Prod.snd
  | .converted size, s => s.endConversion size
  | .close, s => s.close
  | .abort reason, s => s.abort reason
  | .error e, s => s.errorIfNeeded e
  | .settled op outcome, s => if op ∈ s.pending ∧ s.converting.length = 0 then
      react op outcome { s with pending := s.pending.erase op } else none

/-- Can the event happen?  A lock is released, and a chunk written, by the writer. -/
def Possible : Event E D → Prop
  | .releaseLock | .write _ | .beginWrite => s.writer.isSome = true
  | .converted _ => s.converting ≠ []
  | .settled op _ => op ∈ s.pending ∧ s.converting = []
  | _ => True

end WritableStream

end SpiderMonkey
