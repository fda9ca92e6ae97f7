import SpiderMonkey.Builtin.WritableRuns
import SpiderMonkey.Lib.Reporting

/-!
# What the handlers of a writable stream report

The handlers of the promises of the sink, and what they call, with the results of the natives.
-/

namespace SpiderMonkey

open Function Option

namespace WritableStream

namespace Native

open Reporting

variable {E D : Type} [SizeArith D]

/-! ## Operations of the stream -/

/-- Nothing is called but what settles promises. -/
def rejectCloseAndClosedPromiseIfNeeded : Reporting (WritableStream E D) :=
  done WritableStream.rejectCloseAndClosedPromiseIfNeeded

def finishErroring : Reporting (WritableStream E D) := fun s => do
  MOZ_ASSERT (s.state = .erroring)
  MOZ_ASSERT (s.hasOperationMarkedInFlight = false)
  let s ← s.setState .errored
  let s := s.resetQueue
  let requests ← s.writeRequests
  -- clearWriteRequests
  MOZ_ASSERT (s.haveInFlightWriteRequest = false)
  let s := { s with settled := s.settled ++ requests, writeRequests := none }
  match s.pendingAbortRequest with
  | none => rejectCloseAndClosedPromiseIfNeeded s
  | some (p, _) =>
    let s := { s with pendingAbortRequest := none }
    if s.pendingAbortRequestWasAlreadyErroring then rejectCloseAndClosedPromiseIfNeeded (s.settle p)
    else some (true, s.abortSteps p)

def startErroring (reason : Option E) : Reporting (WritableStream E D) := fun s => do
  MOZ_ASSERT (s.storedError.isNone = true)
  MOZ_ASSERT (s.state = .writable)
  let s ← s.setState .erroring
  let s := ensureReadyPromiseRejected { s with storedError := reason }
  if s.hasOperationMarkedInFlight = false ∧ s.started = true then finishErroring.thenReturn true s
  else some (true, s)

variable (error : Option E)

def dealWithRejection : Reporting (WritableStream E D) := fun s =>
  if s.state = .writable then startErroring error s
  else do
    MOZ_ASSERT (s.state = .erroring)
    finishErroring s

/-- Nothing is called but the sink, whose promise gets reactions. -/
def processIfNeeded : Reporting (WritableStream E D) := done WritableStream.processIfNeeded

def advanceQueueIfNeeded : Reporting (WritableStream E D) := fun s =>
  if s.started = false then some (true, s)
  else if s.haveInFlightWriteRequest = true then do
    -- inFlightWriteRequest
    let requests ← s.writeRequests
    MOZ_ASSERT (requests.length > 0)
    some (true, s)
  else do
    MOZ_ASSERT (s.state ≠ .closed)
    MOZ_ASSERT (s.state ≠ .errored)
    if s.state = .erroring then finishErroring s else processIfNeeded s

/-- Nothing is called but what makes or settles a promise. -/
def updateBackpressure (backpressure : Bool) : Reporting (WritableStream E D) :=
  done (WritableStream.updateBackpressure backpressure)

def updateBackpressureIfNeeded : Reporting (WritableStream E D) := fun s => do
  if (← s.closeQueuedOrInFlight) = false ∧ s.state = .writable then updateBackpressure s.getBackpressure s
  else some (true, s)

def finishInFlightWrite : Reporting (WritableStream E D) := done fun s => do
  let (p, s) ← s.settleInFlightWriteRequest
  some { s with finished := s.finished ++ [p] }

def finishInFlightWriteWithError : Reporting (WritableStream E D) := fun s => do
  let (_, s) ← s.settleInFlightWriteRequest
  MOZ_ASSERT (s.state = .writable ∨ s.state = .erroring)
  dealWithRejection error s

/-- What it calls settles promises; the handler has no other steps. -/
def finishInFlightClose : Reporting (WritableStream E D) := done WritableStream.closeHandler

def finishInFlightCloseWithError : Reporting (WritableStream E D) := fun s => do
  let s ← s.settleInFlightCloseRequest
  MOZ_ASSERT (s.state = .writable ∨ s.state = .erroring)
  dealWithRejection error s.settlePendingAbortRequest

/-! ## Handlers -/

def startHandler : Reporting (WritableStream E D) := fun s => do
  MOZ_ASSERT (s.state = .writable ∨ s.state = .erroring)
  advanceQueueIfNeeded.thenReturn true { s with started := true }

def startFailedHandler (r : Option E) : Reporting (WritableStream E D) := fun s => do
  MOZ_ASSERT (s.state = .writable ∨ s.state = .erroring)
  (dealWithRejection r).thenReturn true { s with started := true }

/-- The steps of the handler of a write when the request is settled. -/
def afterWrite : Reporting (WritableStream E D) := fun s => do
  MOZ_ASSERT (s.state = .writable ∨ s.state = .erroring)
  let s ← s.dequeueValue
  updateBackpressureIfNeeded.andThen (advanceQueueIfNeeded.thenReturn true) s

def writeHandler : Reporting (WritableStream E D) := finishInFlightWrite.andThen afterWrite

def writeFailedHandler (r : Option E) : Reporting (WritableStream E D) := fun s =>
  (finishInFlightWriteWithError r).thenReturn true (if s.state = .writable then s.clearAlgorithms else s)

def closeHandler : Reporting (WritableStream E D) := finishInFlightClose.thenReturn true

def closeFailedHandler (r : Option E) : Reporting (WritableStream E D) :=
  (finishInFlightCloseWithError r).thenReturn true

def abortRequestPromiseFulfilledHandler (p : ℕ) : Reporting (WritableStream E D) := fun s =>
  rejectCloseAndClosedPromiseIfNeeded.thenReturn false (s.settle p)

def abortRequestPromiseRejectedHandler (p : ℕ) : Reporting (WritableStream E D) := fun s =>
  rejectCloseAndClosedPromiseIfNeeded.thenReturn false (s.settle p)

def react (op : SinkOp) (outcome : Except (Option E) Unit) : Reporting (WritableStream E D) :=
  match op, outcome with
  | .start, .ok _ => startHandler
  | .start, .error r => startFailedHandler r
  | .write, .ok _ => writeHandler
  | .write, .error r => writeFailedHandler r
  | .close, .ok _ => closeHandler
  | .close, .error r => closeFailedHandler r
  | .abort p, .ok _ => abortRequestPromiseFulfilledHandler p
  | .abort p, .error _ => abortRequestPromiseRejectedHandler p

/-! ## The results -/

variable {s : WritableStream E D}

lemma finishErroring_eq : finishErroring (E := E) (D := D) = done WritableStream.finishErroring := by
  funext s
  simp only [finishErroring, WritableStream.finishErroring, rejectCloseAndClosedPromiseIfNeeded, done,
    bind_eq_bind, Option.map_bind, comp_def]
  congr! 10 with _ _ _ _ s₁ _ requests
  cases h : s₁.resetQueue.pendingAbortRequest with
  | none => simp only [h]
  | some request =>
    simp only [h]
    split_ifs <;> rfl

lemma startErroring_eq (reason : Option E) :
    startErroring (D := D) reason = done (WritableStream.startErroring reason) := by
  funext s
  simp only [startErroring, WritableStream.startErroring, done, bind_eq_bind, Option.map_bind, comp_def]
  congr! 6
  split_ifs
  · simp [finishErroring_eq]
  · rfl

lemma dealWithRejection_eq : dealWithRejection (D := D) error = done (WritableStream.dealWithRejection error) := by
  funext s
  simp only [dealWithRejection, WritableStream.dealWithRejection, startErroring_eq, finishErroring_eq, done,
    bind_eq_bind]
  split_ifs
  · rfl
  · simp

lemma advanceQueueIfNeeded_eq : advanceQueueIfNeeded (E := E) (D := D) = done WritableStream.advanceQueueIfNeeded := by
  funext s
  simp only [advanceQueueIfNeeded, WritableStream.advanceQueueIfNeeded, processIfNeeded, finishErroring_eq, done,
    bind_eq_bind]
  split_ifs <;> simp only [Option.map_bind, comp_def, map_some]

lemma updateBackpressureIfNeeded_eq :
    updateBackpressureIfNeeded (E := E) (D := D) = done WritableStream.updateBackpressureIfNeeded := by
  funext s
  simp only [updateBackpressureIfNeeded, WritableStream.updateBackpressureIfNeeded, updateBackpressure, done,
    bind_eq_bind, Option.map_bind, comp_def]
  congr! 2
  split_ifs <;> rfl

/-- Is the promise that of an abort request? -/
def isAbort : SinkOp → Bool
  | .abort _ => true
  | _ => false

/-- Each handler does what it should, and only those of an abort request report a failure. -/
lemma react_eq (op : SinkOp) (outcome : Except (Option E) Unit) (s : WritableStream E D) :
    react op outcome s = (WritableStream.react op outcome s).map fun s' => (!isAbort op, s') := by
  cases op with
  | start =>
    cases outcome with
    | ok => simp [react, isAbort, WritableStream.react, startHandler, WritableStream.startHandler,
        advanceQueueIfNeeded_eq, comp_def]
    | error r => simp [react, isAbort, WritableStream.react, startFailedHandler, WritableStream.startFailedHandler,
        dealWithRejection_eq, comp_def]
  | write =>
    cases outcome with
    | ok =>
      simp only [react, isAbort, WritableStream.react, writeHandler, WritableStream.writeHandler, finishInFlightWrite,
        andThen_done, afterWrite, advanceQueueIfNeeded_eq, updateBackpressureIfNeeded_eq, thenReturn_true,
        bind_assoc, bind_eq_bind, bind_some, Option.map_bind, comp_def]
      rfl
    | error r => simp [react, isAbort, WritableStream.react, writeFailedHandler, WritableStream.writeFailedHandler,
        finishInFlightWriteWithError, dealWithRejection_eq, comp_def, thenReturn, andThen, bind_assoc,
        map_eq_bind]
  | close =>
    cases outcome with
    | ok => simp [react, isAbort, WritableStream.react, closeHandler, finishInFlightClose]
    | error r => simp [react, isAbort, WritableStream.react, closeFailedHandler, WritableStream.closeFailedHandler,
        finishInFlightCloseWithError, dealWithRejection_eq, comp_def, thenReturn, andThen, bind_assoc,
        map_eq_bind]
  | abort p =>
    have habort : rejectCloseAndClosedPromiseIfNeeded.thenReturn false (s.settle p) =
        (s.abortHandler p).map fun s' => (false, s') := thenReturn_done false
    cases outcome with
    | ok => simpa [react, isAbort, WritableStream.react, abortRequestPromiseFulfilledHandler] using habort
    | error r => simpa [react, isAbort, WritableStream.react, abortRequestPromiseRejectedHandler] using habort

def Reports (s : WritableStream E D) (op : SinkOp) (outcome : Except (Option E) Unit) : Prop :=
  ∃ s', step (.settled op outcome) s = some s' ∧ react op outcome (s.reacting op) = some (true, s')

lemma reports_iff {plain : Prop} {conv : List ℕ} (h : Inv plain conv s) {op : SinkOp} (hop : op ∈ s.pending)
    (hconverting : s.converting = []) (outcome : Except (Option E) Unit) :
    Reports s op outcome ↔ isAbort op = false := by
  obtain ⟨s', hs', -⟩ := settled_spec h hop hconverting outcome
  have heq : step (.settled op outcome) s = WritableStream.react op outcome (s.reacting op) :=
    if_pos ⟨hop, List.length_eq_zero_iff.2 hconverting⟩
  unfold Reports
  rw [react_eq, ← heq, hs']
  simp

end Native

end WritableStream

end SpiderMonkey
