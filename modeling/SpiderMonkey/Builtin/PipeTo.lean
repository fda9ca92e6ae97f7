import SpiderMonkey.Lib.EventRun

/-!
# Piping a readable stream to a writable stream

`PipeToState` and its handlers, as reactions to what the two streams do.  The streams themselves are
left open: they may change at any time, and of a promise it is only said that its reactions run at most
once, and those on a write only after the write has settled.  A read is taken to fulfil when its
reaction runs.  `none` is a failed assertion, or an event without reaction.

The log keeps what the pipe has done, with what held when it was done.
-/

namespace SpiderMonkey

/-- A number that is not `NaN`. -/
abbrev DesiredSize : Type := WithBot (WithTop ℚ)

inductive WritableState
  | writable
  | erroring
  | errored
  | closed
  deriving DecidableEq

inductive ReadableState
  | readable
  | closed
  | errored
  deriving DecidableEq

/-- What the pipe reads of its destination. -/
structure WritableDest (E : Type) where
  state : WritableState
  closeQueuedOrInFlight : Bool
  controllerDesiredSize : DesiredSize
  storedError : E

/-- What the pipe reads of its source. -/
structure ReadableSource (E : Type) where
  state : ReadableState
  storedError : E

inductive ShutdownAction
  | abortAlgorithm
  | abortDestStream
  | cancelSource
  | closeWriterWithErrorPropagation
  deriving DecidableEq

/-- The flags and the last write request, which is the number of the write. -/
structure PipeToState where
  preventClose : Bool
  preventAbort : Bool
  preventCancel : Bool
  shuttingDown : Bool
  /-- `AbortAlgorithm` until it is set. -/
  shutdownAction : ShutdownAction
  pendingRead : Bool
  pendingReadWouldBeRejected : Bool
  lastWriteRequest : Option ℕ

/-- A call of `Shutdown`, or of `ShutdownWithAction`. -/
structure ShutdownRequest (E : Type) where
  action : Option ShutdownAction
  error : Option E

/-- What the pipe does. -/
inductive PipeEffect (C E : Type)
  | readStarted (desiredSize : Option DesiredSize) (shuttingDown : Bool)
  | readFulfilled (chunk : C) (shuttingDown : Bool)
  | written (chunk : C)
  | requested (r : ShutdownRequest E)
  /-- A request takes effect; `passed` chunks have been written, of which some are pending. -/
  | taken (r : ShutdownRequest E) (dest : WritableDest E) (passed : ℕ) (pending : List ℕ)
  | waits
  | performed (action : ShutdownAction) (error : Option E) (pending : List ℕ)
  | finalized (error : Option E) (pending : List ℕ)

/-- How many reactions are registered on the promises that the pipe waits for. -/
structure PipeReactions (E : Type) where
  read : ℕ
  ready : ℕ
  sourceClosed : ℕ
  destClosed : ℕ
  /-- The write, whether the action is still to be performed, and the error. -/
  lastWrite : List (ℕ × Bool × Option E)
  action : List (Option E)

structure Piping (C E : Type) where
  pipe : PipeToState
  source : ReadableSource E
  dest : WritableDest E
  readerHasStream : Bool
  writerHasStream : Bool
  /-- `some none` is a promise that is resolved. -/
  promise : Option (Option E)
  /-- The chunks that have been passed to the writer. -/
  writes : List C
  /-- The numbers of the writes that have not settled, oldest first. -/
  pendingWrites : List ℕ
  reactions : PipeReactions E
  log : List (PipeEffect C E)

section Handlers

variable {C E : Type}

def writableAndNotClosing (dest : WritableDest E) : Bool :=
  dest.state == .writable && dest.closeQueuedOrInFlight

/-- `WritableStreamDefaultWriterGetDesiredSize`, where `none` is null. -/
def getDesiredSize (dest : WritableDest E) : Option DesiredSize :=
  match dest.state with
  | .errored => none
  | .erroring => none
  | .closed => some 0
  | .writable => some dest.controllerDesiredSize

namespace Piping

variable (s : Piping C E)

def emit (e : PipeEffect C E) : Piping C E := { s with log := s.log ++ [e] }

variable (error : Option E)

variable (s : Piping C E)

def finalize : Option (Piping C E) :=
  if s.writerHasStream ∧ s.readerHasStream then
    some { s.emit (.finalized error s.pendingWrites) with
      writerHasStream := false
      readerHasStream := false
      promise := some error }
  else none

/-- The action has been started, and its promise is waited for. -/
def startAction : Piping C E :=
  { s.emit (.performed s.pipe.shutdownAction error s.pendingWrites) with
    reactions := { s.reactions with action := s.reactions.action ++ [error] } }

/-- Each action asserts whether there is an error, and uses the stream of its reader or writer. -/
def actAndFinalize : Option (Piping C E) :=
  match s.pipe.shutdownAction with
  | .abortAlgorithm => none
  | .abortDestStream =>
    if error.isSome ∧ s.writerHasStream then some (s.startAction error) else none
  | .cancelSource =>
    if error.isSome ∧ s.readerHasStream then some (s.startAction error) else none
  | .closeWriterWithErrorPropagation =>
    if error.isNone ∧ s.writerHasStream then some (s.startAction error) else none

/-- Step c of both shutdown algorithms: wait for the last write, or proceed. -/
def afterLastWrite (act : Bool) (error : Option E)
    (proceed : Piping C E → Option (Piping C E)) (s : Piping C E) : Option (Piping C E) :=
  if s.writerHasStream then
    if writableAndNotClosing s.dest then
      match s.pipe.lastWriteRequest with
      | some w =>
        some { s.emit .waits with
          reactions := { s.reactions with lastWrite := s.reactions.lastWrite ++ [(w, act, error)] } }
      | none => proceed s
    else proceed s
  else none

/-- The flags are set; the log keeps the destination and the writes. -/
def setShuttingDown (r : ShutdownRequest E) (action : ShutdownAction) (s : Piping C E) : Piping C E :=
  { s.emit (.taken r s.dest s.writes.length s.pendingWrites) with
    pipe := { s.pipe with shuttingDown := true, shutdownAction := action } }

def shutdownWithAction (action : ShutdownAction) (originalError : Option E) (s : Piping C E) : Option (Piping C E) :=
  let r : ShutdownRequest E := ⟨some action, originalError⟩
  let s := s.emit (.requested r)
  if s.pipe.shuttingDown then some s
  else afterLastWrite true originalError (actAndFinalize originalError) (s.setShuttingDown r action)

def shutdown : Option (Piping C E) :=
  let r : ShutdownRequest E := ⟨none, error⟩
  let s := s.emit (.requested r)
  if s.pipe.shuttingDown then some s
  else afterLastWrite false error (finalize error) (s.setShuttingDown r s.pipe.shutdownAction)

def onSourceErrored : Option (Piping C E) :=
  if s.pipe.preventAbort then shutdown (some s.source.storedError) s
  else shutdownWithAction .abortDestStream (some s.source.storedError) s

def onDestErrored : Option (Piping C E) :=
  if s.pipe.preventCancel then shutdown (some s.dest.storedError) s
  else shutdownWithAction .cancelSource (some s.dest.storedError) s

def onSourceClosed : Option (Piping C E) :=
  if s.pipe.preventClose then shutdown none s
  else shutdownWithAction .closeWriterWithErrorPropagation none s

variable (destClosed : E)

/-- `destClosed` is the new `TypeError`. -/
def onDestClosed (s : Piping C E) : Option (Piping C E) :=
  if s.pipe.preventCancel then shutdown (some destClosed) s
  else shutdownWithAction .cancelSource (some destClosed) s

/-- What `SourceOrDestErroredOrClosed` does, if one of them is. -/
def sourceOrDestErroredOrClosed (s : Piping C E) : Option (Option (Piping C E)) :=
  if s.source.state = .errored then some (onSourceErrored s)
  else if s.dest.state = .errored then some (onDestErrored s)
  else if s.source.state = .closed then some (onSourceClosed s)
  else if s.dest.closeQueuedOrInFlight ∨ s.dest.state = .closed then some (onDestClosed destClosed s)
  else none

def readFromSource : Option (Piping C E) :=
  if s.pipe.pendingRead then none
  else if s.pipe.shuttingDown then some s
  else if s.writerHasStream then
    match getDesiredSize s.dest with
    | none => some s
    | some desiredSize =>
      if desiredSize ≤ 0 then
        some { s with reactions := { s.reactions with ready := s.reactions.ready + 1 } }
      else if s.readerHasStream ∧ s.pipe.pendingReadWouldBeRejected = false then
        some { s.emit (.readStarted (getDesiredSize s.dest) s.pipe.shuttingDown) with
          pipe := { s.pipe with pendingRead := true }
          reactions := { s.reactions with read := s.reactions.read + 1 } }
      else none
  else none

/-- `WritableStreamDefaultWriterWrite`, of which the chunk's size function may leave the destination
as `sized`; the write is rejected at once unless that is writable and not closing.  The destination
is left as `after`. -/
def writerWrite (chunk : C) (sized after : WritableDest E) (s : Piping C E) : Option (Piping C E) :=
  if s.writerHasStream then
    let accepted := sized.state == .writable && !sized.closeQueuedOrInFlight
    some { s.emit (.written chunk) with
      dest := after
      writes := s.writes ++ [chunk]
      pendingWrites :=
        if accepted then s.pendingWrites ++ [s.writes.length] else s.pendingWrites
      pipe := { s.pipe with lastWriteRequest := some s.writes.length } }
  else none

def clearPendingRead : Piping C E :=
  { s with pipe := { s.pipe with pendingRead := false } }

/-- What is done with the result of a read: a chunk, or `none` if the source is done. -/
def processRead (result : Option C) (sized after : WritableDest E) (s : Piping C E) : Option (Piping C E) :=
  match result with
  | none => if s.pipe.shuttingDown then some s else onSourceClosed s
  | some chunk =>
    if s.pipe.shuttingDown then some (s.emit (.readFulfilled chunk true))
    else (writerWrite chunk sized after (s.emit (.readFulfilled chunk false))).bind readFromSource

def readFulfilled (result : Option C) (sized after : WritableDest E) (s : Piping C E) : Option (Piping C E) :=
  if s.pipe.pendingRead then processRead result sized after s.clearPendingRead else none

def readRejected : Option (Piping C E) :=
  if s.pipe.pendingReadWouldBeRejected then none
  else some { s with pipe := { s.pipe with pendingReadWouldBeRejected := true } }

/-- The reactions to closing are registered before the first read. -/
def startPiping (s : Piping C E) : Option (Piping C E) :=
  if s.pipe.shuttingDown then none
  else
    match sourceOrDestErroredOrClosed destClosed s with
    | some r => r
    | none =>
      readFromSource { s with
        reactions := { s.reactions with
          sourceClosed := s.reactions.sourceClosed + 1
          destClosed := s.reactions.destClosed + 1 } }

/-- `PipeToState::create`, with the reader and the writer acquired. -/
def create (preventClose preventAbort preventCancel : Bool)
    (source : ReadableSource E) (dest : WritableDest E) : Option (Piping C E) :=
  startPiping destClosed
    { pipe := ⟨preventClose, preventAbort, preventCancel, false, .abortAlgorithm, false, false, none⟩
      source := source
      dest := dest
      readerHasStream := true
      writerHasStream := true
      promise := none
      writes := []
      pendingWrites := []
      reactions := ⟨0, 0, 0, 0, [], []⟩
      log := [] }

end Piping

/-! ## Events -/

inductive PipeEvent (C E : Type)
  /-- The streams change, by their own or by the pipe's doing. -/
  | streams (source : ReadableSource E) (dest : WritableDest E)
  /-- The oldest pending write settles. -/
  | settleWrite
  | readFulfilled (result : Option C) (sized after : WritableDest E)
  | readRejected
  | ready
  | sourceClosed
  | sourceErrored
  | destClosed
  | destErrored
  /-- The reaction on the last write. -/
  | lastWriteSettled
  /-- The action's promise is fulfilled, or rejected with an error. -/
  | actionSettled (newError : Option E)

/-- One event.  The handlers of closing and erroring get the stream from the reader or writer. -/
def pipeStep (destClosed : E) : PipeEvent C E → Piping C E → Option (Piping C E)
  | .streams source dest, s => some { s with source := source, dest := dest }
  | .settleWrite, s =>
    match s.pendingWrites with
    | [] => none
    | _ :: ws => some { s with pendingWrites := ws }
  | .readFulfilled result sized after, s =>
    match s.reactions.read with
    | 0 => none
    | n + 1 =>
      Piping.readFulfilled result sized after { s with reactions := { s.reactions with read := n } }
  | .readRejected, s =>
    match s.reactions.read with
    | 0 => none
    | n + 1 => Piping.readRejected { s with reactions := { s.reactions with read := n } }
  | .ready, s =>
    match s.reactions.ready with
    | 0 => none
    | n + 1 => Piping.readFromSource { s with reactions := { s.reactions with ready := n } }
  | .sourceClosed, s =>
    match s.reactions.sourceClosed with
    | 0 => none
    | n + 1 => Piping.onSourceClosed { s with reactions := { s.reactions with sourceClosed := n } }
  | .sourceErrored, s =>
    match s.reactions.sourceClosed with
    | 0 => none
    | n + 1 =>
      if s.readerHasStream then
        Piping.onSourceErrored { s with reactions := { s.reactions with sourceClosed := n } }
      else none
  | .destClosed, s =>
    match s.reactions.destClosed with
    | 0 => none
    | n + 1 =>
      Piping.onDestClosed destClosed { s with reactions := { s.reactions with destClosed := n } }
  | .destErrored, s =>
    match s.reactions.destClosed with
    | 0 => none
    | n + 1 =>
      if s.writerHasStream then
        Piping.onDestErrored { s with reactions := { s.reactions with destClosed := n } }
      else none
  | .lastWriteSettled, s =>
    match s.reactions.lastWrite with
    | [] => none
    | (w, act, error) :: rest =>
      if w ∈ s.pendingWrites then none
      else
        let s := { s with reactions := { s.reactions with lastWrite := rest } }
        if act then Piping.actAndFinalize error s else Piping.finalize error s
  | .actionSettled newError, s =>
    match s.reactions.action with
    | [] => none
    | error :: rest =>
      let s := { s with reactions := { s.reactions with action := rest } }
      match newError with
      | none => Piping.finalize error s
      | some e => Piping.finalize (some e) s

/-- The states of a pipe after a list of events. -/
def Piping.Reached (destClosed : E) (s : Piping C E) : Prop :=
  ∃ preventClose preventAbort preventCancel source dest events s₀,
    Piping.create destClosed preventClose preventAbort preventCancel source dest = some s₀ ∧
      EventRun.run (pipeStep destClosed) events s₀ = some s

end Handlers

end SpiderMonkey
