import SpiderMonkey.Builtin.PipeOrder
import SpiderMonkey.Builtin.WritableReports

/-!
# What the handlers of a pipe report

The handlers of the promises that a pipe waits for, with the results of the natives.  When a pipe is finalized both
locks are released, which rejects the promises of the reader and the writer that are still pending; the reactions to
these are those to an error, and ask the reader or the writer for its stream.
-/

namespace SpiderMonkey

open List Option

namespace Piping

variable {C E : Type}

namespace Native

open Reporting

/-! ## Operations of the pipe -/

def finalize (error : Option E) : Reporting (Piping C E) := done (Piping.finalize error)

/-- An abort of the pipe is not implemented: it is reported as an error. -/
def actAndFinalize (error : Option E) : Reporting (Piping C E) := fun s =>
  match s.pipe.shutdownAction with
  | .abortAlgorithm => if error.isSome then some (false, s) else none
  | .abortDestStream => if error.isSome ∧ s.writerHasStream then some (true, s.startAction error) else none
  | .cancelSource => if error.isSome ∧ s.readerHasStream then some (true, s.startAction error) else none
  | .closeWriterWithErrorPropagation =>
    if error.isNone ∧ s.writerHasStream then some (true, s.startAction error) else none

def afterLastWrite (act : Bool) (error : Option E) (proceed : Reporting (Piping C E)) : Reporting (Piping C E) :=
  fun s =>
    if s.writerHasStream then
      if writableAndNotClosing s.dest then
        match s.pipe.lastWriteRequest with
        | some w =>
          some (true, { s.emit .waits with
            reactions := { s.reactions with lastWrite := s.reactions.lastWrite ++ [(w, act, error)] } })
        | none => proceed s
      else proceed s
    else none

def shutdownWithAction (action : ShutdownAction) (originalError : Option E) : Reporting (Piping C E) := fun s =>
  let r : ShutdownRequest E := ⟨some action, originalError⟩
  let s := s.emit (.requested r)
  if s.pipe.shuttingDown then some (true, s)
  else afterLastWrite true originalError (actAndFinalize originalError) (s.setShuttingDown r action)

def shutdown (error : Option E) : Reporting (Piping C E) := fun s =>
  let r : ShutdownRequest E := ⟨none, error⟩
  let s := s.emit (.requested r)
  if s.pipe.shuttingDown then some (true, s)
  else afterLastWrite false error (finalize error) (s.setShuttingDown r s.pipe.shutdownAction)

def onSourceErrored : Reporting (Piping C E) := fun s =>
  if s.pipe.preventAbort then (shutdown (some s.source.storedError)).thenReturn true s
  else (shutdownWithAction .abortDestStream (some s.source.storedError)).thenReturn true s

def onDestErrored : Reporting (Piping C E) := fun s =>
  if s.pipe.preventCancel then (shutdown (some s.dest.storedError)).thenReturn true s
  else (shutdownWithAction .cancelSource (some s.dest.storedError)).thenReturn true s

def onSourceClosed : Reporting (Piping C E) := fun s =>
  if s.pipe.preventClose then (shutdown none).thenReturn true s
  else (shutdownWithAction .closeWriterWithErrorPropagation none).thenReturn true s

def onDestClosed (destClosed : E) : Reporting (Piping C E) := fun s =>
  if s.pipe.preventCancel then (shutdown (some destClosed)).thenReturn true s
  else (shutdownWithAction .cancelSource (some destClosed)).thenReturn true s

/-- Nothing is called but what reads and registers reactions. -/
def readFromSource : Reporting (Piping C E) := done Piping.readFromSource

def processRead (result : Option C) (sized after : WritableDest E) : Reporting (Piping C E) := fun s =>
  match result with
  | none => if s.pipe.shuttingDown then some (true, s) else onSourceClosed s
  | some chunk =>
    if s.pipe.shuttingDown then some (true, s.emit (.readFulfilled chunk true))
    else (done (writerWrite chunk sized after)).andThen readFromSource (s.emit (.readFulfilled chunk false))

def readFulfilled (result : Option C) (sized after : WritableDest E) : Reporting (Piping C E) := fun s =>
  if s.pipe.pendingRead then processRead result sized after s.clearPendingRead else none

def readRejected : Reporting (Piping C E) := done Piping.readRejected

/-! ## Handlers -/

/-- The handler of a reaction, which is taken off the registered ones. -/
def react (destClosed : E) : PipeEvent C E → Reporting (Piping C E)
  | .readFulfilled result sized after, s =>
    (readFulfilled result sized after).thenReturn true
      { s with reactions := { s.reactions with read := s.reactions.read - 1 } }
  | .readRejected, s =>
    readRejected { s with reactions := { s.reactions with read := s.reactions.read - 1 } }
  | .ready, s =>
    readFromSource.thenReturn true { s with reactions := { s.reactions with ready := s.reactions.ready - 1 } }
  | .sourceClosed, s =>
    onSourceClosed.thenReturn true
      { s with reactions := { s.reactions with sourceClosed := s.reactions.sourceClosed - 1 } }
  | .sourceErrored, s =>
    if s.readerHasStream then
      onSourceErrored.thenReturn true
        { s with reactions := { s.reactions with sourceClosed := s.reactions.sourceClosed - 1 } }
    else none
  | .destClosed, s =>
    (onDestClosed destClosed).thenReturn true
      { s with reactions := { s.reactions with destClosed := s.reactions.destClosed - 1 } }
  | .destErrored, s =>
    if s.writerHasStream then
      onDestErrored.thenReturn true
        { s with reactions := { s.reactions with destClosed := s.reactions.destClosed - 1 } }
    else none
  | .lastWriteSettled, s =>
    match s.reactions.lastWrite with
    | [] => none
    | (_, act, error) :: rest =>
      (if act then actAndFinalize error else finalize error).thenReturn true
        { s with reactions := { s.reactions with lastWrite := rest } }
  | .actionSettled newError, s =>
    match s.reactions.action with
    | [] => none
    | error :: rest =>
      (finalize (if newError.isSome then newError else error)).thenReturn true
        { s with reactions := { s.reactions with action := rest } }
  -- no handlers
  | .streams _ _, _ => none
  | .settleWrite, _ => none

/-- The handler does its steps and reports success. -/
def Reports (destClosed : E) (s : Piping C E) (e : PipeEvent C E) : Prop :=
  ∃ s', pipeStep destClosed e s = some s' ∧ react destClosed e s = some (true, s')

end Native

/-- Is a reaction registered whose promise can have settled? -/
def Registered (s : Piping C E) : PipeEvent C E → Prop
  | .readFulfilled _ _ _ | .readRejected => s.reactions.read ≠ 0
  | .ready => s.reactions.ready ≠ 0
  | .sourceClosed | .sourceErrored => s.reactions.sourceClosed ≠ 0
  | .destClosed | .destErrored => s.reactions.destClosed ≠ 0
  | .lastWriteSettled => ∃ x rest, s.reactions.lastWrite = x :: rest ∧ x.1 ∉ s.pendingWrites
  | .actionSettled _ => s.reactions.action ≠ []
  | .streams _ _ | .settleWrite => False

/-- Does the reaction to an error find the stream of the reader, or of the writer? -/
def HasStream (s : Piping C E) : PipeEvent C E → Prop
  | .sourceErrored => s.readerHasStream = true
  | .destErrored => s.writerHasStream = true
  | _ => True

/-- An action has the error that it asserts, and none is an abort of the pipe. -/
def Matched (r : ShutdownRequest E) : Prop :=
  match r.action with
  | none => True
  | some .abortAlgorithm => False
  | some .abortDestStream | some .cancelSource => r.error.isSome = true
  | some .closeWriterWithErrorPropagation => r.error.isNone = true

open PipeEffect

/-! ## What the handlers rely on -/

/-- The streams are held until the pipe is finalized, and no read is under way when the next one is considered. -/
structure Attached (s : Piping C E) : Prop where
  held : s.log.countP isFinalized = 0 → s.readerHasStream = true ∧ s.writerHasStream = true
  read : s.reactions.read ≠ 0 → s.pipe.pendingRead = true ∧ s.pipe.pendingReadWouldBeRejected = false
  ready : s.reactions.ready ≠ 0 → s.pipe.pendingRead = false ∧ s.pipe.pendingReadWouldBeRejected = false
  matched : ∀ r ∈ s.requests, Matched r

/-- The steps end, the native reports success after them, and the handlers can rely on the state they lead to. -/
def Succeeds (f : Piping C E → Option (Piping C E)) (native : Reporting (Piping C E)) (s : Piping C E) : Prop :=
  ∃ s', f s = some s' ∧ native s = some (true, s') ∧ Attached s'

/-- The streams are held while the pipe is not shutting down. -/
def Held (s : Piping C E) : Prop :=
  s.pipe.shuttingDown = false → s.readerHasStream = true ∧ s.writerHasStream = true

variable {s s' : Piping C E} {f : Piping C E → Option (Piping C E)} {native : Reporting (Piping C E)}

lemma Succeeds.thenReturn (h : Succeeds f native s) : Succeeds f (native.thenReturn true) s := by
  obtain ⟨s', hf, hnative, hs'⟩ := h
  exact ⟨s', hf, Reporting.thenReturn_of_true hnative true, hs'⟩

lemma Succeeds.attached (h : Succeeds f native s) (heq : f s = some s') : Attached s' := by
  obtain ⟨s₁, heq₁, -, hs₁⟩ := h
  cases heq₁.symm.trans heq
  exact hs₁

namespace Attached

open Nat

section

variable (h : Attached s)

include h

lemma extend {es : List (PipeEffect C E)} (hlog : s'.log = s.log ++ es)
    (hmatched : ∀ r ∈ es.filterMap request?, Matched r)
    (hheld : es.countP isFinalized = 0 →
      s'.readerHasStream = s.readerHasStream ∧ s'.writerHasStream = s.writerHasStream)
    (hread : s'.reactions.read ≠ 0 → s'.pipe.pendingRead = true ∧ s'.pipe.pendingReadWouldBeRejected = false)
    (hready : s'.reactions.ready ≠ 0 → s'.pipe.pendingRead = false ∧ s'.pipe.pendingReadWouldBeRejected = false) :
    Attached s' where
  held hcount := by
    rw [hlog, countP_append] at hcount
    obtain ⟨hreader, hwriter⟩ := hheld (by omega)
    rw [hreader, hwriter]
    exact h.held (by omega)
  read := hread
  ready := hready
  matched r hr := by
    rw [requests, hlog, filterMap_append] at hr
    exact (mem_append.1 hr).elim (h.matched r) (hmatched r)

lemma finalize (hreader : s.readerHasStream = true) (hwriter : s.writerHasStream = true)
    (error : Option E) : Succeeds (Piping.finalize error) (Native.finalize error) s := by
  have heq : Piping.finalize error s = some { s.emit (.finalized error s.pendingWrites) with
      writerHasStream := false
      readerHasStream := false
      promise := some error } := if_pos ⟨hwriter, hreader⟩
  refine ⟨_, heq, Reporting.done_of_some heq, h.extend rfl (by simp [request?]) (fun hcount => ?_) h.read h.ready⟩
  simp [isFinalized] at hcount

lemma startAction (error : Option E) : Attached (s.startAction error) :=
  h.extend rfl (by simp [request?]) (fun _ => ⟨rfl, rfl⟩) h.read h.ready

lemma actAndFinalize (hreader : s.readerHasStream = true) (hwriter : s.writerHasStream = true)
    {error : Option E} (hmatched : Matched ⟨some s.pipe.shutdownAction, error⟩) :
    Succeeds (Piping.actAndFinalize error) (Native.actAndFinalize error) s := by
  refine ⟨s.startAction error, ?_, ?_, h.startAction error⟩ <;>
    cases haction : s.pipe.shutdownAction <;>
      simp_all [Matched, Piping.actAndFinalize, Native.actAndFinalize]

lemma afterLastWrite (hwriter : s.writerHasStream = true) (act : Bool) (error : Option E)
    (hproceed : Succeeds f native s) :
    Succeeds (Piping.afterLastWrite act error f) (Native.afterLastWrite act error native) s := by
  unfold Succeeds Piping.afterLastWrite Native.afterLastWrite
  rw [if_pos hwriter, if_pos hwriter]
  by_cases hclosing : writableAndNotClosing s.dest = true
  · rw [if_pos hclosing, if_pos hclosing]
    cases s.pipe.lastWriteRequest with
    | some w =>
      exact ⟨_, rfl, rfl, h.extend rfl (by simp [request?]) (fun _ => ⟨rfl, rfl⟩) h.read h.ready⟩
    | none => exact hproceed
  · rw [if_neg hclosing, if_neg hclosing]
    exact hproceed

lemma requested {r : ShutdownRequest E} (hr : Matched r) : Attached (s.emit (.requested r)) :=
  h.extend rfl (by simpa [request?] using hr) (fun _ => ⟨rfl, rfl⟩) h.read h.ready

lemma setShuttingDown (r : ShutdownRequest E) (action : ShutdownAction) : Attached (s.setShuttingDown r action) :=
  h.extend rfl (by simp [request?]) (fun _ => ⟨rfl, rfl⟩) h.read h.ready

lemma held_idle (hinv : PipeInv s) : Held s := fun hidle => h.held (PipeInv.countP_finalized (hinv.idle hidle))

section

variable (hheld : Held s)

include hheld

lemma shutdown (error : Option E) : Succeeds (Piping.shutdown error) (Native.shutdown error) s := by
  have hrequested : Attached (s.emit (.requested ⟨none, error⟩)) := h.requested trivial
  unfold Succeeds Piping.shutdown Native.shutdown
  cases hdown : s.pipe.shuttingDown with
  | true =>
    have hdown' : (s.emit (.requested ⟨none, error⟩)).pipe.shuttingDown = true := hdown
    simp only [hdown', if_true]
    exact ⟨_, rfl, rfl, hrequested⟩
  | false =>
    have hdown' : (s.emit (.requested ⟨none, error⟩)).pipe.shuttingDown = false := hdown
    obtain ⟨hreader, hwriter⟩ := hheld hdown
    have hset := hrequested.setShuttingDown ⟨none, error⟩ s.pipe.shutdownAction
    simp only [hdown', Bool.false_eq_true, if_false]
    exact hset.afterLastWrite hwriter false error (hset.finalize hreader hwriter error)

lemma shutdownWithAction {action : ShutdownAction} {error : Option E} (hmatched : Matched ⟨some action, error⟩) :
    Succeeds (Piping.shutdownWithAction action error) (Native.shutdownWithAction action error) s := by
  have hrequested : Attached (s.emit (.requested ⟨some action, error⟩)) := h.requested hmatched
  unfold Succeeds Piping.shutdownWithAction Native.shutdownWithAction
  cases hdown : s.pipe.shuttingDown with
  | true =>
    have hdown' : (s.emit (.requested ⟨some action, error⟩)).pipe.shuttingDown = true := hdown
    simp only [hdown', if_true]
    exact ⟨_, rfl, rfl, hrequested⟩
  | false =>
    have hdown' : (s.emit (.requested ⟨some action, error⟩)).pipe.shuttingDown = false := hdown
    obtain ⟨hreader, hwriter⟩ := hheld hdown
    have hset := hrequested.setShuttingDown ⟨some action, error⟩ action
    simp only [hdown', Bool.false_eq_true, if_false]
    exact hset.afterLastWrite hwriter true error (hset.actAndFinalize hreader hwriter hmatched)

lemma shutdownOr (prevent : Bool) {action : ShutdownAction} {error : Option E}
    (hmatched : Matched ⟨some action, error⟩) :
    Succeeds (fun s => if prevent then Piping.shutdown error s else Piping.shutdownWithAction action error s)
      (fun s => if prevent then (Native.shutdown error).thenReturn true s
        else (Native.shutdownWithAction action error).thenReturn true s) s := by
  cases prevent with
  | true => exact (h.shutdown hheld error).thenReturn
  | false => exact (h.shutdownWithAction hheld hmatched).thenReturn

lemma onSourceErrored : Succeeds Piping.onSourceErrored Native.onSourceErrored s :=
  h.shutdownOr hheld s.pipe.preventAbort rfl

lemma onDestErrored : Succeeds Piping.onDestErrored Native.onDestErrored s :=
  h.shutdownOr hheld s.pipe.preventCancel rfl

lemma onSourceClosed : Succeeds Piping.onSourceClosed Native.onSourceClosed s :=
  h.shutdownOr hheld s.pipe.preventClose rfl

lemma onDestClosed (destClosed : E) : Succeeds (Piping.onDestClosed destClosed) (Native.onDestClosed destClosed) s :=
  h.shutdownOr hheld s.pipe.preventCancel rfl

/-! ## Reading -/

lemma readFromSource (hread : s.reactions.read = 0)
    (hready : s.reactions.ready = 0) (hpending : s.pipe.pendingRead = false)
    (hrejected : s.pipe.pendingReadWouldBeRejected = false) :
    Succeeds Piping.readFromSource Native.readFromSource s := by
  have hspec : ∃ s', Piping.readFromSource s = some s' ∧ Attached s' := by
    unfold Piping.readFromSource
    rw [if_neg (Bool.eq_false_iff.1 hpending)]
    cases hdown : s.pipe.shuttingDown with
    | true => exact ⟨s, rfl, h⟩
    | false =>
      obtain ⟨hreader, hwriter⟩ := hheld hdown
      rw [if_neg Bool.false_ne_true, if_pos hwriter]
      cases getDesiredSize s.dest with
      | none => exact ⟨s, rfl, h⟩
      | some desiredSize =>
        by_cases hsize : desiredSize ≤ 0
        · simp only [if_pos hsize]
          exact ⟨_, rfl, h.extend (append_nil _).symm (by simp) (fun _ => ⟨rfl, rfl⟩) h.read
            fun _ => ⟨hpending, hrejected⟩⟩
        · simp only [if_neg hsize, if_pos (And.intro hreader hrejected)]
          exact ⟨_, rfl, h.extend rfl (by simp [request?]) (fun _ => ⟨rfl, rfl⟩) (fun _ => ⟨rfl, hrejected⟩)
            fun hne => absurd hready hne⟩
  obtain ⟨s', heq, hs'⟩ := hspec
  exact ⟨s', heq, Reporting.done_of_some heq, hs'⟩

end

lemma writerWrite (hread : s.reactions.read = 0) (hready : s.reactions.ready = 0)
    (hwriter : s.writerHasStream = true) (chunk : C) (sized after : WritableDest E) :
    ∃ s', Piping.writerWrite chunk sized after s = some s' ∧ Attached s' ∧
      s'.pipe.shuttingDown = s.pipe.shuttingDown ∧ s'.readerHasStream = s.readerHasStream ∧
      s'.writerHasStream = s.writerHasStream ∧ s'.reactions = s.reactions ∧ s'.pipe.pendingRead = s.pipe.pendingRead ∧
      s'.pipe.pendingReadWouldBeRejected = s.pipe.pendingReadWouldBeRejected := by
  refine ⟨_, if_pos hwriter, h.extend rfl (by simp [request?]) (fun _ => ⟨rfl, rfl⟩) ?_ ?_,
    rfl, rfl, rfl, rfl, rfl, rfl⟩
  · exact fun hne => absurd hread hne
  · exact fun hne => absurd hready hne

lemma processRead (hheld : Held s) (hread : s.reactions.read = 0) (hready : s.reactions.ready = 0)
    (hpending : s.pipe.pendingRead = false) (hrejected : s.pipe.pendingReadWouldBeRejected = false)
    (result : Option C) (sized after : WritableDest E) :
    Succeeds (Piping.processRead result sized after) (Native.processRead result sized after) s := by
  unfold Succeeds Piping.processRead Native.processRead
  cases result with
  | none =>
    cases hdown : s.pipe.shuttingDown with
    | true => exact ⟨s, rfl, rfl, h⟩
    | false => exact h.onSourceClosed hheld
  | some chunk =>
    have hemit (b : Bool) : Attached (s.emit (.readFulfilled chunk b)) :=
      h.extend rfl (by simp [request?]) (fun _ => ⟨rfl, rfl⟩) h.read h.ready
    cases hdown : s.pipe.shuttingDown with
    | true => exact ⟨_, rfl, rfl, hemit true⟩
    | false =>
      obtain ⟨hreader, hwriter⟩ := hheld hdown
      obtain ⟨s₁, heq, hs₁, hdown₁, hreader₁, hwriter₁, hreactions₁, hpending₁, hrejected₁⟩ :=
        (hemit false).writerWrite hread hready hwriter chunk sized after
      have hnext : Succeeds Piping.readFromSource Native.readFromSource s₁ := by
        refine hs₁.readFromSource (fun _ => ?_) ?_ ?_ ?_ ?_
        · rw [hreader₁, hwriter₁]
          exact ⟨hreader, hwriter⟩
        · rw [hreactions₁]
          exact hread
        · rw [hreactions₁]
          exact hready
        · rw [hpending₁]
          exact hpending
        · rw [hrejected₁]
          exact hrejected
      simp only [Bool.false_eq_true, if_false, heq, bind_some, Reporting.andThen_of_true (Reporting.done_of_some heq)]
      exact hnext

lemma readFulfilled (hheld : Held s) (hread : s.reactions.read = 0) (hready : s.reactions.ready = 0)
    (hpending : s.pipe.pendingRead = true) (hrejected : s.pipe.pendingReadWouldBeRejected = false)
    (result : Option C) (sized after : WritableDest E) :
    Succeeds (Piping.readFulfilled result sized after) (Native.readFulfilled result sized after) s := by
  have hclear : Attached s.clearPendingRead :=
    h.extend (append_nil _).symm (by simp) (fun _ => ⟨rfl, rfl⟩) (fun hne => absurd hread hne)
      (fun hne => absurd hready hne)
  unfold Succeeds Piping.readFulfilled Native.readFulfilled
  rw [if_pos hpending, if_pos hpending]
  exact hclear.processRead hheld hread hready rfl hrejected result sized after

/-! ## Reactions -/

lemma consume {reactions : PipeReactions E} (hread : reactions.read ≤ s.reactions.read)
    (hready : reactions.ready ≤ s.reactions.ready) : Attached { s with reactions := reactions } :=
  h.extend (append_nil _).symm (by simp) (fun _ => ⟨rfl, rfl⟩)
    (fun hne => h.read (Nat.ne_of_gt (lt_of_lt_of_le (Nat.pos_of_ne_zero hne) hread)))
    (fun hne => h.ready (Nat.ne_of_gt (lt_of_lt_of_le (Nat.pos_of_ne_zero hne) hready)))

/-- The action that waits for the last write has what it asserts. -/
lemma matched_lastWrite (hinv : PipeInv s) {x : ℕ × Bool × Option E}
    (hx : x ∈ s.reactions.lastWrite) (hact : x.2.1 = true) : Matched ⟨some s.pipe.shutdownAction, x.2.2⟩ := by
  obtain ⟨r, hr, hisSome, herror⟩ := hinv.lastWrite x hx
  obtain ⟨a, ha⟩ := isSome_iff_exists.1 (hisSome.symm.trans hact)
  have hr' : r = ⟨some s.pipe.shutdownAction, x.2.2⟩ := by
    rw [hinv.shutdownAction r hr a ha, ← ha, herror]
  exact hr' ▸ h.matched r (mem_of_mem_head? hr)

lemma held_lastWrite (hinv : PipeInv s) (hlastWrite : s.reactions.lastWrite ≠ []) :
    s.readerHasStream = true ∧ s.writerHasStream = true := by
  have honce := hinv.once
  have hpos := length_pos_iff.2 hlastWrite
  unfold shutdownSteps at honce
  exact h.held (by omega)

lemma held_action (hinv : PipeInv s) (haction : s.reactions.action ≠ []) :
    s.readerHasStream = true ∧ s.writerHasStream = true := by
  have honce := hinv.once
  have hpos := length_pos_iff.2 haction
  unfold shutdownSteps at honce
  exact h.held (by omega)

lemma react (hinv : PipeInv s) {destClosed : E} {e : PipeEvent C E} (he : Registered s e)
    (hstream : HasStream s e) : Succeeds (pipeStep destClosed e) (Native.react destClosed e) s := by
  have hheld : Held s := h.held_idle hinv
  have hchain := hinv.chain
  unfold Succeeds
  cases e with
  | streams source dest => exact he.elim
  | settleWrite => exact he.elim
  | readFulfilled result sized after =>
    obtain ⟨n, hn⟩ := exists_eq_succ_of_ne_zero he
    obtain ⟨hpending, hrejected⟩ := h.read he
    have hs : Attached { s with reactions := { s.reactions with read := n } } := h.consume (hn ▸ n.le_succ) le_rfl
    have hread : n = 0 := by omega
    have hready : s.reactions.ready = 0 := by omega
    simp only [pipeStep, Native.react, hn, succ_eq_add_one, Nat.add_sub_cancel]
    exact (hs.readFulfilled hheld hread hready hpending hrejected result sized after).thenReturn
  | readRejected =>
    obtain ⟨n, hn⟩ := exists_eq_succ_of_ne_zero he
    obtain ⟨hpending, hrejected⟩ := h.read he
    have hread : n = 0 := by omega
    have hready : s.reactions.ready = 0 := by omega
    have heq : Piping.readRejected { s with reactions := { s.reactions with read := n } } = some
        { s with
          reactions := { s.reactions with read := n }
          pipe := { s.pipe with pendingReadWouldBeRejected := true } } := if_neg (Bool.eq_false_iff.1 hrejected)
    simp only [pipeStep, Native.react, hn, succ_eq_add_one, Nat.add_sub_cancel]
    refine ⟨_, heq, Reporting.done_of_some heq, h.extend (append_nil _).symm (by simp) (fun _ => ⟨rfl, rfl⟩) ?_ ?_⟩
    · exact fun hne => absurd hread hne
    · exact fun hne => absurd hready hne
  | ready =>
    obtain ⟨n, hn⟩ := exists_eq_succ_of_ne_zero he
    obtain ⟨hpending, hrejected⟩ := h.ready he
    have hs : Attached { s with reactions := { s.reactions with ready := n } } := h.consume le_rfl (hn ▸ n.le_succ)
    have hread : s.reactions.read = 0 := by omega
    have hready : n = 0 := by omega
    simp only [pipeStep, Native.react, hn, succ_eq_add_one, Nat.add_sub_cancel]
    exact (hs.readFromSource hheld hread hready hpending hrejected).thenReturn
  | sourceClosed =>
    obtain ⟨n, hn⟩ := exists_eq_succ_of_ne_zero he
    have hs : Attached { s with reactions := { s.reactions with sourceClosed := n } } := h.consume le_rfl le_rfl
    simp only [pipeStep, Native.react, hn, succ_eq_add_one, Nat.add_sub_cancel]
    exact (hs.onSourceClosed hheld).thenReturn
  | sourceErrored =>
    obtain ⟨n, hn⟩ := exists_eq_succ_of_ne_zero he
    have hs : Attached { s with reactions := { s.reactions with sourceClosed := n } } := h.consume le_rfl le_rfl
    simp only [pipeStep, Native.react, hn, succ_eq_add_one, Nat.add_sub_cancel,
      if_pos (show s.readerHasStream = true from hstream)]
    exact (hs.onSourceErrored hheld).thenReturn
  | destClosed =>
    obtain ⟨n, hn⟩ := exists_eq_succ_of_ne_zero he
    have hs : Attached { s with reactions := { s.reactions with destClosed := n } } := h.consume le_rfl le_rfl
    simp only [pipeStep, Native.react, hn, succ_eq_add_one, Nat.add_sub_cancel]
    exact (hs.onDestClosed hheld destClosed).thenReturn
  | destErrored =>
    obtain ⟨n, hn⟩ := exists_eq_succ_of_ne_zero he
    have hs : Attached { s with reactions := { s.reactions with destClosed := n } } := h.consume le_rfl le_rfl
    simp only [pipeStep, Native.react, hn, succ_eq_add_one, Nat.add_sub_cancel,
      if_pos (show s.writerHasStream = true from hstream)]
    exact (hs.onDestErrored hheld).thenReturn
  | lastWriteSettled =>
    obtain ⟨⟨w, act, error⟩, rest, hlastWrite, hw⟩ := he
    have hmem : (w, act, error) ∈ s.reactions.lastWrite := hlastWrite ▸ mem_cons_self
    obtain ⟨hreader, hwriter⟩ := h.held_lastWrite hinv (ne_nil_of_mem hmem)
    have hrest : Attached { s with reactions := { s.reactions with lastWrite := rest } } := h.consume le_rfl le_rfl
    simp only [pipeStep, Native.react, hlastWrite, if_neg (show w ∉ s.pendingWrites from hw)]
    cases act with
    | true => exact (hrest.actAndFinalize hreader hwriter (h.matched_lastWrite hinv hmem rfl)).thenReturn
    | false => exact (hrest.finalize hreader hwriter error).thenReturn
  | actionSettled newError =>
    obtain ⟨error, rest, haction⟩ := exists_cons_of_ne_nil he
    obtain ⟨hreader, hwriter⟩ := h.held_action hinv he
    have hrest : Attached { s with reactions := { s.reactions with action := rest } } := h.consume le_rfl le_rfl
    simp only [pipeStep, Native.react, haction]
    cases newError with
    | none => exact (hrest.finalize hreader hwriter error).thenReturn
    | some e => exact (hrest.finalize hreader hwriter (some e)).thenReturn

end

lemma registered_of_step {destClosed : E} {e : PipeEvent C E} (heq : pipeStep destClosed e s = some s') :
    (∃ source dest, e = .streams source dest) ∨ e = .settleWrite ∨ (Registered s e ∧ HasStream s e) := by
  cases e with
  | streams source dest => exact .inl ⟨source, dest, rfl⟩
  | settleWrite => exact .inr (.inl rfl)
  | readFulfilled result sized after => exact .inr (.inr ⟨(PipeInv.ne_zero_of_count heq).1, trivial⟩)
  | readRejected => exact .inr (.inr ⟨(PipeInv.ne_zero_of_count heq).1, trivial⟩)
  | ready => exact .inr (.inr ⟨(PipeInv.ne_zero_of_count heq).1, trivial⟩)
  | sourceClosed => exact .inr (.inr ⟨(PipeInv.ne_zero_of_count heq).1, trivial⟩)
  | destClosed => exact .inr (.inr ⟨(PipeInv.ne_zero_of_count heq).1, trivial⟩)
  | sourceErrored =>
    obtain ⟨hcount, k, hk⟩ := PipeInv.ne_zero_of_count heq
    exact .inr (.inr ⟨hcount, (ite_none_right_eq_some.1 hk).1⟩)
  | destErrored =>
    obtain ⟨hcount, k, hk⟩ := PipeInv.ne_zero_of_count heq
    exact .inr (.inr ⟨hcount, (ite_none_right_eq_some.1 hk).1⟩)
  | lastWriteSettled =>
    rw [pipeStep] at heq
    cases hlastWrite : s.reactions.lastWrite with
    | nil => simp [hlastWrite] at heq
    | cons x rest =>
      simp only [hlastWrite] at heq
      exact .inr (.inr ⟨⟨x, rest, hlastWrite, (ite_none_left_eq_some.1 heq).1⟩, trivial⟩)
  | actionSettled newError =>
    refine .inr (.inr ⟨fun hnone => ?_, trivial⟩)
    simp [pipeStep, hnone] at heq

lemma step (h : Attached s) (hinv : PipeInv s) {destClosed : E} {e : PipeEvent C E}
    (heq : pipeStep destClosed e s = some s') : Attached s' := by
  obtain ⟨source, dest, rfl⟩ | rfl | ⟨he, hstream⟩ := registered_of_step heq
  · cases heq
    exact h.extend (append_nil _).symm (by simp) (fun _ => ⟨rfl, rfl⟩) h.read h.ready
  · unfold pipeStep at heq
    cases hwrites : s.pendingWrites with
    | nil => simp [hwrites] at heq
    | cons w ws =>
      simp only [hwrites, Option.some.injEq] at heq
      subst heq
      exact h.extend (append_nil _).symm (by simp) (fun _ => ⟨rfl, rfl⟩) h.read h.ready
  · exact (h.react hinv he hstream).attached heq

lemma startPiping (h : Attached s) (hheld : Held s) (hread : s.reactions.read = 0) (hready : s.reactions.ready = 0)
    (hpending : s.pipe.pendingRead = false) (hrejected : s.pipe.pendingReadWouldBeRejected = false) {destClosed : E}
    (heq : Piping.startPiping destClosed s = some s') : Attached s' := by
  unfold Piping.startPiping sourceOrDestErroredOrClosed at heq
  obtain ⟨-, heq⟩ := ite_none_left_eq_some.1 heq
  split_ifs at heq
  · exact (h.onSourceErrored hheld).attached heq
  · exact (h.onDestErrored hheld).attached heq
  · exact (h.onSourceClosed hheld).attached heq
  · exact (h.onDestClosed hheld destClosed).attached heq
  · have hs : Attached { s with reactions := { s.reactions with
        sourceClosed := s.reactions.sourceClosed + 1
        destClosed := s.reactions.destClosed + 1 } } := h.consume le_rfl le_rfl
    exact (hs.readFromSource hheld hread hready hpending hrejected).attached heq

lemma of_reached {destClosed : E} (h : Reached destClosed s) : Attached s := by
  obtain ⟨preventClose, preventAbort, preventCancel, source, dest, events, s₀, hcreate, hrun⟩ := h
  have hs₀ : Attached s₀ := by
    refine startPiping ?_ (fun _ => ⟨rfl, rfl⟩) rfl rfl rfl rfl hcreate
    exact ⟨fun _ => ⟨rfl, rfl⟩, by simp, by simp, by simp [requests]⟩
  refine (EventRun.invariant (I := fun s => (PipeInv s ∧ Answered s) ∧ Attached s)
    (fun e s s' hs heq => ?_) ⟨PipeInv.of_create hcreate, hs₀⟩ hrun).2
  exact ⟨PipeInv.pipeStep_spec e hs.1.1 hs.1.2 heq, hs.2.step hs.1.1 heq⟩

end Attached

lemma Native.reports_iff {destClosed : E} (h : Reached destClosed s) {e : PipeEvent C E} (he : Registered s e) :
    Native.Reports destClosed s e ↔ HasStream s e := by
  constructor
  · rintro ⟨s', heq, -⟩
    obtain ⟨source, dest, rfl⟩ | rfl | ⟨-, hstream⟩ := Attached.registered_of_step heq
    · exact he.elim
    · exact he.elim
    · exact hstream
  · intro hstream
    obtain ⟨s', heq, hreact, -⟩ := (Attached.of_reached h).react (PipeInv.of_reached h).1 he hstream
    exact ⟨s', heq, hreact⟩

/-- A handler does its steps and reports success exactly if it is no handler of an abort request, and no reaction to
an error whose reader or writer has lost its stream. -/
theorem handlers_report_iff (destClosed : E) :
    (∀ {F D : Type} [SizeArith D] (sink : Sink) (hwm : D) (es : List (WritableStream.Event F D))
      (s : WritableStream F D),
      EventRun.Along (fun s e => WritableStream.Possible s e ∧ WritableStream.Undisturbed s e)
        WritableStream.step es (WritableStream.create F sink hwm) →
      EventRun.run WritableStream.step es (WritableStream.create F sink hwm) = some s →
      ∀ op ∈ s.pending, s.converting = [] → ∀ outcome : Except (Option F) Unit,
        (WritableStream.Native.Reports s op outcome ↔ WritableStream.Native.isAbort op = false)) ∧
    ∀ s : Piping C E, Reached destClosed s → ∀ e, Registered s e → (Native.Reports destClosed s e ↔ HasStream s e) := by
  refine ⟨fun sink hwm es s halong hrun op hop hconverting outcome => ?_, fun s h e he => Native.reports_iff h he⟩
  have hinv : WritableStream.Inv False [] s := EventRun.invariant_along
    (fun e s s' h he => WritableStream.step_undisturbed h he) (WritableStream.inv_create False sink hwm) halong hrun
  exact WritableStream.Native.reports_iff hinv hop hconverting outcome

/-- The start of a sink, and the closing of a destination. -/
theorem handlers_report_iff_start :
    WritableStream.Native.Reports (WritableStream.create Unit ⟨true, true, true⟩ (1 : ℤ)) .start (.ok ()) ∧
      ∃ s, pipeRun = some s ∧ Native.Reports 1 s (.actionSettled none) := by
  obtain ⟨s, hs, -⟩ := map_eq_some_iff.1 log_pipeRun
  have haction : pipeRun.map (fun s => s.reactions.action.length) = some 1 := rfl
  have hregistered : s.reactions.action ≠ [] := fun hnil => by
    simp [hs, map_some, hnil] at haction
  obtain ⟨hsink, hpipe⟩ := handlers_report_iff (C := ℕ) 1
  have hstart := hsink ⟨true, true, true⟩ (1 : ℤ) [] _ trivial rfl .start (mem_singleton.2 rfl) rfl
    (.ok () : Except (Option Unit) Unit)
  exact ⟨hstart.2 rfl, s, hs, (hpipe s (reached_of_pipeRun hs) (.actionSettled none) hregistered).2 trivial⟩

/-- The sink is started and the stream aborted. -/
def abortedRun : Option (WritableStream Unit ℤ) :=
  EventRun.run WritableStream.step [.settled .start (.ok ()), .abort none]
    (WritableStream.create Unit ⟨true, true, true⟩ (1 : ℤ))

/-- The source closes, which finalizes the pipe. -/
def finalizedRun : Option (Piping ℕ ℕ) :=
  (Piping.create 1 true false false ⟨.readable, 0⟩ (openDest 1)).bind (EventRun.run (pipeStep 1) [.sourceClosed])

/-- The promise of `abort` is fulfilled, and the release of the writer rejects its promise. -/
theorem not_handlers_report :
    (¬ ∀ (sink : Sink) (hwm : ℤ) (es : List (WritableStream.Event Unit ℤ)) (s : WritableStream Unit ℤ),
      EventRun.run WritableStream.step es (WritableStream.create Unit sink hwm) = some s →
      ∀ op ∈ s.pending, s.converting = [] → ∀ outcome : Except (Option Unit) Unit,
        WritableStream.Native.Reports s op outcome) ∧
    ¬ ∀ s : Piping ℕ ℕ, Reached 1 s → ∀ e, Registered s e → Native.Reports 1 s e := by
  constructor
  · intro hall
    obtain ⟨s, hs, hpending, hconverting⟩ :
        ∃ s, abortedRun = some s ∧ s.pending = [.abort 0] ∧ s.converting = [] := ⟨_, rfl, rfl, rfl⟩
    obtain ⟨s', -, hreact⟩ := hall _ _ _ s hs (.abort 0) (by simp [hpending]) hconverting (.ok ())
    rw [WritableStream.Native.react_eq] at hreact
    simp [WritableStream.Native.isAbort] at hreact
  · intro hall
    obtain ⟨s, hs, hdestClosed, hwriter⟩ :
        ∃ s, finalizedRun = some s ∧ s.reactions.destClosed = 1 ∧ s.writerHasStream = false :=
      ⟨_, rfl, rfl, rfl⟩
    obtain ⟨s₀, hs₀, hrun⟩ := bind_eq_some_iff.1 hs
    have hreached : Reached 1 s := ⟨true, false, false, ⟨.readable, 0⟩, openDest 1, [.sourceClosed], s₀, hs₀, hrun⟩
    have hregistered : Registered s .destErrored := hdestClosed.trans_ne Nat.one_ne_zero
    have hstream : s.writerHasStream = true :=
      (Native.reports_iff hreached hregistered).1 (hall s hreached .destErrored hregistered)
    simp [hwriter] at hstream

end Piping

end SpiderMonkey
