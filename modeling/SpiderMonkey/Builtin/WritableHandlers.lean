import SpiderMonkey.Builtin.WritableCalls

/-!
# The reactions to the promises of the sink

Each takes its promise from those that are pending, and keeps the invariant.
-/

namespace SpiderMonkey

open List

namespace WritableStream

variable {E D : Type} {s : WritableStream E D} {op : SinkOp} {plain : Prop} {conv : List ℕ}

/-! ## What is pending -/

/-- The stream when the reaction to the promise of the operation begins. -/
def reacting (op : SinkOp) (s : WritableStream E D) : WritableStream E D :=
  { s with pending := s.pending.erase op }

lemma Live.op_cases (h : Live plain s) (hop : op ∈ s.pending) : (op = .start ∧ s.started = false) ∨
      (op = .write ∧ s.started = true ∧ s.haveInFlightWriteRequest = true) ∨
      (op = .close ∧ s.started = true ∧ s.haveInFlightWriteRequest = false ∧ s.haveInFlightCloseRequest = true) := by
  rw [h.pending, opsInFlight] at hop
  cases hstarted : s.started with
  | false =>
    rw [hstarted, if_pos rfl] at hop
    exact .inl ⟨mem_singleton.1 hop, rfl⟩
  | true =>
    rw [hstarted, if_neg (by decide)] at hop
    cases hwrite : s.haveInFlightWriteRequest with
    | true =>
      rw [hwrite, if_pos rfl] at hop
      exact .inr (.inl ⟨mem_singleton.1 hop, rfl, rfl⟩)
    | false =>
      rw [hwrite, if_neg (by decide)] at hop
      cases hclose : s.haveInFlightCloseRequest with
      | true =>
        rw [hclose, if_pos rfl] at hop
        exact .inr (.inr ⟨mem_singleton.1 hop, rfl, rfl, rfl⟩)
      | false =>
        rw [hclose, if_neg (by decide)] at hop
        cases hop

/-- One operation is in flight at most. -/
lemma Live.pending_eq (h : Live plain s) (hop : op ∈ s.pending) : s.pending = [op] := by
  rw [h.pending]
  rcases h.op_cases hop with ⟨rfl, hstarted⟩ | ⟨rfl, hstarted, hwrite⟩ |
    ⟨rfl, hstarted, hwrite, hclose⟩
  · rw [opsInFlight, if_pos hstarted]
  · simp [opsInFlight, hstarted, hwrite]
  · rw [opsInFlight, hstarted, if_neg (by decide), hwrite, if_neg (by decide), if_pos hclose]

lemma Live.pending_erase (h : Live plain s) (hop : op ∈ s.pending) : s.pending.erase op = [] := by
  rw [h.pending_eq hop]
  simp

/-- No abort of the sink is pending before the stream is errored. -/
lemma Inv.live_of_op (h : Inv plain conv s) (hop : op ∈ s.pending) (hne : ∀ p, op ≠ .abort p) :
    s.state = .writable ∨ s.state = .erroring := by
  cases hstate : s.state with
  | writable => exact .inl rfl
  | erroring => exact .inr rfl
  | errored =>
    rcases (h.errored hstate).pending with ⟨hnil, _⟩ | ⟨p, hpending⟩
    · rw [hnil] at hop
      cases hop
    · rw [hpending] at hop
      exact absurd (mem_singleton.1 hop) (hne p)
  | closed =>
    rw [(h.closed hstate).pending] at hop
    cases hop

lemma filterMap_erase (hlive : Live plain s) (hop : op ∈ s.pending) : s.pending.filterMap SinkOp.promise? = [] := by
  rw [hlive.pending_eq hop]
  rcases hlive.op_cases hop with ⟨rfl, _⟩ | ⟨rfl, _⟩ | ⟨rfl, _⟩ <;> rfl

variable [SizeArith D]

/-! ## Starting -/

def startedWith (s : WritableStream E D) : WritableStream E D :=
  { s with pending := s.pending.erase .start, started := true }

section

omit [SizeArith D]

lemma live_started (hlive : Live plain s) (hop : .start ∈ s.pending) (hstarted : s.started = false) :
    Live plain s.startedWith := by
  have hflags := hlive.notStarted hstarted
  refine ⟨?_, fun hfalse => absurd hfalse Bool.false_ne_true.symm, hlive.exclusive, hlive.slot,
    hlive.someRequests, hlive.head, hlive.closing, hlive.requests, hlive.plainClosing,
    hlive.abortFlag, hlive.noAbort⟩
  show s.pending.erase .start = _
  rw [hlive.pending_erase hop, opsInFlight, if_neg (by exact Bool.false_ne_true.symm),
    if_neg (by show ¬ s.haveInFlightWriteRequest = true; rw [hflags.1]; decide),
    if_neg (by show ¬ s.haveInFlightCloseRequest = true; rw [hflags.2]; decide)]

lemma promises_started (h : Inv plain conv s) (hlive : Live plain s) (hop : .start ∈ s.pending) :
    Promises s.settled s.startedWith.openPromises s.nextPromise := by
  refine h.promises.of_count fun p => ?_
  have herase := hlive.pending_erase hop
  rw [count_openPromises, count_openPromises, filterMap_erase hlive hop]
  show _ + (_ + ((s.pending.erase .start).filterMap SinkOp.promise?).count p) = _
  rw [herase]
  rfl

lemma inv_started (h : Inv plain conv s) (hstate : s.state = .writable) (hop : .start ∈ s.pending)
    (hstarted : s.started = false) : Inv plain conv s.startedWith := by
  have hw := h.writable hstate
  exact Inv.of_writable hstate h.chain (promises_started h hw.toLive hop) h.calls h.converting
    { live_started hw.toLive hop hstarted with
      aligned := hw.aligned
      storedError := hw.storedError
      noAbortRequest := hw.noAbortRequest
      convert := hw.convert
      noClose := hw.noClose
      closeQueued := hw.closeQueued
      accepted := hw.accepted
      received := hw.received
      notClosed := hw.notClosed
      method := hw.method }

lemma finishing_started (h : Inv plain conv s) (hstate : s.state = .erroring) (hop : .start ∈ s.pending)
    (hstarted : s.started = false) : Finishing plain conv s.startedWith := by
  have hlive := (h.erroring hstate).toLive
  exact ⟨hstate, h.chain, promises_started h hlive hop, h.calls, h.converting, rfl,
    hlive.someRequests, (hlive.notStarted hstarted).1, (hlive.notStarted hstarted).2, hlive.pending_erase hop,
    hlive.noAbort⟩

end

lemma startSettled_spec (h : Inv plain conv s) (hop : .start ∈ s.pending) (outcome : Except (Option E) Unit) :
    ∃ s', react .start outcome (s.reacting .start) = some s' ∧ Inv plain conv s' := by
  have hstate := h.live_of_op hop fun p hp => nomatch hp
  have hstarted : s.started = false := by
    rcases (h.live hstate).op_cases hop with ⟨_, hs⟩ | ⟨hs, _⟩ | ⟨hs, _⟩
    · exact hs
    · cases hs
    · cases hs
  cases outcome with
  | ok _ =>
    show ∃ s', startHandler (s.reacting .start) = some s' ∧ Inv plain conv s'
    unfold startHandler
    show ∃ s', (MOZ_ASSERT (s.state = .writable ∨ s.state = .erroring) >>= _) = some s' ∧ Inv plain conv s'
    rw [assert_bind hstate]
    show ∃ s', s.startedWith.advanceQueueIfNeeded = some s' ∧ Inv plain conv s'
    rcases hstate with hstate | hstate
    · exact advance_writable (inv_started h hstate hop hstarted) hstate
    · exact advance_finishing (finishing_started h hstate hop hstarted) rfl
  | error r =>
    show ∃ s', startFailedHandler r (s.reacting .start) = some s' ∧ Inv plain conv s'
    unfold startFailedHandler
    show ∃ s', (MOZ_ASSERT (s.state = .writable ∨ s.state = .erroring) >>= _) = some s' ∧ Inv plain conv s'
    rw [assert_bind hstate]
    exact dealWithRejection_spec (s := s.startedWith)
      (fun hw => (inv_started h hw hop hstarted).starting hw)
      (fun he => finishing_started h he hop hstarted) hstate r

/-! ## Writing -/

def writeSettled (chunk : ℕ) (requests : List ℕ) (s : WritableStream E D) : WritableStream E D :=
  { s with
    pending := s.pending.erase .write
    settled := s.settled ++ [chunk]
    writeRequests := some requests
    haveInFlightWriteRequest := false }

omit [SizeArith D] in
lemma settleInFlightWriteRequest_eq (hwrite : s.haveInFlightWriteRequest = true) {chunk : ℕ}
    {requests : List ℕ} (hrequests : s.writeRequests = some (chunk :: requests)) :
    settleInFlightWriteRequest (s.reacting .write) = some (chunk, s.writeSettled chunk requests) := by
  unfold settleInFlightWriteRequest
  show (MOZ_ASSERT (s.haveInFlightWriteRequest = true) >>= _) = _
  rw [assert_bind hwrite]
  show (s.writeRequests >>= _) = _
  rw [hrequests]
  rfl

omit [SizeArith D] in
lemma promises_writeSettled (h : Inv plain conv s) (hlive : Live plain s) (hop : .write ∈ s.pending) {chunk : ℕ}
    {requests : List ℕ} (hrequests : s.writeRequests = some (chunk :: requests)) :
    Promises (s.settled ++ [chunk]) (s.writeSettled chunk requests).openPromises s.nextPromise := by
  refine h.promises.of_count fun p => ?_
  have herase := hlive.pending_erase hop
  rw [count_openPromises, count_openPromises, filterMap_erase hlive hop, hrequests, count_append]
  show _ + (requests.count p + s.closeRequestSlot.toList.count p + (s.pendingAbortRequest.map Prod.fst).toList.count p +
      ((s.pending.erase .write).filterMap SinkOp.promise?).count p) =
    _ + ((chunk :: requests).count p + _ + _ + _)
  have hcons : (chunk :: requests).count p = [chunk].count p + requests.count p := @count_append _ _ _ [chunk] requests
  rw [herase, hcons, filterMap_nil, count_nil]
  omega

/-- The stream when the first write has been noted as finished. -/
def writeNoted (chunk : ℕ) (requests : List ℕ) (s : WritableStream E D) : WritableStream E D :=
  { s.writeSettled chunk requests with finished := s.finished ++ [chunk] }

/-- The stream when the record of the first write is gone. -/
def writeFinished (chunk : ℕ) (requests : List ℕ) (rest : List (QueueRecord D)) (total : D)
    (s : WritableStream E D) : WritableStream E D :=
  { s.writeNoted chunk requests with queue := rest, queueTotalSize := total }

section

omit [SizeArith D]

lemma inv_writeFinished (h : Inv plain conv s) (hstate : s.state = .writable) (hop : .write ∈ s.pending)
    (hstarted : s.started = true) (hwrite : s.haveInFlightWriteRequest = true)
    (hconverting : s.converting = []) {chunk : ℕ} {size : D} {rest : List (QueueRecord D)}
    (hqueue : s.queue = .write chunk size :: rest) (total : D) :
    Inv plain conv (s.writeFinished chunk (writeIds rest) rest total) := by
  have hw := h.writable hstate
  have hflag := hw.exclusive hwrite
  have hrequests : s.writeRequests = some (chunk :: writeIds rest) := by
    rw [hw.aligned, hqueue, hconverting]
    exact congrArg some (append_nil _)
  have hmem : ∀ r ∈ rest, r ∈ s.queue := fun r hr => by
    simp [hqueue, hr]
  refine Inv.of_writable hstate h.chain (promises_writeSettled h hw.toLive hop hrequests) h.calls
    h.converting ?_
  exact
    { hw with
      pending := by
        show s.pending.erase .write = opsInFlight _
        rw [hw.pending_erase hop, opsInFlight]
        simp [writeFinished, writeNoted, writeSettled, hstarted, hflag]
      notStarted := fun hfalse => absurd (hfalse.symm.trans hstarted) Bool.false_ne_true
      exclusive := fun hfalse => absurd hfalse Bool.false_ne_true
      head := fun hfalse => absurd hfalse Bool.false_ne_true
      someRequests := ⟨_, rfl⟩
      closing := fun hclosing => absurd (hflag.symm.trans hclosing) Bool.false_ne_true
      requests := fun _ => ⟨[], congrArg some (append_nil _).symm, Nat.zero_le _, fun hne => absurd hconverting hne⟩
      plainClosing := fun _ hclosing => absurd (hflag.symm.trans hclosing) Bool.false_ne_true
      aligned := by
        show some (writeIds rest) = some (writeIds rest ++ s.converting.reverse)
        simp [hconverting]
      noClose := fun hnone r hr => hw.noClose hnone r (hmem r hr)
      closeQueued := fun hsome hfalse => by
        obtain ⟨writes, size', heq, hwrites⟩ := hw.closeQueued hsome hfalse
        rw [hqueue] at heq
        cases writes with
        | nil => cases (List.cons.inj heq).1
        | cons r writes =>
          exact ⟨writes, size', (List.cons.inj heq).2, fun r hr => hwrites r (mem_cons_of_mem _ hr)⟩
      accepted := by
        show s.accepted = (s.finished ++ [chunk]) ++ writeIds rest
        rw [hw.accepted, hqueue, append_assoc]
        rfl
      received := by
        refine hw.received.trans ?_
        show _ = if s.sink.write = true then (s.finished ++ [chunk]) ++
          (if false = true then (writeIds rest).take 1 else []) else []
        rw [hwrite, if_pos rfl, hqueue, writeIds_write, if_neg Bool.false_ne_true, append_nil]
        rfl }

lemma finishing_writeSettled (h : Inv plain conv s) (hstate : s.state = .erroring) (hop : .write ∈ s.pending)
    (hstarted : s.started = true) (hwrite : s.haveInFlightWriteRequest = true) {chunk : ℕ}
    {requests : List ℕ} (hrequests : s.writeRequests = some (chunk :: requests)) :
    Finishing plain conv (s.writeSettled chunk requests) :=
  have hlive := (h.erroring hstate).toLive
  ⟨hstate, h.chain, promises_writeSettled h hlive hop hrequests, h.calls, h.converting, hstarted, ⟨_, rfl⟩,
    rfl, hlive.exclusive hwrite, hlive.pending_erase hop, hlive.noAbort⟩

/-- What `dealWithRejection` needs of a writable stream whose write has failed: the record of the write
is still in the queue, but nothing is in flight. -/
lemma starting_writeSettled (h : Inv plain conv s) (hstate : s.state = .writable) (hop : .write ∈ s.pending)
    (hstarted : s.started = true) (hwrite : s.haveInFlightWriteRequest = true) {chunk : ℕ}
    {requests : List ℕ} (hrequests : s.writeRequests = some (chunk :: requests)) :
    Starting plain conv (s.clearAlgorithms.writeSettled chunk requests) := by
  have hs := h.starting hstate
  have hlive := (h.writable hstate).toLive
  have hidle : (s.clearAlgorithms.writeSettled chunk requests).hasOperationMarkedInFlight = false := by
    show (false || s.haveInFlightCloseRequest) = false
    rw [hlive.exclusive hwrite]
    rfl
  exact ⟨hstate, hs.chain, promises_writeSettled h hlive hop hrequests, hs.calls, hs.converting,
    hs.storedError, ⟨_, rfl⟩, hs.noAbort, fun _ _ => hlive.pending_erase hop,
    fun hbusy => absurd ⟨hidle, hstarted⟩ hbusy⟩

end

lemma writeSettled_spec (h : Inv plain conv s) (hop : .write ∈ s.pending) (hconverting : s.converting = [])
    (outcome : Except (Option E) Unit) :
    ∃ s', react .write outcome (s.reacting .write) = some s' ∧ Inv plain conv s' := by
  have hstate := h.live_of_op hop fun p hp => nomatch hp
  have hlive := h.live hstate
  obtain ⟨hstarted, hwrite⟩ : s.started = true ∧ s.haveInFlightWriteRequest = true := by
    rcases hlive.op_cases hop with ⟨hs, _⟩ | ⟨_, hs⟩ | ⟨hs, _⟩
    · cases hs
    · exact hs
    · cases hs
  obtain ⟨chunk, size, rest, requests, hqueue, hrequests⟩ := hlive.head hwrite
  cases outcome with
  | ok _ =>
    obtain ⟨total, hdequeue⟩ := @dequeueValue_eq E D (s.writeNoted chunk requests) _
      _ _ hqueue
    show ∃ s', writeHandler (s.reacting .write) = some s' ∧ Inv plain conv s'
    rw [writeHandler, settleInFlightWriteRequest_eq hwrite hrequests]
    show ∃ s', (MOZ_ASSERT (s.state = .writable ∨ s.state = .erroring) >>= _) = some s' ∧ Inv plain conv s'
    rw [assert_bind hstate]
    show ∃ s', (dequeueValue (s.writeNoted chunk requests) >>= _) = some s' ∧ Inv plain conv s'
    rw [hdequeue]
    show ∃ s', (updateBackpressureIfNeeded (s.writeFinished chunk requests rest total)
      >>= advanceQueueIfNeeded) = some s' ∧ Inv plain conv s'
    obtain ⟨w, b, hback⟩ := @updateBackpressureIfNeeded_eq E D
      (s.writeFinished chunk requests rest total) _ hlive.slot
    rw [hback]
    rcases hstate with hstate | hstate
    · obtain rfl : requests = writeIds rest := by
        have haligned := (h.writable hstate).aligned
        rw [hrequests, hqueue, writeIds_write, hconverting] at haligned
        rw [(List.cons.inj (Option.some.inj haligned)).2]
        exact append_nil _
      exact advance_writable
        ((inv_writeFinished h hstate hop hstarted hwrite hconverting hqueue total).writer w b) hstate
    · have hs := finishing_writeSettled h hstate hop hstarted hwrite hrequests
      exact advance_finishing ⟨hs.state, hs.chain, hs.promises, hs.calls, hs.converting, hs.started,
        hs.requests, hs.noWrite, hs.noClose, hs.pending, hs.noAbort⟩ hstarted
  | error r =>
    show ∃ s', writeFailedHandler r (s.reacting .write) = some s' ∧ Inv plain conv s'
    rcases hstate with hw | he
    · have hsettle := @settleInFlightWriteRequest_eq E D s.clearAlgorithms hwrite _ _ hrequests
      have hw' : (s.reacting .write).state = .writable := hw
      simp only [writeFailedHandler, if_pos hw']
      show ∃ s', (settleInFlightWriteRequest (s.clearAlgorithms.reacting .write) >>= _) = some s' ∧ Inv plain conv s'
      rw [hsettle]
      show ∃ s', (MOZ_ASSERT (s.state = .writable ∨ s.state = .erroring) >>= _) = some s' ∧ Inv plain conv s'
      rw [assert_bind (.inl hw)]
      exact dealWithRejection_spec
        (s := s.clearAlgorithms.writeSettled chunk requests)
        (fun _ => starting_writeSettled h hw hop hstarted hwrite hrequests)
        (fun he => WritableState.noConfusion (hw.symm.trans he)) (.inl hw) r
    · have hnot : ¬ (s.reacting .write).state = .writable :=
        fun hw => WritableState.noConfusion (hw.symm.trans he)
      simp only [writeFailedHandler, if_neg hnot]
      rw [settleInFlightWriteRequest_eq hwrite hrequests]
      show ∃ s', (MOZ_ASSERT (s.state = .writable ∨ s.state = .erroring) >>= _) = some s' ∧ Inv plain conv s'
      rw [assert_bind (.inr he)]
      exact dealWithRejection_spec (s := s.writeSettled chunk requests)
        (fun hw => absurd hw hnot) (fun _ => finishing_writeSettled h he hop hstarted hwrite hrequests) (.inr he) r

/-! ## Closing -/

omit [SizeArith D] in
lemma settlePendingAbortRequest_eq : s.settlePendingAbortRequest = { s with
    settled := s.settled ++ (s.pendingAbortRequest.map Prod.fst).toList
    pendingAbortRequest := none } := by
  unfold settlePendingAbortRequest
  cases hrequest : s.pendingAbortRequest with
  | none =>
    show s = { s with settled := s.settled ++ [], pendingAbortRequest := none }
    rw [append_nil, ← hrequest]
  | some r => rfl

omit [SizeArith D] in
lemma stateChange_closed (hstate : s.state = .writable ∨ s.state = .erroring) : StateChange s.state .closed := by
  rcases hstate with hstate | hstate <;> rw [hstate]
  · exact .inl rfl
  · exact .inr rfl

def closeSettled (p : ℕ) (s : WritableStream E D) : WritableStream E D :=
  { s with
    pending := s.pending.erase .close
    settled := s.settled ++ [p]
    haveInFlightCloseRequest := false
    closeRequestSlot := none }

/-- The stream with no request left and no error, just before it is closed. -/
def closing (p : ℕ) (s : WritableStream E D) : WritableStream E D :=
  { s with
    pending := s.pending.erase .close
    settled := (s.settled ++ [p]) ++ (s.pendingAbortRequest.map Prod.fst).toList
    haveInFlightCloseRequest := false
    closeRequestSlot := none
    pendingAbortRequest := none
    storedError := none }

def closedWith (p : ℕ) (s : WritableStream E D) : WritableStream E D :=
  resolveClosedPromise { s.closing p with state := .closed, states := s.states ++ [.closed] }

section

omit [SizeArith D]

lemma settleInFlightCloseRequest_eq (hclose : s.haveInFlightCloseRequest = true) {p : ℕ}
    (hslot : s.closeRequestSlot = some p) :
    (s.reacting .close).settleInFlightCloseRequest = some (s.closeSettled p) := by
  have hnone : ¬ s.closeRequestSlot.isNone = true := by
    simp [hslot]
  have hrequest : (s.reacting .close).inFlightCloseRequest = some (some p) := by
    unfold inFlightCloseRequest assertCloseRequestSlot
    show (MOZ_ASSERT (s.closeRequestSlot.isNone = true → s.haveInFlightCloseRequest = false) >>= fun _ =>
      some (if s.haveInFlightCloseRequest then s.closeRequestSlot else none)) = _
    rw [assert_bind fun h => absurd h hnone, if_pos hclose, hslot]
  unfold settleInFlightCloseRequest
  show (MOZ_ASSERT (s.haveInFlightCloseRequest = true) >>= _) = _
  rw [assert_bind hclose, hrequest]
  rfl

lemma promises_closeSettled (h : Inv plain conv s) (hlive : Live plain s) (hop : .close ∈ s.pending) {p : ℕ}
    (hslot : s.closeRequestSlot = some p) :
    Promises (s.closeSettled p).settlePendingAbortRequest.settled
      (s.closeSettled p).settlePendingAbortRequest.openPromises s.nextPromise := by
  refine h.promises.of_count fun q => ?_
  have herase := hlive.pending_erase hop
  rw [settlePendingAbortRequest_eq, count_openPromises, count_openPromises, filterMap_erase hlive hop, hslot]
  show ((s.settled ++ [p]) ++ (s.pendingAbortRequest.map Prod.fst).toList).count q +
      ((s.writeRequests.getD []).count q + ([] : List ℕ).count q + ([] : List ℕ).count q +
        ((s.pending.erase .close).filterMap SinkOp.promise?).count q) =
    _ + (_ + [p].count q + _ + _)
  rw [herase, filterMap_nil, count_append, count_append, count_nil]
  omega

lemma inv_closed (h : Inv plain conv s) (hstate : s.state = .writable ∨ s.state = .erroring)
    (hop : .close ∈ s.pending) (hclose : s.haveInFlightCloseRequest = true)
    (hwrite : s.haveInFlightWriteRequest = false) (hconverting : s.converting = []) {p : ℕ}
    (hslot : s.closeRequestSlot = some p) : Inv plain conv (s.closedWith p) := by
  have hlive := h.live hstate
  have hpromises := promises_closeSettled h hlive hop hslot
  rw [settlePendingAbortRequest_eq] at hpromises
  exact
    { h with
      chain := h.chain.snoc (stateChange_closed hstate)
      promises := hpromises
      writable := fun hw => WritableState.noConfusion hw
      erroring := fun he => WritableState.noConfusion he
      errored := fun he => WritableState.noConfusion he
      closed := fun _ => ⟨fun hp => (hlive.plainClosing hp hclose).1, hlive.closing hclose, hwrite,
        rfl, rfl, rfl, hlive.pending_erase hop, hconverting, hlive.noAbort⟩ }

lemma closeHandler_eq (hstate : s.state = .writable ∨ s.state = .erroring)
    (hclose : s.haveInFlightCloseRequest = true) {p : ℕ} (hslot : s.closeRequestSlot = some p)
    (hwritable : s.state = .writable → s.pendingAbortRequest = none ∧ s.storedError = none) :
    (s.reacting .close).closeHandler = some (s.closedWith p) := by
  unfold closeHandler
  rw [settleInFlightCloseRequest_eq hclose hslot]
  show (MOZ_ASSERT (s.state = .writable ∨ s.state = .erroring) >>= fun _ => setState .closed
    (if s.state = .erroring then
      settlePendingAbortRequest { s.closeSettled p with storedError := none } else s.closeSettled p)
    >>= fun s => MOZ_ASSERT (s.resolveClosedPromise.pendingAbortRequest.isNone = true) >>= fun _ =>
      MOZ_ASSERT (s.resolveClosedPromise.storedError.isNone = true) >>= fun _ =>
      some s.resolveClosedPromise) = _
  have hsettled : (if s.state = .erroring then settlePendingAbortRequest { s.closeSettled p with
      storedError := none } else s.closeSettled p) = s.closing p := by
    split_ifs with he
    · rw [settlePendingAbortRequest_eq]
      rfl
    · obtain ⟨hnone, herror⟩ := hwritable (hstate.resolve_right he)
      rw [closing, closeSettled, hnone, herror]
      exact congrArg (fun settled => { s.closeSettled p with
        settled := settled, pendingAbortRequest := none, storedError := none })
        (append_nil _).symm
  have hchange : StateChange (s.closing p).state .closed := stateChange_closed hstate
  rw [assert_bind hstate, hsettled, setState_bind hchange]
  rfl

end

lemma closeSettled_spec (h : Inv plain conv s) (hop : .close ∈ s.pending) (hconverting : s.converting = [])
    (outcome : Except (Option E) Unit) :
    ∃ s', react .close outcome (s.reacting .close) = some s' ∧ Inv plain conv s' := by
  have hstate := h.live_of_op hop fun p hp => nomatch hp
  have hlive := h.live hstate
  obtain ⟨hstarted, hwrite, hclose⟩ : s.started = true ∧ s.haveInFlightWriteRequest = false ∧
      s.haveInFlightCloseRequest = true := by
    rcases hlive.op_cases hop with ⟨hs, _⟩ | ⟨hs, _⟩ | ⟨_, hs⟩
    · cases hs
    · cases hs
    · exact hs
  obtain ⟨p, hslot⟩ : ∃ p, s.closeRequestSlot = some p := by
    rw [← Option.ne_none_iff_exists']
    exact fun hnone => absurd ((hlive.slot hnone).symm.trans hclose) Bool.false_ne_true
  cases outcome with
  | ok _ => exact ⟨_, closeHandler_eq hstate hclose hslot fun hw =>
      ⟨(h.writable hw).noAbortRequest, (h.writable hw).storedError⟩,
      inv_closed h hstate hop hclose hwrite hconverting hslot⟩
  | error r =>
    have hpromises := promises_closeSettled h hlive hop hslot
    show ∃ s', closeFailedHandler r (s.reacting .close) = some s' ∧ Inv plain conv s'
    unfold closeFailedHandler
    rw [settleInFlightCloseRequest_eq hclose hslot]
    show ∃ s', (MOZ_ASSERT (s.state = .writable ∨ s.state = .erroring) >>= fun _ =>
      (s.closeSettled p).settlePendingAbortRequest.dealWithRejection r) = some s' ∧ Inv plain conv s'
    rw [assert_bind hstate]
    have hsettle := @settlePendingAbortRequest_eq E D (s.closeSettled p)
    rw [hsettle] at hpromises
    refine dealWithRejection_spec (s := (s.closeSettled p).settlePendingAbortRequest)
      (fun hw => ?_) (fun he => ?_) (by rw [hsettle]; exact hstate) r
    · rw [hsettle] at hw ⊢
      have hs := h.starting hw
      have hidle : (s.closeSettled p).hasOperationMarkedInFlight = false := by
        show (s.haveInFlightWriteRequest || false) = false
        rw [hwrite]
        rfl
      exact ⟨hw, hs.chain, hpromises, hs.calls, hs.converting, hs.storedError, hs.requests,
        hs.noAbort, fun _ _ => hlive.pending_erase hop, fun hbusy => absurd ⟨hidle, hstarted⟩ hbusy⟩
    · rw [hsettle] at he ⊢
      exact ⟨he, h.chain, hpromises, h.calls, h.converting, hstarted, hlive.someRequests, hwrite, rfl,
        hlive.pending_erase hop, hlive.noAbort⟩

/-! ## Aborting -/

lemma abortSettled_spec (h : Inv plain conv s) {p : ℕ} (hop : .abort p ∈ s.pending) (outcome : Except (Option E) Unit) :
    ∃ s', react (.abort p) outcome (s.reacting (.abort p)) = some s' ∧ Inv plain conv s' := by
  have hstate : s.state = .errored := by
    cases hs : s.state with
    | writable => rcases (h.live (.inl hs)).op_cases hop with ⟨hp, _⟩ | ⟨hp, _⟩ | ⟨hp, _⟩ <;> cases hp
    | erroring => rcases (h.live (.inr hs)).op_cases hop with ⟨hp, _⟩ | ⟨hp, _⟩ | ⟨hp, _⟩ <;> cases hp
    | errored => rfl
    | closed =>
      rw [(h.closed hs).pending] at hop
      cases hop
  have hs := h.errored hstate
  have hpending : s.pending = [.abort p] := by
    rcases hs.pending with ⟨hnil, _⟩ | ⟨p', hpending⟩
    · rw [hnil] at hop
      cases hop
    · rw [hpending] at hop
      rw [hpending, mem_singleton.1 hop]
  have herase : s.pending.erase (.abort p) = [] := by
    simp [hpending]
  show ∃ s', ((s.reacting (.abort p)).settle p).rejectCloseAndClosedPromiseIfNeeded = some s' ∧ Inv plain conv s'
  refine ⟨_, rejectClose_eq hstate hs.noClose, Inv.of_errored hstate h.chain ?_ h.calls h.converting
    ⟨hs.started, hs.noRequests, hs.queue, hs.noWrite, hs.noClose, hs.noAbortRequest, .inl ⟨herase, rfl⟩⟩⟩
  refine h.promises.of_count fun q => ?_
  rw [count_openPromises, count_openPromises, hpending]
  show ((s.settled ++ [p]) ++ s.closeRequestSlot.toList).count q +
      ((s.writeRequests.getD []).count q + ([] : List ℕ).count q + (s.pendingAbortRequest.map Prod.fst).toList.count q +
        ((s.pending.erase (.abort p)).filterMap SinkOp.promise?).count q) =
    _ + (_ + _ + _ + [p].count q)
  rw [herase, filterMap_nil, count_append, count_append, count_nil]
  omega

end WritableStream

end SpiderMonkey
