import SpiderMonkey.Builtin.WritableErroring

/-!
# The operations of a writable stream keep its invariant

No assertion fails, and what holds before an event holds after it.
-/

namespace SpiderMonkey

open List

namespace WritableStream

open WritableState

variable {E D : Type} {s : WritableStream E D} {plain : Prop} {conv : List ℕ}

/-! ## Building the invariant -/

lemma Inv.of_writable (hstate : s.state = .writable) (hchain : Chain s.states s.state)
    (hpromises : Promises s.settled s.openPromises s.nextPromise) (hcalls : Calls s.calls s.accepted)
    (hconverting : plain → s.converting = conv) (hwritable : Writable plain s) : Inv plain conv s where
  chain := hchain
  promises := hpromises
  calls := hcalls
  converting := hconverting
  writable _ := hwritable
  erroring h := noConfusion (hstate.symm.trans h)
  errored h := noConfusion (hstate.symm.trans h)
  closed h := noConfusion (hstate.symm.trans h)

lemma Inv.of_erroring (hstate : s.state = .erroring) (hchain : Chain s.states s.state)
    (hpromises : Promises s.settled s.openPromises s.nextPromise) (hcalls : Calls s.calls s.accepted)
    (hconverting : plain → s.converting = conv) (herroring : Erroring plain s) : Inv plain conv s where
  chain := hchain
  promises := hpromises
  calls := hcalls
  converting := hconverting
  writable h := noConfusion (hstate.symm.trans h)
  erroring _ := herroring
  errored h := noConfusion (hstate.symm.trans h)
  closed h := noConfusion (hstate.symm.trans h)

lemma Inv.live (h : Inv plain conv s) (hstate : s.state = .writable ∨ s.state = .erroring) : Live plain s :=
  hstate.elim (fun hw => (h.writable hw).toLive) fun he => (h.erroring he).toLive

lemma Inv.slot (h : Inv plain conv s) : s.closeRequestSlot = none → s.haveInFlightCloseRequest = false := by
  cases hstate : s.state with
  | writable => exact (h.live (.inl hstate)).slot
  | erroring => exact (h.live (.inr hstate)).slot
  | errored => exact fun _ => (h.errored hstate).noClose
  | closed => exact fun _ => (h.closed hstate).noClose

lemma Inv.closeQueuedOrInFlight (h : Inv plain conv s) : s.closeQueuedOrInFlight = some s.closeRequestSlot.isSome :=
  closeQueuedOrInFlight_eq h.slot

lemma Inv.writer (h : Inv plain conv s) (w : Option WritableStreamDefaultWriter) (b : Bool) :
    Inv plain conv { s with writer := w, backpressure := b } where
  chain := h.chain
  promises := h.promises
  calls := h.calls
  converting := h.converting
  writable hw := { h.writable hw with }
  erroring he := { h.erroring he with }
  errored he := { h.errored he with }
  closed hc := { h.closed hc with }

lemma writeIds_append (q q' : List (QueueRecord D)) : writeIds (q ++ q') = writeIds q ++ writeIds q' := filterMap_append

lemma writeIds_write (chunk : ℕ) (size : D) (rest : List (QueueRecord D)) :
    writeIds (.write chunk size :: rest) = chunk :: writeIds rest :=
  rfl

lemma writeIds_close (size : D) (rest : List (QueueRecord D)) : writeIds (.close size :: rest) = writeIds rest := rfl

section

variable {calls : List (WritableState × SinkCall)} {st : WritableState} {c : SinkCall}
  {method : Bool}

lemma abortCalls_ite (hc : SinkCall.isAbort c = false) :
    abortCalls (if method = true then calls ++ [(st, c)] else calls) = abortCalls calls := by
  split
  · rw [abortCalls_snoc, hc]
    rfl
  · rfl

lemma closeCalls_ite (hc : SinkCall.isClose c = false) :
    closeCalls (if method = true then calls ++ [(st, c)] else calls) = closeCalls calls := by
  split
  · rw [closeCalls_snoc, hc]
    rfl
  · rfl

lemma written_ite (hc : SinkCall.chunk? c = none) :
    written (if method = true then calls ++ [(st, c)] else calls) = written calls := by
  split
  · rw [written_snoc, hc]
    simp
  · rfl

end

/-! ## Advancing the queue -/

variable [SizeArith D]

lemma updateBackpressureIfNeeded_eq (hslot : s.closeRequestSlot = none → s.haveInFlightCloseRequest = false) :
    ∃ w b, s.updateBackpressureIfNeeded = some { s with writer := w, backpressure := b } := by
  unfold updateBackpressureIfNeeded
  rw [closeQueuedOrInFlight_eq hslot]
  show ∃ w b, (if s.closeRequestSlot.isSome = false ∧ s.state = .writable then
    s.updateBackpressure s.getBackpressure else some s) = _
  split_ifs with hcond
  · unfold updateBackpressure
    rw [assert_bind hcond.2, closeQueuedOrInFlight_eq hslot]
    show ∃ w b, (MOZ_ASSERT (s.closeRequestSlot.isSome = false) >>= _) = _
    rw [assert_bind hcond.1]
    by_cases hsame : s.getBackpressure = s.backpressure
    · simp [hsame]
    · cases hb : s.getBackpressure with
      | true => exact ⟨_, _, congrArg some (by rw [if_neg (hb ▸ hsame), if_pos rfl])⟩
      | false => exact ⟨_, _, congrArg some (by
          rw [if_neg (hb ▸ hsame), if_neg Bool.false_ne_true, resolveReadyPromise])⟩
  · exact ⟨_, _, rfl⟩

lemma dequeueValue_eq {r : QueueRecord D} {rest : List (QueueRecord D)} (hqueue : s.queue = r :: rest) :
    ∃ total, s.dequeueValue = some { s with queue := rest, queueTotalSize := total } := by
  unfold dequeueValue
  simp [hqueue]

/-- The close record is the last of the queue, so that it is processed alone. -/
lemma processClose_spec (h : Inv plain conv s) (hstate : s.state = .writable) (hstarted : s.started = true)
    (hidle : s.haveInFlightWriteRequest = false) {size : D} {rest : List (QueueRecord D)}
    (hqueue : s.queue = .close size :: rest) :
    ∃ s', s.processIfNeeded = some s' ∧ Inv plain conv s' := by
  have hw := h.writable hstate
  have hslot : s.closeRequestSlot ≠ none := fun hnone => by
    have hsome := hw.noClose hnone (.close size) (by rw [hqueue]; exact mem_cons_self)
    cases hsome
  have hflag : s.haveInFlightCloseRequest = false := by
    by_contra hclosing
    have hempty := hw.closing (Bool.eq_true_of_not_eq_false hclosing)
    simp [hqueue] at hempty
  have hrest : rest = [] := by
    obtain ⟨writes, size', heq, hwrites⟩ := hw.closeQueued hslot hflag
    rw [hqueue] at heq
    cases writes with
    | nil => exact (List.cons.inj heq).2
    | cons r writes =>
      have hr := hwrites r mem_cons_self
      rw [← (List.cons.inj heq).1] at hr
      cases hr
  subst hrest
  have hfinished : s.accepted = s.finished := by
    rw [hw.accepted, hqueue]
    exact append_nil _
  have hrequests : s.writeRequests = some s.converting.reverse := by
    rw [hw.aligned, hqueue]
    rfl
  -- a plain stream that closes has no conversion under way
  have hplain : plain → s.writeRequests = some [] ∧ s.converting = [] := fun hp => by
    have hconverting : s.converting = [] := by
      by_contra hne
      exact hslot (hw.convert hp hne)
    rw [hrequests, hconverting]
    exact ⟨rfl, rfl⟩
  obtain ⟨total, hdequeue⟩ := @dequeueValue_eq E D { s with haveInFlightCloseRequest := true } _ _ _
    hqueue
  have hrun : s.processIfNeeded = some (performCloseAlgorithm { s with
      haveInFlightCloseRequest := true, queue := [], queueTotalSize := total }) := by
    unfold processIfNeeded
    rw [hqueue]
    show (MOZ_ASSERT _ >>= _) = _
    rw [assert_bind length_nil, markCloseRequestInFlight, assert_bind hflag, closeRequest_eq hflag]
    show ((MOZ_ASSERT (s.closeRequestSlot.isSome = true) >>= _) >>= _) = _
    rw [assert_bind (Option.isSome_iff_ne_none.2 hslot)]
    show (dequeueValue { s with haveInFlightCloseRequest := true } >>= _) = _
    rw [hdequeue]
    rfl
  have hcalls : Calls (if s.closeMethod = true then s.calls ++ [(s.state, SinkCall.close s.accepted s.finished)]
      else s.calls) s.accepted := by
    rw [hstate, hfinished]
    split_ifs
    · exact (hfinished ▸ h.calls).snoc_close (hw.notClosed hflag)
    · exact hfinished ▸ h.calls
  have hpending : s.pending = [] := hw.toLive.hasOperation_idle
    (by rw [hasOperationMarkedInFlight, hidle, hflag]; rfl) hstarted
  have hpromises : ∀ p, (openPromises (performCloseAlgorithm { s with
      haveInFlightCloseRequest := true, queue := [], queueTotalSize := total })).count p =
      s.openPromises.count p := fun p => by
    rw [count_openPromises, count_openPromises, hpending]
    show _ + (([] ++ [SinkOp.close]).filterMap SinkOp.promise?).count p = _
    rfl
  refine ⟨_, hrun, Inv.of_writable hstate h.chain
    (h.promises.of_count fun p => by rw [hpromises p]; rfl) hcalls h.converting ?_⟩
  exact
    { hw with
      pending := by
        show s.pending ++ [SinkOp.close] = _
        rw [hpending, opsInFlight]
        simp [performCloseAlgorithm, hstarted, hidle]
      notStarted := fun hfalse => absurd (hfalse.symm.trans hstarted) Bool.false_ne_true
      exclusive := fun hwrite => absurd (hidle.symm.trans hwrite) Bool.false_ne_true
      slot := fun hnone => absurd hnone hslot
      someRequests := ⟨_, hrequests⟩
      head := fun hwrite => absurd (hidle.symm.trans hwrite) Bool.false_ne_true
      closing := fun _ => rfl
      requests := fun hp => ⟨[], (hplain hp).1, Nat.zero_le _, fun hne => absurd (hplain hp).2 hne⟩
      plainClosing := fun hp _ => hplain hp
      noAbort := (abortCalls_ite rfl).trans hw.noAbort
      aligned := hrequests
      convert := fun hp hne => absurd (hplain hp).2 hne
      noClose := fun hnone => absurd hnone hslot
      closeQueued := fun _ hfalse => absurd hfalse Bool.false_ne_true.symm
      accepted := hfinished.trans (append_nil _).symm
      received := by
        refine (written_ite rfl).trans (hw.received.trans ?_)
        rw [hidle, if_neg Bool.false_ne_true]
        rfl
      notClosed := fun hfalse => absurd hfalse Bool.false_ne_true.symm }

omit [SizeArith D] in
lemma requests_bind {α : Type} {requests : Option (List ℕ)} {p : ℕ} {rest : List ℕ}
    (h : requests = some (p :: rest)) (x : α) :
    (requests >>= fun requests => MOZ_ASSERT (requests.length > 0) >>= fun _ => some x) = some x := by
  subst h
  simpa using assert_bind (Nat.succ_pos rest.length) _

omit [SizeArith D] in
lemma markFirstWriteRequestInFlight_eq {p : ℕ} {rest : List ℕ}
    (hidle : s.haveInFlightWriteRequest = false) (h : s.writeRequests = some (p :: rest)) :
    s.markFirstWriteRequestInFlight = some { s with haveInFlightWriteRequest := true } := by
  rw [markFirstWriteRequestInFlight, assert_bind hidle]
  exact requests_bind h _

lemma processIfNeeded_write {chunk : ℕ} {size : D} {rest : List (QueueRecord D)}
    (hqueue : s.queue = .write chunk size :: rest) : s.processIfNeeded =
      (s.markFirstWriteRequestInFlight >>= fun s => some (s.performWriteAlgorithm chunk)) := by
  unfold processIfNeeded
  rw [hqueue]

/-- The first record is that of the first request. -/
lemma processWrite_spec (h : Inv plain conv s) (hstate : s.state = .writable) (hstarted : s.started = true)
    (hidle : s.haveInFlightWriteRequest = false) {chunk : ℕ} {size : D} {rest : List (QueueRecord D)}
    (hqueue : s.queue = .write chunk size :: rest) :
    ∃ s', s.processIfNeeded = some s' ∧ Inv plain conv s' := by
  have hw := h.writable hstate
  have hflag : s.haveInFlightCloseRequest = false := by
    by_contra hclosing
    have hempty := hw.closing (Bool.eq_true_of_not_eq_false hclosing)
    simp [hqueue] at hempty
  have hrequests : s.writeRequests = some (chunk :: (writeIds rest ++ s.converting.reverse)) := by
    rw [hw.aligned, hqueue]
    rfl
  have hrun : s.processIfNeeded = some (performWriteAlgorithm chunk { s with
      haveInFlightWriteRequest := true }) := by
    rw [processIfNeeded_write hqueue, markFirstWriteRequestInFlight_eq hidle hrequests]
    rfl
  have hpending : s.pending = [] := hw.toLive.hasOperation_idle
    (by rw [hasOperationMarkedInFlight, hidle, hflag]; rfl) hstarted
  -- everything before the first record has finished
  have hbefore : written s.calls = if s.sink.write = true then s.finished else [] := by
    simp [hw.received, hidle]
  have hreceived : written (if s.writeMethod = true then s.calls ++ [(s.state, SinkCall.write chunk)]
      else s.calls) = if s.sink.write = true then s.finished ++ [chunk] else [] := by
    rw [← hw.method] at hbefore ⊢
    by_cases hmethod : s.writeMethod = true
    · rw [if_pos hmethod, if_pos hmethod, written_snoc, hbefore, if_pos hmethod]
      rfl
    · simp [hbefore, hmethod]
  have hcalls : Calls (if s.writeMethod = true then s.calls ++ [(s.state, SinkCall.write chunk)]
      else s.calls) s.accepted := by
    split_ifs with hmethod
    · rw [hstate]
      refine h.calls.snoc_write ?_ (hw.notClosed hflag)
      simp [hbefore, ← hw.method, hmethod, hw.accepted, hqueue, writeIds_write]
    · exact h.calls
  have hpromises : ∀ p, (openPromises (performWriteAlgorithm chunk { s with
      haveInFlightWriteRequest := true })).count p = s.openPromises.count p := fun p => by
    rw [count_openPromises, count_openPromises, hpending]
    show _ + (([] ++ [SinkOp.write]).filterMap SinkOp.promise?).count p = _
    rfl
  refine ⟨_, hrun, Inv.of_writable hstate h.chain
    (h.promises.of_count fun p => by rw [hpromises p]; rfl) hcalls h.converting ?_⟩
  exact
    { hw with
      pending := by
        show s.pending ++ [SinkOp.write] = _
        rw [hpending, opsInFlight]
        simp [performWriteAlgorithm, hstarted]
      notStarted := fun hfalse => absurd (hfalse.symm.trans hstarted) Bool.false_ne_true
      exclusive := fun _ => hflag
      head := fun _ => ⟨chunk, size, rest, _, hqueue, hrequests⟩
      closing := fun hclosing => absurd (hflag.symm.trans hclosing) Bool.false_ne_true
      plainClosing := fun _ hclosing => absurd (hflag.symm.trans hclosing) Bool.false_ne_true
      noAbort := (abortCalls_ite rfl).trans hw.noAbort
      received := by
        refine hreceived.trans ?_
        show _ = if s.sink.write = true then s.finished ++ (if true = true then
          (writeIds s.queue).take 1 else []) else []
        simp [hqueue, writeIds_write]
      notClosed := fun hfalse => (closeCalls_ite rfl).trans (hw.notClosed hfalse) }

/-- While an operation of the sink is in flight, or before the sink has started, nothing advances. -/
lemma advance_waiting (hlive : Live plain s) (hwaits : s.started = false ∨ s.haveInFlightWriteRequest = true) :
    s.advanceQueueIfNeeded = some s := by
  unfold advanceQueueIfNeeded
  by_cases hstarted : s.started = false
  · rw [if_pos hstarted]
  · have hwrite := hwaits.resolve_left hstarted
    obtain ⟨chunk, size, rest, requests, _, hrequests⟩ := hlive.head hwrite
    rw [if_neg hstarted, if_pos hwrite]
    exact requests_bind hrequests s

lemma advance_writable (h : Inv plain conv s) (hstate : s.state = .writable) :
    ∃ s', s.advanceQueueIfNeeded = some s' ∧ Inv plain conv s' := by
  have hw := h.writable hstate
  by_cases hwaits : s.started = false ∨ s.haveInFlightWriteRequest = true
  · exact ⟨s, advance_waiting hw.toLive hwaits, h⟩
  · rw [not_or] at hwaits
    have hstarted := Bool.eq_true_of_not_eq_false hwaits.1
    have hidle := Bool.eq_false_of_not_eq_true hwaits.2
    have heq : s.advanceQueueIfNeeded = s.processIfNeeded := by
      unfold advanceQueueIfNeeded
      rw [if_neg hwaits.1, if_neg hwaits.2, assert_bind (by rw [hstate]; decide),
        assert_bind (by rw [hstate]; decide), if_neg (by rw [hstate]; decide)]
    rw [heq]
    cases hqueue : s.queue with
    | nil =>
      refine ⟨s, ?_, h⟩
      unfold processIfNeeded
      rw [hqueue]
    | cons r rest =>
      cases r with
      | write chunk size => exact processWrite_spec h hstate hstarted hidle hqueue
      | close size => exact processClose_spec h hstate hstarted hidle hqueue

lemma advance_finishing (h : Finishing plain conv s) (hstarted : s.started = true) :
    ∃ s', s.advanceQueueIfNeeded = some s' ∧ Inv plain conv s' := by
  have heq : s.advanceQueueIfNeeded = s.finishErroring := by
    unfold advanceQueueIfNeeded
    rw [if_neg (by rw [hstarted]; decide), if_neg (by rw [h.noWrite]; decide),
      assert_bind (by rw [h.state]; decide), assert_bind (by rw [h.state]; decide), if_pos h.state]
  rw [heq]
  exact finishErroring_spec h

/-! ## The end of a conversion -/

omit [SizeArith D] in
/-- A record that is added leaves the record in flight the first. -/
lemma take_writeIds_append {queue : List (QueueRecord D)} {r : QueueRecord D} {inFlight : Bool}
    (hhead : inFlight = true → ∃ chunk size rest, queue = .write chunk size :: rest) :
    (if inFlight = true then (writeIds (queue ++ [r])).take 1 else []) =
      if inFlight = true then (writeIds queue).take 1 else [] := by
  by_cases hflag : inFlight = true
  · obtain ⟨chunk, size, rest, rfl⟩ := hhead hflag
    simp [writeIds_write]
  · simp [hflag]

lemma Live.head_enqueue (h : Live plain s) (r : QueueRecord D)
    (hwrite : s.haveInFlightWriteRequest = true) : ∃ chunk size rest requests,
      (enqueue r s).queue = .write chunk size :: rest ∧ s.writeRequests = some (chunk :: requests) := by
  obtain ⟨chunk, size, rest, requests, hqueue, hrequests⟩ := h.head hwrite
  have happend : s.queue ++ [r] = .write chunk size :: (rest ++ [r]) := by
    rw [hqueue]
    rfl
  exact ⟨chunk, size, _, requests, happend, hrequests⟩

/-- The stream when the size of the chunk has been converted. -/
def sized (chunk : ℕ) (size : D) (outer : List ℕ) (s : WritableStream E D) : WritableStream E D :=
  enqueue (.write chunk size) { s with converting := outer, accepted := s.accepted ++ [chunk] }

/-- The write is added with its record.  In a writable stream this needs that the request is the last,
and that no close has been requested since. -/
lemma inv_sized (h : Inv plain conv s) {chunk : ℕ} {outer : List ℕ}
    (hconverting : s.converting = chunk :: outer) (size : D)
    (hstate : s.state = .writable ∨ s.state = .erroring)
    (hflag : s.haveInFlightCloseRequest = false)
    (houter : plain → outer = [])
    (hwritable : s.state = .writable → outer = [] ∧ s.closeRequestSlot = none) :
    Inv plain [] (s.sized chunk size outer) := by
  have hlive := h.live hstate
  have hids : writeIds (s.queue ++ [QueueRecord.write chunk size]) = writeIds s.queue ++ [chunk] := writeIds_append _ _
  have hcalls : Calls s.calls (s.accepted ++ [chunk]) := h.calls.mono (prefix_append _ _)
  have hlive' : Live plain (s.sized chunk size outer) :=
    { hlive with
      head := hlive.head_enqueue _
      closing := fun hclosing => absurd (hflag.symm.trans hclosing) Bool.false_ne_true
      requests := fun hp => by
        obtain ⟨extra, hrequests, _, hconvert⟩ := hlive.requests hp
        rw [hconverting, houter hp] at hconvert
        obtain rfl := hconvert (cons_ne_nil _ _)
        refine ⟨[], ?_, Nat.zero_le _, fun hne => absurd (houter hp) hne⟩
        show s.writeRequests = some (writeIds (s.queue ++ [QueueRecord.write chunk size]) ++ [])
        rw [hrequests, hids, append_nil]
      plainClosing := fun _ hclosing => absurd (hflag.symm.trans hclosing) Bool.false_ne_true }
  rcases hstate with hstate | hstate
  · have hw := h.writable hstate
    obtain ⟨rfl, hslot⟩ := hwritable hstate
    refine Inv.of_writable hstate h.chain h.promises hcalls houter ?_
    exact
      { hlive' with
        aligned := by
          show s.writeRequests = some (writeIds (s.queue ++ [QueueRecord.write chunk size]) ++ [])
          simp [hw.aligned, hids, hconverting]
        storedError := hw.storedError
        noAbortRequest := hw.noAbortRequest
        convert := fun _ _ => hslot
        noClose := fun _ r hr => by
          rcases mem_append.1 hr with hr | hr
          · exact hw.noClose hslot r hr
          · rw [mem_singleton.1 hr]
            rfl
        closeQueued := fun hsome => absurd hslot hsome
        accepted := by
          show s.accepted ++ [chunk] = s.finished ++ writeIds (s.queue ++ [QueueRecord.write chunk size])
          simp [hw.accepted, hids]
        received := by
          have hhead : s.haveInFlightWriteRequest = true →
              ∃ chunk size rest, s.queue = .write chunk size :: rest := fun hwrite => by
            obtain ⟨chunk, size, rest, _, hqueue, _⟩ := hlive.head hwrite
            simp [hqueue]
          refine hw.received.trans ?_
          rw [← take_writeIds_append hhead]
          rfl
        notClosed := hw.notClosed
        method := hw.method }
  · exact Inv.of_erroring hstate h.chain h.promises hcalls houter
      { hlive' with waits := (h.erroring hstate).waits }

omit [SizeArith D] in
lemma live_dropConversion (h : Live plain s) {chunk : ℕ} {outer : List ℕ}
    (hconverting : s.converting = chunk :: outer) (houter : plain → outer = []) :
    Live plain { s with converting := outer } where
  pending := h.pending
  notStarted := h.notStarted
  exclusive := h.exclusive
  slot := h.slot
  someRequests := h.someRequests
  head := h.head
  closing := h.closing
  requests hp := by
    obtain ⟨extra, hrequests, hextra, _⟩ := h.requests hp
    exact ⟨extra, hrequests, hextra, fun hne => absurd (houter hp) hne⟩
  plainClosing hp hclosing := by
    have hnil := (h.plainClosing hp hclosing).2
    simp [hconverting] at hnil
  abortFlag := h.abortFlag
  noAbort := h.noAbort

lemma endConversion_error (h : Inv plain conv s) {chunk : ℕ} {outer : List ℕ}
    (hconverting : s.converting = chunk :: outer) (houter : plain → outer = []) (e : Option E) :
    ∃ s', s.endConversion (.error e) = some s' ∧ Inv plain [] s' := by
  have heq : s.endConversion (.error e) = errorIfNeeded e { s with converting := outer } := by
    unfold endConversion
    rw [hconverting]
    rfl
  rw [heq]
  unfold errorIfNeeded
  split_ifs with hw
  · have hs := h.starting hw
    have hstarting : Starting plain [] { s with converting := outer } := ⟨hs.state, hs.chain,
      hs.promises, hs.calls, houter, hs.storedError, hs.requests, hs.noAbort, hs.idle,
      fun hop => live_dropConversion (hs.live hop) hconverting houter⟩
    exact controllerError_spec hstarting e
  · exact ⟨_, rfl,
      { h with
        converting := houter
        writable := fun hwritable => absurd hwritable hw
        erroring := fun he =>
          { live_dropConversion (h.erroring he).toLive hconverting houter with
            waits := (h.erroring he).waits }
        errored := fun he => by
          have hs := h.errored he
          exact ⟨hs.started, hs.noRequests, hs.queue, hs.noWrite, hs.noClose, hs.noAbortRequest, hs.pending⟩
        closed := fun hc => by
          have hnil := (h.closed hc).converting
          rw [hconverting] at hnil
          cases hnil }⟩

lemma endConversion_ok_eq {chunk : ℕ} {outer : List ℕ}
    (hconverting : s.converting = chunk :: outer) (size : D) : s.endConversion (.ok size) =
      (s.sized chunk size outer).updateBackpressureIfNeeded >>= advanceQueueIfNeeded := by
  unfold endConversion
  rw [hconverting]
  rfl

lemma endConversion_ok (h : Inv plain conv s) {chunk : ℕ} {outer : List ℕ}
    (hconverting : s.converting = chunk :: outer) (size : D)
    (hstate : s.state = .writable ∨ s.state = .erroring)
    (hflag : s.haveInFlightCloseRequest = false)
    (houter : plain → outer = [])
    (hwritable : s.state = .writable → outer = [] ∧ s.closeRequestSlot = none) :
    ∃ s', s.endConversion (.ok size) = some s' ∧ Inv plain [] s' := by
  have hinv := inv_sized h hconverting size hstate hflag houter hwritable
  obtain ⟨w, b, hback⟩ := updateBackpressureIfNeeded_eq hinv.slot
  rw [endConversion_ok_eq hconverting, hback]
  have hinv' := hinv.writer w b
  rcases hstate with hstate | hstate
  · exact advance_writable hinv' hstate
  · have he := hinv'.erroring hstate
    refine ⟨_, advance_waiting he.toLive (he.waits.imp_right fun hop => ?_), hinv'⟩
    exact hop.resolve_right fun hclosing => absurd (hflag.symm.trans hclosing) Bool.false_ne_true

/-- No conversion ends with a size in an errored stream, or in an erroring one that waits for a close:
an assertion fails. -/
lemma endConversion_fails (h : Inv plain conv s) {chunk : ℕ} {outer : List ℕ}
    (hconverting : s.converting = chunk :: outer) (size : D)
    (hstate : s.state = .errored ∨ (s.state = .erroring ∧ s.haveInFlightCloseRequest = true)) :
    s.endConversion (.ok size) = none := by
  obtain ⟨w, b, hback⟩ := @updateBackpressureIfNeeded_eq E D (s.sized chunk size outer) _ h.slot
  rw [endConversion_ok_eq hconverting, hback]
  show advanceQueueIfNeeded { s.sized chunk size outer with writer := w, backpressure := b } = none
  unfold advanceQueueIfNeeded
  rcases hstate with hstate | ⟨hstate, hclose⟩
  · have hs := h.errored hstate
    have hstarted : ¬ s.started = false := by
      simp [hs.started]
    have hidle : ¬ s.haveInFlightWriteRequest = true := by
      rw [hs.noWrite]
      exact Bool.false_ne_true
    refine (if_neg hstarted).trans ((if_neg hidle).trans ?_)
    show (MOZ_ASSERT (s.state ≠ .closed) >>= fun _ => MOZ_ASSERT (s.state ≠ .errored) >>= _) = none
    simp [MOZ_ASSERT, if_neg (not_not_intro hstate)]
  · have hlive := (h.erroring hstate).toLive
    have hstarted : ¬ s.started = false := fun hfalse =>
      absurd ((hlive.notStarted hfalse).2.symm.trans hclose) Bool.false_ne_true
    have hidle : ¬ s.haveInFlightWriteRequest = true := fun hwrite =>
      absurd ((hlive.exclusive hwrite).symm.trans hclose) Bool.false_ne_true
    refine (if_neg hstarted).trans ((if_neg hidle).trans ?_)
    show (MOZ_ASSERT (s.state ≠ .closed) >>= fun _ => MOZ_ASSERT (s.state ≠ .errored) >>= fun _ =>
      if s.state = .erroring then finishErroring _ else _) = none
    rw [assert_bind (by rw [hstate]; decide), assert_bind (by rw [hstate]; decide), if_pos hstate, finishErroring]
    show (MOZ_ASSERT (s.state = .erroring) >>= fun _ => MOZ_ASSERT
      ((s.haveInFlightWriteRequest || s.haveInFlightCloseRequest) = false) >>= _) = none
    have hop : ¬ (s.haveInFlightWriteRequest || s.haveInFlightCloseRequest) = false := by
      simp [hclose]
    simp [MOZ_ASSERT, hop]

/-- If the end of a conversion does not fail, the invariant is kept. -/
lemma endConversion_spec (h : Inv plain conv s) {size : Except (Option E) D}
    {s' : WritableStream E D} (houter : plain → s.converting.length = 1)
    (hwritable : ∀ d, size = .ok d → s.state = .writable → s.converting.length = 1 ∧ s.closeRequestSlot = none)
    (hrun : s.endConversion size = some s') : Inv plain [] s' := by
  have hne : s.converting ≠ [] := fun hnil => by
    unfold endConversion at hrun
    simp [hnil] at hrun
  obtain ⟨chunk, outer, hconverting⟩ := exists_cons_of_ne_nil hne
  have hlength : s.converting.length = 1 → outer = [] := fun hone => by
    rw [hconverting, length_cons] at hone
    exact length_eq_zero_iff.1 (Nat.succ.inj hone)
  cases size with
  | error e =>
    obtain ⟨s'', hs'', hinv⟩ := endConversion_error h hconverting (fun hp => hlength (houter hp)) e
    cases hs''.symm.trans hrun
    exact hinv
  | ok size =>
    have hfails : ¬ (s.state = .errored ∨ (s.state = .erroring ∧ s.haveInFlightCloseRequest = true)) := fun hstate => by
      simp [endConversion_fails h hconverting size hstate] at hrun
    rw [not_or, not_and] at hfails
    have hstate : s.state = .writable ∨ s.state = .erroring := by
      cases hs : s.state with
      | writable => exact .inl rfl
      | erroring => exact .inr rfl
      | errored => exact absurd hs hfails.1
      | closed => exact absurd (h.closed hs).converting hne
    have halone : s.state = .writable → outer = [] ∧ s.closeRequestSlot = none := fun hw =>
      ⟨hlength (hwritable size rfl hw).1, (hwritable size rfl hw).2⟩
    have hflag : s.haveInFlightCloseRequest = false := by
      rcases hstate with hw | he
      · exact h.slot (halone hw).2
      · exact Bool.eq_false_of_not_eq_true (hfails.2 he)
    obtain ⟨s'', hs'', hinv⟩ := endConversion_ok h hconverting size hstate hflag
      (fun hp => hlength (houter hp)) halone
    cases hs''.symm.trans hrun
    exact hinv

end WritableStream

end SpiderMonkey
