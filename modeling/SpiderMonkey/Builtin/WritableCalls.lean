import SpiderMonkey.Builtin.WritableSteps

/-!
# The calls of user code on a writable stream

What `write`, `close`, `abort`, `getWriter` and `releaseLock` do keeps the invariant.
-/

namespace SpiderMonkey

namespace WritableStream

open SizeArith

variable {E D : Type} [SizeArith D] {s : WritableStream E D} {plain : Prop} {conv : List ℕ}

/-! ## Writing -/

omit [SizeArith D] in
lemma inv_addWriteRequest (h : Inv plain conv s) (hstate : s.state = .writable) (hslot : s.closeRequestSlot = none)
    (hconverting : plain → s.converting = []) {requests : List ℕ}
    (hrequests : s.writeRequests = some requests) :
    Inv plain [s.nextPromise] { s with
      nextPromise := s.nextPromise + 1
      writeRequests := some (requests ++ [s.nextPromise])
      converting := s.nextPromise :: s.converting } := by
  have hw := h.writable hstate
  have hflag := hw.slot hslot
  have hids : requests = writeIds s.queue ++ s.converting.reverse := Option.some.inj (hrequests.symm.trans hw.aligned)
  have hadded : some (requests ++ [s.nextPromise]) =
      some (writeIds s.queue ++ (s.nextPromise :: s.converting).reverse) := by
    simp [hids]
  have halone : plain → s.nextPromise :: s.converting = [s.nextPromise] := fun hp => by
    rw [hconverting hp]
  have hpromises : Promises s.settled (openPromises { s with
      nextPromise := s.nextPromise + 1
      writeRequests := some (requests ++ [s.nextPromise])
      converting := s.nextPromise :: s.converting }) (s.nextPromise + 1) := by
    refine h.promises.new fun p => ?_
    rw [count_openPromises, count_openPromises, hrequests]
    show _ + ((requests ++ [s.nextPromise]).count p + s.closeRequestSlot.toList.count p +
        (s.pendingAbortRequest.map Prod.fst).toList.count p +
        (s.pending.filterMap SinkOp.promise?).count p) =
      _ + (requests.count p + _ + _ + _) + _
    rw [List.count_append]
    omega
  refine Inv.of_writable hstate h.chain hpromises h.calls halone ?_
  · exact
      { hw with
        someRequests := ⟨_, rfl⟩
        head := fun hwrite => by
          obtain ⟨chunk, size, rest, tail, hqueue, htail⟩ := hw.head hwrite
          have hcons : requests ++ [s.nextPromise] = chunk :: (tail ++ [s.nextPromise]) := by
            simp [Option.some.inj (hrequests.symm.trans htail)]
          exact ⟨chunk, size, rest, _, hqueue, congrArg some hcons⟩
        requests := fun hp => ⟨s.nextPromise :: s.converting, by
          show some (requests ++ [s.nextPromise]) = _
          rw [hadded, halone hp]
          rfl, by rw [halone hp]; exact le_rfl, fun _ => rfl⟩
        plainClosing := fun _ hclosing => absurd (hflag.symm.trans hclosing) Bool.false_ne_true
        aligned := hadded
        convert := fun _ _ => hslot }

omit [SizeArith D] in
lemma writerWrite_spec (h : Inv plain conv s) (hwriter : s.writer.isSome = true)
    (hconverting : plain → s.converting = []) :
    ∃ taken s', s.writerWrite = some (taken, s') ∧
      (taken = true → Inv plain [s.nextPromise] s' ∧ s.state = .writable ∧ s.closeRequestSlot = none ∧ s'.state = .writable ∧
        s'.closeRequestSlot = none ∧ s'.converting = s.nextPromise :: s.converting) ∧
      (taken = false → s' = s) := by
  unfold writerWrite
  by_cases herrored : s.state = .errored
  · simp [herrored]
  rw [if_neg herrored, h.closeQueuedOrInFlight]
  show ∃ taken s', (if s.closeRequestSlot.isSome = true ∨ s.state = .closed then some (false, s)
    else if s.state = .erroring then some (false, s) else _) = some (taken, s') ∧ _
  by_cases hclosing : s.closeRequestSlot.isSome = true ∨ s.state = .closed
  · simp [hclosing]
  rw [if_neg hclosing]
  by_cases herroring : s.state = .erroring
  · simp [herroring]
  rw [if_neg herroring]
  have hstate : s.state = .writable := by
    cases hs : s.state with
    | writable => rfl
    | erroring => exact absurd hs herroring
    | errored => exact absurd hs herrored
    | closed => exact absurd (.inr hs) hclosing
  have hslot : s.closeRequestSlot = none := by
    cases hs : s.closeRequestSlot with
    | none => rfl
    | some p => exact absurd (.inl (congrArg Option.isSome hs)) hclosing
  have hrequests := (h.writable hstate).aligned
  have hadd : s.addWriteRequest = some { s with
      nextPromise := s.nextPromise + 1
      writeRequests := some (writeIds s.queue ++ s.converting.reverse ++ [s.nextPromise])
      converting := s.nextPromise :: s.converting } := by
    rw [addWriteRequest, assert_bind hwriter, assert_bind hstate, hrequests]
    rfl
  rw [assert_bind hstate, hadd]
  exact ⟨true, _, rfl, fun _ => ⟨inv_addWriteRequest h hstate hslot hconverting hrequests,
    hstate, hslot, hstate, hslot, rfl⟩, fun hfalse => absurd hfalse.symm Bool.false_ne_true⟩

/-! ## Closing -/

def closeRecorded (s : WritableStream E D) : WritableStream E D :=
  enqueue (.close zero) { s with
    nextPromise := s.nextPromise + 1, closeRequestSlot := some s.nextPromise }

lemma promises_closeRecorded (h : Inv plain conv s) (hslot : s.closeRequestSlot = none) :
    Promises s.settled s.closeRecorded.openPromises (s.nextPromise + 1) := by
  refine h.promises.new fun p => ?_
  rw [count_openPromises, count_openPromises, hslot]
  show _ + ((s.writeRequests.getD []).count p + [s.nextPromise].count p +
      (s.pendingAbortRequest.map Prod.fst).toList.count p +
      (s.pending.filterMap SinkOp.promise?).count p) = _ + (_ + ([] : List ℕ).count p + _ + _) + _
  rw [List.count_nil]
  omega

lemma live_closeRecorded (hlive : Live plain s) (hslot : s.closeRequestSlot = none) : Live plain s.closeRecorded where
  pending := hlive.pending
  notStarted := hlive.notStarted
  exclusive := hlive.exclusive
  slot := fun _ => hlive.slot hslot
  someRequests := hlive.someRequests
  head := hlive.head_enqueue _
  closing := fun hclosing => absurd ((hlive.slot hslot).symm.trans hclosing) Bool.false_ne_true
  requests := fun hp => by
    obtain ⟨extra, hrequests, hextra, hconvert⟩ := hlive.requests hp
    refine ⟨extra, ?_, hextra, hconvert⟩
    show s.writeRequests = some (writeIds (s.queue ++ [QueueRecord.close zero]) ++ extra)
    rw [hrequests, writeIds_append, writeIds_close]
    exact congrArg some (congrArg (· ++ extra) (List.append_nil _).symm)
  plainClosing := fun _ hclosing =>
    absurd ((hlive.slot hslot).symm.trans hclosing) Bool.false_ne_true
  abortFlag := hlive.abortFlag
  noAbort := hlive.noAbort

lemma inv_closeRecorded (h : Inv plain conv s) (hstate : s.state = .writable ∨ s.state = .erroring)
    (hslot : s.closeRequestSlot = none) (hconverting : plain → s.converting = []) :
    Inv plain conv s.closeRecorded := by
  have hlive := h.live hstate
  have hids : writeIds (s.queue ++ [QueueRecord.close zero]) = writeIds s.queue := by
    rw [writeIds_append, writeIds_close]
    exact List.append_nil _
  rcases hstate with hstate | hstate
  · have hw := h.writable hstate
    refine Inv.of_writable hstate h.chain (promises_closeRecorded h hslot) h.calls h.converting ?_
    exact
      { live_closeRecorded hlive hslot with
        aligned := by
          show s.writeRequests = some (writeIds (s.queue ++ [QueueRecord.close zero]) ++ s.converting.reverse)
          rw [hids]
          exact hw.aligned
        storedError := hw.storedError
        noAbortRequest := hw.noAbortRequest
        convert := fun hp hne => absurd (hconverting hp) hne
        noClose := fun hnone => nomatch hnone
        closeQueued := fun _ _ => ⟨s.queue, _, rfl, hw.noClose hslot⟩
        accepted := by
          show s.accepted = s.finished ++ writeIds (s.queue ++ [QueueRecord.close zero])
          rw [hids]
          exact hw.accepted
        received := by
          show written s.calls = if s.sink.write = true then s.finished ++ (if s.haveInFlightWriteRequest = true then
              (writeIds (s.queue ++ [QueueRecord.close zero])).take 1 else []) else []
          rw [hids]
          exact hw.received
        notClosed := hw.notClosed
        method := hw.method }
  · exact Inv.of_erroring hstate h.chain (promises_closeRecorded h hslot) h.calls h.converting
      { live_closeRecorded hlive hslot with waits := (h.erroring hstate).waits }

lemma close_spec (h : Inv plain conv s) (hconverting : plain → s.converting = []) :
    ∃ s', s.close = some s' ∧ Inv plain conv s' := by
  unfold close
  rw [h.closeQueuedOrInFlight]
  show ∃ s', (if s.closeRequestSlot.isSome = true then some s else s.streamClose) = some s' ∧ Inv plain conv s'
  by_cases hclosing : s.closeRequestSlot.isSome = true
  · rw [if_pos hclosing]
    exact ⟨s, rfl, h⟩
  rw [if_neg hclosing]
  unfold streamClose
  by_cases hended : s.state = .closed ∨ s.state = .errored
  · rw [if_pos hended]
    exact ⟨s, rfl, h⟩
  have hstate : s.state = .writable ∨ s.state = .erroring := by
    cases hs : s.state with
    | writable => exact .inl rfl
    | erroring => exact .inr rfl
    | errored => exact absurd (.inr hs) hended
    | closed => exact absurd (.inl hs) hended
  have hslot : s.closeRequestSlot = none := by
    cases hs : s.closeRequestSlot with
    | none => rfl
    | some p => exact absurd (congrArg Option.isSome hs) hclosing
  have hflag := h.slot hslot
  rw [if_neg hended, assert_bind hstate, h.closeQueuedOrInFlight]
  show ∃ s', (MOZ_ASSERT (s.closeRequestSlot.isSome = false) >>= _) = some s' ∧ Inv plain conv s'
  rw [assert_bind (by rw [hslot]; rfl), assert_bind hflag]
  -- the promise of the writer aside, this is the stream with the record
  have heq : ∀ w, (controllerClose { s with
      nextPromise := s.nextPromise + 1, closeRequestSlot := some s.nextPromise, writer := w }) =
      advanceQueueIfNeeded { s.closeRecorded with writer := w, backpressure := s.backpressure } :=
    fun _ => rfl
  have hrun : ∀ w, ∃ s', advanceQueueIfNeeded { s.closeRecorded with
      writer := w, backpressure := s.backpressure } = some s' ∧ Inv plain conv s' := fun w => by
    have hinv := (inv_closeRecorded h hstate hslot hconverting).writer w s.backpressure
    rcases hstate with hstate | hstate
    · exact advance_writable hinv hstate
    · have he := hinv.erroring hstate
      refine ⟨_, advance_waiting he.toLive (he.waits.imp_right fun hop => ?_), hinv⟩
      exact hop.resolve_right fun hclosing => absurd (hflag.symm.trans hclosing) Bool.false_ne_true
  split_ifs
  · exact (heq _).symm ▸ hrun _
  · exact (heq s.writer).symm ▸ hrun s.writer

/-! ## Aborting -/

def abortRequested (pendingReason : Option E) (flag : Bool) (s : WritableStream E D) : WritableStream E D :=
  { s with
    nextPromise := s.nextPromise + 1
    pendingAbortRequest := some (s.nextPromise, pendingReason)
    pendingAbortRequestWasAlreadyErroring := flag }

omit [SizeArith D] in
lemma promises_abortRequested (h : Inv plain conv s) (hnone : s.pendingAbortRequest = none)
    (pendingReason : Option E) (flag : Bool) :
    Promises s.settled (s.abortRequested pendingReason flag).openPromises (s.nextPromise + 1) := by
  refine h.promises.new fun p => ?_
  rw [count_openPromises, count_openPromises, hnone]
  show _ + ((s.writeRequests.getD []).count p + s.closeRequestSlot.toList.count p +
      [s.nextPromise].count p + (s.pending.filterMap SinkOp.promise?).count p) =
    _ + (_ + _ + ([] : List ℕ).count p + _) + _
  rw [List.count_nil]
  omega

omit [SizeArith D] in
lemma live_abortRequested (h : Live plain s) (pendingReason : Option E) (flag : Bool) :
    Live plain (s.abortRequested pendingReason flag) :=
  ⟨h.pending, h.notStarted, h.exclusive, h.slot, h.someRequests, h.head, h.closing, h.requests,
    h.plainClosing, fun hnone => (nomatch hnone), h.noAbort⟩

lemma abort_spec (h : Inv plain conv s) (reason : Option E) : ∃ s', s.abort reason = some s' ∧ Inv plain conv s' := by
  unfold abort
  by_cases hended : s.state = .closed ∨ s.state = .errored
  · rw [if_pos hended]
    exact ⟨s, rfl, h⟩
  rw [if_neg hended]
  by_cases hrequest : s.pendingAbortRequest.isSome = true
  · rw [if_pos hrequest]
    exact ⟨s, rfl, h⟩
  have hstate : s.state = .writable ∨ s.state = .erroring := by
    cases hs : s.state with
    | writable => exact .inl rfl
    | erroring => exact .inr rfl
    | errored => exact absurd (.inr hs) hended
    | closed => exact absurd (.inl hs) hended
  have hnone : s.pendingAbortRequest = none := by
    cases hs : s.pendingAbortRequest with
    | none => rfl
    | some r => exact absurd (congrArg Option.isSome hs) hrequest
  have hlive := h.live hstate
  rw [if_neg hrequest, assert_bind hstate, assert_bind (hlive.abortFlag hnone)]
  by_cases herroring : s.state = .erroring
  · have hpromises := promises_abortRequested h hnone none true
    refine ⟨s.abortRequested none true, ?_, Inv.of_erroring herroring h.chain hpromises h.calls
      h.converting { live_abortRequested hlive none true with waits := (h.erroring herroring).waits }⟩
    rw [decide_eq_true herroring]
    rfl
  · have hw := hstate.resolve_right herroring
    have hs := h.starting hw
    rw [decide_eq_false herroring]
    have hstarting : Starting plain conv (s.abortRequested reason false) := ⟨hs.state, hs.chain,
      promises_abortRequested h hnone reason false, hs.calls, hs.converting, hs.storedError,
      hs.requests, hs.noAbort, hs.idle, fun _ => live_abortRequested hlive reason false⟩
    exact startErroring_spec hstarting reason

/-! ## Locking -/

section

omit [SizeArith D]

lemma getWriter_spec (h : Inv plain conv s) (hunlocked : s.writer = none) :
    ∃ s', s.getWriter = some s' ∧ Inv plain conv s' := by
  unfold getWriter
  rw [h.closeQueuedOrInFlight]
  show ∃ s', (MOZ_ASSERT (s.writer.isNone = true) >>= _) = some s' ∧ Inv plain conv s'
  rw [assert_bind (by rw [hunlocked]; rfl)]
  exact ⟨_, rfl, h.writer _ s.backpressure⟩

lemma getWriter_locked (hwriter : s.writer.isSome = true) : s.getWriter = none := by
  unfold getWriter
  cases hclosing : s.closeQueuedOrInFlight with
  | none => rfl
  | some closing =>
    show (MOZ_ASSERT (s.writer.isNone = true) >>= _) = none
    have hlocked : ¬ s.writer.isNone = true := fun hnone => by
      rw [Option.isNone_iff_eq_none.1 hnone] at hwriter
      exact Bool.false_ne_true hwriter
    simp [MOZ_ASSERT, hlocked]

lemma releaseLock_spec (h : Inv plain conv s) (hwriter : s.writer.isSome = true) :
    ∃ s', s.releaseLock = some s' ∧ Inv plain conv s' := by
  unfold releaseLock
  rw [assert_bind hwriter]
  exact ⟨_, rfl, h.writer none s.backpressure⟩

end

end WritableStream

end SpiderMonkey
