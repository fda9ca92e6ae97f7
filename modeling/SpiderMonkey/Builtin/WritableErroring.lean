import SpiderMonkey.Builtin.WritableInv

/-!
# Erroring a writable stream

What the operations do that take a stream to the states `erroring` and `errored`.
-/

namespace SpiderMonkey

namespace WritableStream

open WritableState

variable {E D : Type} {s : WritableStream E D} {α : Type} {plain : Prop} {conv : List ℕ}

/-! ## Assertions -/

lemma assert_bind {c : Prop} [Decidable c] (h : c) (f : Unit → Option α) : (MOZ_ASSERT c >>= f) = f () := by
  rw [MOZ_ASSERT, if_pos h]
  rfl

lemma setState_bind {new : WritableState} (h : StateChange s.state new) (f : WritableStream E D → Option α) :
    (s.setState new >>= f) = f { s with state := new, states := s.states ++ [new] } := by
  rw [setState, assert_bind h]
  rfl

lemma closeQueuedOrInFlight_eq (h : s.closeRequestSlot = none → s.haveInFlightCloseRequest = false) :
    s.closeQueuedOrInFlight = some s.closeRequestSlot.isSome := by
  rw [closeQueuedOrInFlight, assertCloseRequestSlot, assert_bind fun hnone => h (Option.isNone_iff_eq_none.1 hnone)]

lemma closeRequest_eq (h : s.haveInFlightCloseRequest = false) : s.closeRequest = some s.closeRequestSlot := by
  rw [closeRequest, assertCloseRequestSlot, assert_bind fun _ => h, h]
  rfl

lemma inFlightCloseRequest_eq (h : s.haveInFlightCloseRequest = false) : s.inFlightCloseRequest = some none := by
  rw [inFlightCloseRequest, assertCloseRequestSlot, assert_bind fun _ => h, h]
  rfl

lemma rejectClose_eq (hstate : s.state = .errored) (hflag : s.haveInFlightCloseRequest = false) :
    s.rejectCloseAndClosedPromiseIfNeeded = some (rejectClosedPromise { s with
      settled := s.settled ++ s.closeRequestSlot.toList, closeRequestSlot := none }) := by
  unfold rejectCloseAndClosedPromiseIfNeeded
  rw [assert_bind hstate, closeRequest_eq hflag]
  cases hslot : s.closeRequestSlot with
  | none =>
    show some s.rejectClosedPromise = _
    rw [Option.toList_none, List.append_nil, ← hslot]
  | some p =>
    show (s.inFlightCloseRequest >>= _) = _
    rw [inFlightCloseRequest_eq hflag]
    show (MOZ_ASSERT (s.haveInFlightCloseRequest = false) >>= _) = _
    rw [assert_bind hflag]
    rfl

/-! ## Becoming errored -/

/-- What `finishErroring` needs: a stream with no operation in flight. -/
structure Finishing (plain : Prop) (conv : List ℕ) (s : WritableStream E D) : Prop where
  state : s.state = .erroring
  chain : Chain s.states s.state
  promises : Promises s.settled s.openPromises s.nextPromise
  calls : Calls s.calls s.accepted
  converting : plain → s.converting = conv
  started : s.started = true
  requests : ∃ rs, s.writeRequests = some rs
  noWrite : s.haveInFlightWriteRequest = false
  noClose : s.haveInFlightCloseRequest = false
  pending : s.pending = []
  noAbort : abortCalls s.calls = 0

lemma count_openPromises (p : ℕ) : s.openPromises.count p = (s.writeRequests.getD []).count p +
    s.closeRequestSlot.toList.count p + (s.pendingAbortRequest.map Prod.fst).toList.count p +
    (s.pending.filterMap SinkOp.promise?).count p := by
  rw [openPromises, List.count_append, List.count_append, List.count_append]

lemma Inv.of_errored (hstate : s.state = .errored) (hchain : Chain s.states s.state)
    (hpromises : Promises s.settled s.openPromises s.nextPromise) (hcalls : Calls s.calls s.accepted)
    (hconverting : plain → s.converting = conv) (herrored : Errored s) : Inv plain conv s where
  chain := hchain
  promises := hpromises
  calls := hcalls
  converting := hconverting
  writable h := noConfusion (hstate.symm.trans h)
  erroring h := noConfusion (hstate.symm.trans h)
  errored _ := herrored
  closed h := noConfusion (hstate.symm.trans h)

/-! ## A live stream -/

lemma Live.hasOperation_idle (h : Live plain s) (hop : s.hasOperationMarkedInFlight = false)
    (hstarted : s.started = true) : s.pending = [] := by
  rw [hasOperationMarkedInFlight, Bool.or_eq_false_iff] at hop
  rw [h.pending, opsInFlight, hstarted, hop.1, hop.2]
  rfl

lemma Live.clearAlgorithms (h : Live plain s) : Live plain s.clearAlgorithms :=
  ⟨h.pending, h.notStarted, h.exclusive, h.slot, h.someRequests, h.head, h.closing, h.requests,
    h.plainClosing, h.abortFlag, h.noAbort⟩

/-- What `startErroring` needs. -/
structure Starting (plain : Prop) (conv : List ℕ) (s : WritableStream E D) : Prop where
  state : s.state = .writable
  chain : Chain s.states s.state
  promises : Promises s.settled s.openPromises s.nextPromise
  calls : Calls s.calls s.accepted
  converting : plain → s.converting = conv
  storedError : s.storedError = none
  requests : ∃ rs, s.writeRequests = some rs
  noAbort : abortCalls s.calls = 0
  idle : s.hasOperationMarkedInFlight = false → s.started = true → s.pending = []
  live : ¬ (s.hasOperationMarkedInFlight = false ∧ s.started = true) → Live plain s

lemma Inv.starting (h : Inv plain conv s) (hstate : s.state = .writable) : Starting plain conv s := by
  have hw := h.writable hstate
  exact ⟨hstate, h.chain, h.promises, h.calls, h.converting, hw.storedError, ⟨_, hw.aligned⟩,
    hw.noAbort, hw.toLive.hasOperation_idle, fun _ => hw.toLive⟩

variable [SizeArith D]

/-! ## Finishing to error -/

/-- The stream when it has just become errored. -/
def erroredWith (requests : List ℕ) (s : WritableStream E D) : WritableStream E D :=
  { s.resetQueue with
    state := .errored
    states := s.states ++ [.errored]
    settled := s.settled ++ requests
    writeRequests := none
    pendingAbortRequest := none }

lemma finishErroring_eq (hstate : s.state = .erroring) (hw : s.haveInFlightWriteRequest = false)
    (hc : s.haveInFlightCloseRequest = false) {rs : List ℕ} (hreq : s.writeRequests = some rs) :
    s.finishErroring = match s.pendingAbortRequest with
      | none => (erroredWith rs s).rejectCloseAndClosedPromiseIfNeeded
      | some (p, _) => if s.pendingAbortRequestWasAlreadyErroring then
          ((erroredWith rs s).settle p).rejectCloseAndClosedPromiseIfNeeded
        else some ((erroredWith rs s).abortSteps p) := by
  have hop : s.hasOperationMarkedInFlight = false := by
    rw [hasOperationMarkedInFlight, hw, hc]
    rfl
  have hchange : StateChange s.state .errored := by
    rw [hstate]
    exact .inl rfl
  unfold finishErroring
  rw [assert_bind hstate, assert_bind hop, setState_bind hchange]
  show (s.writeRequests >>= _) = _
  rw [hreq]
  show (MOZ_ASSERT (s.haveInFlightWriteRequest = false) >>= _) = _
  rw [assert_bind hw]
  cases habort : s.pendingAbortRequest with
  | none =>
    show rejectCloseAndClosedPromiseIfNeeded _ = rejectCloseAndClosedPromiseIfNeeded _
    unfold erroredWith
    rw [← habort]
    rfl
  | some r => rfl

/-- The stream becomes errored, and its promises are settled, but for that of an abort whose method is
called. -/
lemma finishErroring_spec (h : Finishing plain conv s) : ∃ s', s.finishErroring = some s' ∧ Inv plain conv s' := by
  obtain ⟨rs, hrs⟩ := h.requests
  have hchain : Chain (s.states ++ [errored]) .errored := h.chain.snoc (by rw [h.state]; exact .inl rfl)
  have hopen : ∀ p, s.openPromises.count p = rs.count p + s.closeRequestSlot.toList.count p +
      (s.pendingAbortRequest.map Prod.fst).toList.count p := fun p => by
    rw [count_openPromises, hrs, h.pending]
    rfl
  rw [finishErroring_eq h.state h.noWrite h.noClose hrs]
  cases habort : s.pendingAbortRequest with
  | none =>
    refine ⟨_, rejectClose_eq rfl h.noClose, Inv.of_errored rfl hchain ?_ h.calls h.converting
      ⟨h.started, rfl, rfl, h.noWrite, h.noClose, rfl, .inl ⟨h.pending, rfl⟩⟩⟩
    refine h.promises.of_count fun p => ?_
    rw [hopen p, count_openPromises]
    simp only [rejectClosedPromise, erroredWith, resetQueue, habort, h.pending, List.count_append]
    simp
    omega
  | some r =>
    obtain ⟨p, reason⟩ := r
    by_cases halready : s.pendingAbortRequestWasAlreadyErroring = true
    · refine ⟨_, (if_pos halready).trans (rejectClose_eq rfl h.noClose),
        Inv.of_errored rfl hchain ?_ h.calls h.converting
          ⟨h.started, rfl, rfl, h.noWrite, h.noClose, rfl, .inl ⟨h.pending, rfl⟩⟩⟩
      refine h.promises.of_count fun q => ?_
      rw [hopen q, count_openPromises]
      simp only [rejectClosedPromise, settle, erroredWith, resetQueue, habort, h.pending, List.count_append]
      simp
      omega
    · refine ⟨_, if_neg halready, Inv.of_errored rfl hchain ?_ ?_ h.converting
        ⟨h.started, rfl, rfl, h.noWrite, h.noClose, rfl, .inr ⟨p, congrArg (· ++ [_]) h.pending⟩⟩⟩
      · refine h.promises.of_count fun q => ?_
        rw [hopen q, count_openPromises]
        simp only [abortSteps, clearAlgorithms, erroredWith, resetQueue, habort, h.pending, List.count_append]
        simp [SinkOp.promise?]
        omega
      · show Calls (if s.abortMethod = true then s.calls ++ [(errored, SinkCall.abort)] else s.calls)
          s.accepted
        split_ifs
        · exact h.calls.snoc_abort h.noAbort
        · exact h.calls

/-! ## Starting to error -/

/-- The stream when it has just begun to error. -/
def erroringWith (reason : Option E) (s : WritableStream E D) : WritableStream E D :=
  ensureReadyPromiseRejected { s with
    state := .erroring, states := s.states ++ [.erroring], storedError := reason }

lemma startErroring_spec (h : Starting plain conv s) (reason : Option E) :
    ∃ s', s.startErroring reason = some s' ∧ Inv plain conv s' := by
  have hchange : StateChange s.state .erroring := by
    rw [h.state]
    exact .inr rfl
  have heq : s.startErroring reason = if s.hasOperationMarkedInFlight = false ∧ s.started = true then
        (s.erroringWith reason).finishErroring
      else some (s.erroringWith reason) := by
    unfold startErroring
    rw [assert_bind (by rw [h.storedError]; rfl), assert_bind h.state, setState_bind hchange]
    rfl
  rw [heq]
  have hchain : Chain (s.states ++ [erroring]) .erroring := h.chain.snoc hchange
  split_ifs with hidle
  · have hflags := hidle.1
    rw [hasOperationMarkedInFlight, Bool.or_eq_false_iff] at hflags
    exact finishErroring_spec ⟨rfl, hchain, h.promises, h.calls, h.converting, hidle.2, h.requests,
      hflags.1, hflags.2, h.idle hidle.1 hidle.2, h.noAbort⟩
  · have hlive := h.live hidle
    have hwaits : s.started = false ∨ s.haveInFlightWriteRequest = true ∨ s.haveInFlightCloseRequest = true := by
      rw [hasOperationMarkedInFlight] at hidle
      revert hidle
      cases s.started <;> cases s.haveInFlightWriteRequest <;>
        cases s.haveInFlightCloseRequest <;> simp
    exact ⟨_, rfl,
      { h with
        chain := hchain
        writable := fun hw => noConfusion hw
        erroring := fun _ => { hlive with waits := hwaits }
        errored := fun he => noConfusion he
        closed := fun hc => noConfusion hc }⟩

lemma dealWithRejection_spec (hwritable : s.state = .writable → Starting plain conv s)
    (herroring : s.state = .erroring → Finishing plain conv s)
    (hstate : s.state = .writable ∨ s.state = .erroring) (error : Option E) :
    ∃ s', s.dealWithRejection error = some s' ∧ Inv plain conv s' := by
  unfold dealWithRejection
  by_cases hw : s.state = .writable
  · rw [if_pos hw]
    exact startErroring_spec (hwritable hw) error
  · have he := hstate.resolve_left hw
    rw [if_neg hw, assert_bind he]
    exact finishErroring_spec (herroring he)

lemma controllerError_spec (h : Starting plain conv s) (error : Option E) :
    ∃ s', s.controllerError error = some s' ∧ Inv plain conv s' := by
  unfold controllerError
  rw [assert_bind h.state]
  have hstarting : Starting plain conv s.clearAlgorithms := ⟨h.state, h.chain, h.promises, h.calls,
    h.converting, h.storedError, h.requests, h.noAbort, h.idle,
    fun hop => (h.live hop).clearAlgorithms⟩
  exact startErroring_spec hstarting error

lemma errorIfNeeded_spec (h : Inv plain conv s) (error : Option E) :
    ∃ s', s.errorIfNeeded error = some s' ∧ Inv plain conv s' := by
  unfold errorIfNeeded
  split_ifs with hw
  · exact controllerError_spec (h.starting hw) error
  · simp [h]

end WritableStream

end SpiderMonkey
