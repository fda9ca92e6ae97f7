import SpiderMonkey.Builtin.WritableHandlers
import SpiderMonkey.Lib.EventRun

/-!
# Runs of a writable stream

In every run in which a writer is taken only of a stream that is not locked no assertion fails, and the
sink gets what has been accepted.  A conversion of a size in which a write or a close happens breaks the
order of the queue; nothing else does.
-/

namespace SpiderMonkey

open List

namespace WritableStream

open EventRun

variable {E D : Type} [SizeArith D] {s : WritableStream E D} {plain : Prop} {conv : List ℕ}

instance : SizeArith ℤ where
  zero := 0
  add := (· + ·)
  sub := (· - ·)
  negative x := decide (x < 0)
  exhausted hwm total := decide (hwm - total ≤ 0)

/-! ## One event -/

lemma settled_spec (h : Inv plain conv s) {op : SinkOp} (hop : op ∈ s.pending)
    (hconverting : s.converting = []) (outcome : Except (Option E) Unit) :
    ∃ s', step (.settled op outcome) s = some s' ∧ Inv plain conv s' := by
  have heq : step (.settled op outcome) s = react op outcome (s.reacting op) :=
    if_pos ⟨hop, length_eq_zero_iff.2 hconverting⟩
  rw [heq]
  cases op with
  | start => exact startSettled_spec h hop outcome
  | write => exact writeSettled_spec h hop hconverting outcome
  | close => exact closeSettled_spec h hop hconverting outcome
  | abort p => exact abortSettled_spec h hop outcome

lemma write_spec (h : Inv plain [] s) (hwriter : s.writer.isSome = true)
    (hconverting : s.converting = []) (size : Except (Option E) D) :
    ∃ s', step (.write size) s = some s' ∧ Inv plain [] s' := by
  obtain ⟨taken, s₁, hwrite, htaken, hrefused⟩ := writerWrite_spec h hwriter fun _ => hconverting
  have heq : step (.write size) s = if taken = true then s₁.endConversion size else some s₁ := by
    show s.writerWrite.bind _ = _
    rw [hwrite]
    rfl
  rw [heq]
  cases taken with
  | false =>
    simp [hrefused, h]
  | true =>
    obtain ⟨hinv, _, _, hstate, hslot, hconverting₁⟩ := htaken rfl
    rw [hconverting] at hconverting₁
    rw [if_pos rfl]
    cases size with
    | error e => exact endConversion_error hinv hconverting₁ (fun _ => rfl) e
    | ok size =>
      exact endConversion_ok hinv hconverting₁ size (.inl hstate) (hinv.slot hslot) (fun _ => rfl)
        fun _ => ⟨rfl, hslot⟩

/-! ## Runs without conversions that run code -/

/-- The size of a chunk is a number, or what is no number at once. -/
def Event.Plain : Event E D → Prop
  | .beginWrite | .converted _ => False
  | _ => True

/-- An event that can happen when the sizes are numbers. -/
def Usual (s : WritableStream E D) (e : Event E D) : Prop := e.Plain ∧ Possible s e

/-- A writer is taken only of a stream that is not locked. -/
def Unlocked (s : WritableStream E D) (e : Event E D) : Prop :=
  Usual s e ∧ (e = .getWriter → s.writer = none)

lemma step_spec (h : Inv True [] s) {e : Event E D} (hunlocked : Unlocked s e) :
    ∃ s', step e s = some s' ∧ Inv True [] s' := by
  obtain ⟨⟨hplain, hpossible⟩, hwriter⟩ := hunlocked
  have hconverting : s.converting = [] := h.converting trivial
  cases e with
  | getWriter => exact getWriter_spec h (hwriter rfl)
  | releaseLock => exact releaseLock_spec h hpossible
  | write size => exact write_spec h hpossible hconverting size
  | beginWrite => exact hplain.elim
  | converted size => exact hplain.elim
  | close => exact close_spec h fun _ => hconverting
  | abort reason => exact abort_spec h reason
  | error e => exact errorIfNeeded_spec h e
  | settled op outcome => exact settled_spec h hpossible.1 hconverting outcome

/-- What holds between two events of a stream whose sizes are numbers. -/
structure Sound (s : WritableStream E D) : Prop where
  /-- Each change of the state is one of those that are allowed. -/
  changes : s.states.IsChain StateChange ∧ s.states.getLast? = some s.state
  oneInFlight : s.pending.length ≤ 1
  /-- The sink receives what has been accepted, in this order. -/
  received : written s.calls <+: s.accepted
  /-- What has been accepted and is not received waits in the queue of a writable stream. -/
  waiting : s.state = .writable → s.sink.write = true → s.accepted = written s.calls ++
    (if s.haveInFlightWriteRequest = true then (writeIds s.queue).tail else writeIds s.queue)
  closeOnce : closeCalls s.calls ≤ 1
  /-- When `close` was called, all writes that had been accepted had finished. -/
  closeAfter : ∀ c ∈ s.calls, ∀ accepted finished, c.2 = .close accepted finished → accepted = finished
  abortOnce : abortCalls s.calls ≤ 1
  /-- Only `abort` is called when the stream is not writable. -/
  onlyAbort : ∀ c ∈ s.calls, c.1 = .writable ∨ c.2 = .abort
  aligned : s.state = .writable ∨ s.state = .erroring →
    ∃ extra, s.writeRequests = some (writeIds s.queue ++ extra) ∧ extra.length ≤ 1
  inFlight : s.haveInFlightWriteRequest = true → ∃ chunk size rest requests,
    s.queue = .write chunk size :: rest ∧ s.writeRequests = some (chunk :: requests)
  /-- A promise is settled once. -/
  settledOnce : s.settled.Nodup
  /-- A promise that is not settled is that of a request or of an abort of the sink. -/
  settledOr : ∀ p < s.nextPromise, p ∈ s.settled ↔ p ∉ s.openPromises
  /-- All promises of a stream that has ended are settled, but for those that wait for `abort`. -/
  ended : s.state = .closed ∨ s.state = .errored → s.pending = [] → s.openPromises = []

section

omit [SizeArith D]

lemma Live.pending_length (h : Live plain s) : s.pending.length ≤ 1 := by
  rw [h.pending, opsInFlight]
  split_ifs <;> simp

lemma Inv.pending_length (h : Inv plain conv s) : s.pending.length ≤ 1 := by
  cases hstate : s.state with
  | writable => exact (h.live (.inl hstate)).pending_length
  | erroring => exact (h.live (.inr hstate)).pending_length
  | errored =>
    rcases (h.errored hstate).pending with ⟨hnil, _⟩ | ⟨p, hpending⟩
    · simp [hnil]
    · simp [hpending]
  | closed =>
    rw [(h.closed hstate).pending]
    simp

lemma Writable.waiting (h : Writable plain s) (hsink : s.sink.write = true) : s.accepted = written s.calls ++
      (if s.haveInFlightWriteRequest = true then (writeIds s.queue).tail else writeIds s.queue) := by
  rw [h.accepted, h.received, if_pos hsink, append_assoc]
  by_cases hwrite : s.haveInFlightWriteRequest = true
  · obtain ⟨chunk, size, rest, _, hqueue, _⟩ := h.head hwrite
    simp [hwrite, hqueue, writeIds_write]
  · simp [hwrite]

end

section

variable {settled opens : List ℕ} {next : ℕ}

lemma Promises.nodup (h : Promises settled opens next) : settled.Nodup := by
  rw [nodup_iff_count_le_one]
  intro p
  have hp := h p
  split_ifs at hp <;> omega

lemma Promises.mem_iff (h : Promises settled opens next) {p : ℕ} (hp : p < next) : p ∈ settled ↔ p ∉ opens := by
  have hcount := h p
  rw [if_pos hp] at hcount
  rw [← count_pos_iff, ← count_eq_zero]
  omega

end

omit [SizeArith D] in
lemma Inv.ended (h : Inv True conv s) (hstate : s.state = .closed ∨ s.state = .errored)
    (hpending : s.pending = []) : s.openPromises = [] := by
  unfold openPromises
  rcases hstate with hstate | hstate
  · have hs := h.closed hstate
    rw [hs.noRequests trivial, hs.slot, hs.noAbortRequest, hpending]
    rfl
  · have hs := h.errored hstate
    rcases hs.pending with ⟨_, hslot⟩ | ⟨p, hp⟩
    · rw [hs.noRequests, hslot, hs.noAbortRequest, hpending]
      rfl
    · rw [hpending] at hp
      cases hp

omit [SizeArith D] in
lemma Inv.sound (h : Inv True conv s) : Sound s where
  changes := h.chain
  oneInFlight := h.pending_length
  received := h.calls.written
  waiting hstate hsink := (h.writable hstate).waiting hsink
  closeOnce := h.calls.closeOnce
  closeAfter := h.calls.closeAfter
  abortOnce := h.calls.abortOnce
  onlyAbort := h.calls.writable
  aligned hstate := by
    obtain ⟨extra, hrequests, hextra, _⟩ := (h.live hstate).requests trivial
    simp [hrequests, hextra]
  inFlight hwrite := by
    cases hstate : s.state with
    | writable => exact (h.live (.inl hstate)).head hwrite
    | erroring => exact (h.live (.inr hstate)).head hwrite
    | errored => exact absurd ((h.errored hstate).noWrite.symm.trans hwrite) Bool.false_ne_true
    | closed => exact absurd ((h.closed hstate).noWrite.symm.trans hwrite) Bool.false_ne_true
  settledOnce := h.promises.nodup
  settledOr _ hp := h.promises.mem_iff hp
  ended := h.ended

/-- If a writer is only taken of a stream that is not locked, no assertion fails, and the stream does
what it should. -/
theorem run_sound (sink : Sink) (hwm : D) (es : List (Event E D))
    (halong : Along Unlocked step es (create E sink hwm)) :
    ∃ s, run step es (create E sink hwm) = some s ∧ Sound s := by
  obtain ⟨s, hrun, hinv⟩ := run_along (I := Inv True []) (fun e s h he => step_spec h he)
    (inv_create True sink hwm) halong
  exact ⟨s, hrun, hinv.sound⟩

/-- A writer writes and closes, and the sink answers. -/
theorem run_sound_write_close : ∃ s, run step
    [.getWriter, .write (.ok 1), .settled .start (.ok ()), .close, .settled .write (.ok ()),
      .settled .close (.ok ())] (create Unit ⟨true, true, true⟩ (1 : ℤ)) = some s ∧ Sound s := by
  refine run_sound _ _ _ ?_
  refine along_cons rfl ⟨⟨trivial, trivial⟩, fun _ => rfl⟩ ?_
  refine along_cons rfl ⟨⟨trivial, rfl⟩, fun h => nomatch h⟩ ?_
  refine along_cons rfl ⟨⟨trivial, mem_singleton.2 rfl, rfl⟩, fun h => nomatch h⟩ ?_
  refine along_cons rfl ⟨⟨trivial, trivial⟩, fun h => nomatch h⟩ ?_
  refine along_cons rfl ⟨⟨trivial, mem_singleton.2 rfl, rfl⟩, fun h => nomatch h⟩ ?_
  refine along_cons rfl ⟨⟨trivial, mem_singleton.2 rfl, rfl⟩, fun h => nomatch h⟩ ?_
  exact trivial

/-- A second writer is taken of a stream that is locked. -/
theorem not_sound_second_writer : ¬ ∀ (sink : Sink) (hwm : ℤ) (es : List (Event Unit ℤ)),
    Along Usual step es (create Unit sink hwm) →
      ∃ s, run step es (create Unit sink hwm) = some s ∧ Sound s := by
  intro hall
  obtain ⟨s, hs, _⟩ := hall ⟨true, true, true⟩ 1 [.getWriter, .getWriter]
    (along_cons rfl ⟨trivial, trivial⟩ ⟨⟨trivial, trivial⟩, fun _ _ => trivial⟩)
  cases hs

/-! ## Runs with conversions that run code -/

/-- A conversion that ends with a size in a writable stream is the only one under way, and no close has
been requested in it. -/
def Undisturbed (s : WritableStream E D) : Event E D → Prop
  | .write (.ok _) => s.state = .writable → s.closeRequestSlot = none → s.converting = []
  | .converted (.ok _) => s.state = .writable → s.converting.length = 1 ∧ s.closeRequestSlot = none
  | _ => True

/-- In a writable stream requests and records are in one order, up to the writes whose sizes are being
converted, and the close comes last. -/
structure InOrder (s : WritableStream E D) : Prop where
  aligned : s.state = .writable → s.writeRequests = some (writeIds s.queue ++ s.converting.reverse)
  closeLast : s.state = .writable → ∀ before size after,
    s.queue = before ++ QueueRecord.close size :: after → after = []
  order : s.calls.Pairwise fun c c' => SinkCall.isClose c.2 = true → SinkCall.chunk? c'.2 = none

lemma write_undisturbed (h : Inv False [] s) {size : Except (Option E) D}
    (hwriter : s.writer.isSome = true) (hundisturbed : Undisturbed s (.write size))
    {s' : WritableStream E D} (hstep : step (.write size) s = some s') : Inv False [] s' := by
  obtain ⟨taken, s₁, hwrite, htaken, hrefused⟩ := writerWrite_spec h hwriter False.elim
  have heq : step (.write size) s = if taken = true then s₁.endConversion size else some s₁ := by
    show s.writerWrite.bind _ = _
    rw [hwrite]
    rfl
  rw [heq] at hstep
  cases taken with
  | false =>
    cases hstep
    rw [hrefused rfl]
    exact h
  | true =>
    obtain ⟨hinv, hstate, hslot, _, hslot₁, hconverting₁⟩ := htaken rfl
    rw [if_pos rfl] at hstep
    refine endConversion_spec hinv False.elim (fun d hd _ => ⟨?_, hslot₁⟩) hstep
    subst hd
    rw [hconverting₁, hundisturbed hstate hslot]
    rfl

lemma step_undisturbed (h : Inv False [] s) {e : Event E D}
    (he : Possible s e ∧ Undisturbed s e) {s' : WritableStream E D} (hstep : step e s = some s') :
    Inv False [] s' := by
  obtain ⟨hpossible, hundisturbed⟩ := he
  have hkept : (∃ s'', step e s = some s'' ∧ Inv False [] s'') → Inv False [] s' := by
    rintro ⟨s'', hs'', hinv⟩
    cases hs''.symm.trans hstep
    exact hinv
  cases e with
  | getWriter =>
    cases hwriter : s.writer with
    | none => exact hkept (getWriter_spec h hwriter)
    | some w =>
      have hnone : step .getWriter s = none := getWriter_locked (by rw [hwriter]; rfl)
      simp [hnone] at hstep
  | releaseLock => exact hkept (releaseLock_spec h hpossible)
  | write size => exact write_undisturbed h hpossible hundisturbed hstep
  | beginWrite =>
    obtain ⟨taken, s₁, hwrite, htaken, hrefused⟩ := writerWrite_spec h hpossible False.elim
    have heq : step .beginWrite s = some s₁ := by
      show s.writerWrite.map Prod.snd = _
      rw [hwrite]
      rfl
    cases heq.symm.trans hstep
    cases taken with
    | false =>
      rw [hrefused rfl]
      exact h
    | true =>
      have hinv := (htaken rfl).1
      exact ⟨hinv.chain, hinv.promises, hinv.calls, False.elim, hinv.writable, hinv.erroring, hinv.errored, hinv.closed⟩
  | converted size =>
    exact endConversion_spec h False.elim (fun d hd => by subst hd; exact hundisturbed) hstep
  | close => exact hkept (close_spec h False.elim)
  | abort reason => exact hkept (abort_spec h reason)
  | error e => exact hkept (errorIfNeeded_spec h e)
  | settled op outcome => exact hkept (settled_spec h hpossible.1 hpossible.2 outcome)

omit [SizeArith D] in
lemma Writable.closeLast (h : Writable plain s) {before after : List (QueueRecord D)} {size : D}
    (hqueue : s.queue = before ++ .close size :: after) : after = [] := by
  have hmem : QueueRecord.close size ∈ s.queue := by
    rw [hqueue]
    exact mem_append_right _ mem_cons_self
  have hslot : s.closeRequestSlot ≠ none := fun hnone => by
    cases h.noClose hnone _ hmem
  have hflag : s.haveInFlightCloseRequest = false := by
    by_contra hclose
    rw [h.closing (Bool.eq_true_of_not_eq_false hclose)] at hmem
    cases hmem
  obtain ⟨writes, size', heq, hwrites⟩ := h.closeQueued hslot hflag
  rw [hqueue] at heq
  by_contra hne
  -- the last record is after the close, so that the close is among the writes
  obtain ⟨init, last, rfl⟩ := (eq_nil_or_concat after).resolve_left hne
  rw [concat_eq_append, ← cons_append, ← append_assoc] at heq
  have hwritten := (append_inj' heq rfl).1
  cases hwrites (.close size) (by
    rw [← hwritten]
    exact mem_append_right _ mem_cons_self)

omit [SizeArith D] in
lemma Inv.inOrder (h : Inv plain conv s) : InOrder s where
  aligned hstate := (h.writable hstate).aligned
  closeLast hstate _ _ _ hqueue := (h.writable hstate).closeLast hqueue
  order := h.calls.order

/-- The order of the queue is kept if no write, and no close, happens in a conversion that ends with a
size. -/
theorem run_inOrder (sink : Sink) (hwm : D) {es : List (Event E D)} {s : WritableStream E D}
    (halong : Along (fun s e => Possible s e ∧ Undisturbed s e) step es (create E sink hwm))
    (hrun : run step es (create E sink hwm) = some s) : InOrder s := by
  refine (invariant_along (I := Inv False []) (fun e s s' h he => step_undisturbed h he)
    (inv_create False sink hwm) halong hrun).inOrder

/-- The conversion of a size aborts the stream. -/
def abortingEvents : List (Event Unit ℤ) := [.getWriter, .settled .start (.ok ()), .write (.ok 1),
  .beginWrite, .abort none, .converted (.ok 1)]

theorem run_inOrder_abort : ∃ s, run step abortingEvents
    (create Unit ⟨true, true, true⟩ (1 : ℤ)) = some s ∧ InOrder s := by
  have halong : Along (fun s e => Possible s e ∧ Undisturbed s e) step abortingEvents
      (create Unit ⟨true, true, true⟩ (1 : ℤ)) := by
    refine along_cons rfl ⟨trivial, trivial⟩ ?_
    refine along_cons rfl ⟨⟨mem_singleton.2 rfl, rfl⟩, trivial⟩ ?_
    refine along_cons rfl ⟨rfl, fun _ _ => rfl⟩ ?_
    refine along_cons rfl ⟨rfl, trivial⟩ ?_
    refine along_cons rfl ⟨trivial, trivial⟩ ?_
    refine along_cons rfl ⟨cons_ne_nil _ _, fun h => nomatch h⟩ ?_
    exact trivial
  exact ⟨_, rfl, run_inOrder ⟨true, true, true⟩ 1 halong rfl⟩

/-- The conversion of a size writes: the record of this write comes before that of the outer one. -/
theorem not_inOrder_nested_write : ¬ ∀ (sink : Sink) (hwm : ℤ) (es : List (Event Unit ℤ))
    (s : WritableStream Unit ℤ), Along Possible step es (create Unit sink hwm) →
      run step es (create Unit sink hwm) = some s → InOrder s := by
  intro hall
  have halong : Along Possible step [.getWriter, .beginWrite, .write (.ok 1),
      .converted (.ok 1)] (create Unit ⟨true, true, true⟩ (1 : ℤ)) :=
    along_cons rfl trivial <| along_cons rfl rfl <| along_cons rfl rfl <|
      along_cons rfl (cons_ne_nil _ _) trivial
  have haligned := (hall _ _ _ _ halong rfl).aligned rfl
  cases haligned

/-- The conversion of a size closes: `sink.write` is called after `sink.close`. -/
example : (run step [.getWriter, .settled .start (.ok ()), .beginWrite, .close,
    .converted (.ok 1)] (create Unit ⟨true, true, true⟩ (1 : ℤ))).map (fun s => s.calls.map Prod.snd) =
      some [.close [] [], .write 0] := rfl

end WritableStream

end SpiderMonkey
