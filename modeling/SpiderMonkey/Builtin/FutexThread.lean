import SpiderMonkey.Lib.EventRun

/-!
# Waiting on a futex

`FutexThread::wait` and `FutexThread::notify`.  A thread holds the futex lock except at three places of
`wait`: while it waits on the condition variable, while the interrupt handler runs, and while the error for
a wait in an interrupt handler is reported.  The code between two of these is one step.
-/

namespace SpiderMonkey

open EventRun

/-! ## The thread -/

inductive FutexState
  | Idle
  | Waiting
  | WaitingNotifiedForInterrupt
  | WaitingInterrupted
  | Woken
  deriving DecidableEq

inductive NotifyReason
  | NotifyExplicit
  | NotifyForJSInterrupt
  deriving DecidableEq

inductive WaitResult
  | Error
  | NotEqual
  | OK
  | TimedOut
  deriving DecidableEq

/-- Where a call of `wait` has released the lock. -/
inductive WaitPoint
  | condition
  | handler
  | errorReport
  deriving DecidableEq

/-- A call of `wait` that has not returned. -/
structure WaitCall (α : Type) where
  data : α
  isTimed : Bool
  point : WaitPoint
  deriving DecidableEq

/-- The state of a thread and its calls of `wait`, innermost first. -/
structure FutexThread (α : Type) where
  state_ : FutexState
  calls : List (WaitCall α)

/-- What a call of `wait` does next. -/
inductive WaitProgress (α : Type)
  | blocks
  | handles
  | returns (a : α) (result : WaitResult)

namespace FutexThread

variable {α : Type}

def idle : FutexThread α := ⟨.Idle, []⟩

variable (t : FutexThread α)

def isWaiting : Bool :=
  t.state_ = .Waiting || t.state_ = .WaitingInterrupted || t.state_ = .WaitingNotifiedForInterrupt

/-- The thread runs code: it is in no call of `wait`, or in an interrupt handler. -/
def isRunning : Bool :=
  match t.calls with
  | [] => true
  | c :: _ => c.point = .handler

/-- The head of `wait`, up to the first release of the lock. -/
def enter (a : α) (isTimed : Bool) (t : FutexThread α) : FutexThread α :=
  if t.state_ = .WaitingInterrupted then { t with calls := ⟨a, isTimed, .errorReport⟩ :: t.calls }
  else ⟨.Waiting, ⟨a, isTimed, .condition⟩ :: t.calls⟩

/-- The error for a wait in an interrupt handler has been reported. -/
def reported : Option (FutexThread α × WaitProgress α) :=
  match t.calls with
  | ⟨a, _, .errorReport⟩ :: calls => some (⟨t.state_, calls⟩, .returns a .Error)
  | _ => none

/-- Back from the condition variable, for whatever reason. -/
def wake (expired : Bool) (t : FutexThread α) : Option (FutexThread α × WaitProgress α) :=
  match t.calls with
  | ⟨a, isTimed, .condition⟩ :: calls =>
    match t.state_ with
    | .Waiting =>
      if isTimed = true ∧ expired = true then some (⟨.Idle, calls⟩, .returns a .TimedOut)
      else some (⟨.Waiting, ⟨a, isTimed, .condition⟩ :: calls⟩, .blocks)
    | .Woken => some (⟨.Idle, calls⟩, .returns a .OK)
    | .WaitingNotifiedForInterrupt =>
      some (⟨.WaitingInterrupted, ⟨a, isTimed, .handler⟩ :: calls⟩, .handles)
    | _ => none
  | _ => none

/-- Back from the interrupt handler, which returns `false` if the script is to be terminated. -/
def handled (result : Bool) (t : FutexThread α) : Option (FutexThread α × WaitProgress α) :=
  match t.calls with
  | ⟨a, isTimed, .handler⟩ :: calls =>
    if result = false then some (⟨.Idle, calls⟩, .returns a .Error)
    else if t.state_ = .Woken then some (⟨.Idle, calls⟩, .returns a .OK)
    else some (⟨.Waiting, ⟨a, isTimed, .condition⟩ :: calls⟩, .blocks)
  | _ => none

/-- `notify`, with whether the condition variable is notified. -/
def notify (reason : NotifyReason) (t : FutexThread α) : FutexThread α × Bool :=
  if (t.state_ = .WaitingInterrupted ∨ t.state_ = .WaitingNotifiedForInterrupt) ∧ reason = .NotifyExplicit then
    (⟨.Woken, t.calls⟩, false)
  else match reason with
    | .NotifyExplicit => (⟨.Woken, t.calls⟩, true)
    | .NotifyForJSInterrupt =>
      if t.state_ = .WaitingNotifiedForInterrupt then (t, false)
      else (⟨.WaitingNotifiedForInterrupt, t.calls⟩, true)

/-- The innermost call is on the condition variable. -/
def OnCondition : Prop := ∃ c calls, t.calls = c :: calls ∧ c.point = .condition

@[simp] lemma notify_calls (reason : NotifyReason) (t : FutexThread α) : (t.notify reason).1.calls = t.calls := by
  unfold notify
  split
  · rfl
  · cases reason with
    | NotifyExplicit => rfl
    | NotifyForJSInterrupt =>
      dsimp only
      split <;> rfl

@[simp] lemma notify_explicit_state : (t.notify .NotifyExplicit).1.state_ = .Woken := by
  unfold notify
  split <;> rfl

lemma notify_notify : ((t.notify .NotifyExplicit).1.notify .NotifyExplicit).1 = (t.notify .NotifyExplicit).1 := by
  have hstate := notify_explicit_state (t.notify .NotifyExplicit).1
  have hcalls := notify_calls .NotifyExplicit (t.notify .NotifyExplicit).1
  rw [← notify_explicit_state t] at hstate
  calc ((t.notify .NotifyExplicit).1.notify .NotifyExplicit).1
      = ⟨((t.notify .NotifyExplicit).1.notify .NotifyExplicit).1.state_,
          ((t.notify .NotifyExplicit).1.notify .NotifyExplicit).1.calls⟩ := rfl
    _ = ⟨(t.notify .NotifyExplicit).1.state_, (t.notify .NotifyExplicit).1.calls⟩ := by simp

@[simp] lemma notify_interrupt_state : (t.notify .NotifyForJSInterrupt).1.state_ = .WaitingNotifiedForInterrupt := by
  unfold notify
  rw [if_neg (by simp)]
  dsimp only
  split_ifs with h
  · exact h
  · rfl

end FutexThread

/-! ## A thread and those that notify it -/

/-- What has happened to a thread. -/
inductive Happening
  | notified (reason : NotifyReason)
  | handlerStarted
  | returned (result : WaitResult)
  deriving DecidableEq

/-- A thread, with whether its condition variable has been notified since it began to wait on it and whether
an interrupt that it was notified of is pending (`JSContext::interruptBits_`). -/
structure FutexRun (α : Type) where
  thread : FutexThread α
  signalled : Bool
  interruptPending : Bool
  history : List Happening

/-- The events of the thread and, at last, those of others. -/
inductive FutexEvent (α : Type)
  | wait (a : α) (isTimed : Bool)
  | wake (expired : Bool)
  | handled (result : Bool)
  | reported
  | checkForInterrupt
  | notify (reason : NotifyReason)

namespace FutexRun

open FutexThread

variable {α : Type}

def init : FutexRun α := ⟨.idle, false, false, []⟩

variable (s : FutexRun α)

/-- `JSContext::handleInterrupt` starts the handler if there is something to handle. -/
def handleInterrupt : FutexRun α :=
  if s.interruptPending = true then
    { s with interruptPending := false, history := s.history ++ [.handlerStarted] }
  else s

/-- A call of `wait` has got on. -/
def proceed : FutexThread α × WaitProgress α → FutexRun α
  | (t, .blocks) => { s with thread := t, signalled := false }
  | (t, .handles) => handleInterrupt { s with thread := t }
  | (t, .returns _ result) => { s with thread := t, history := s.history ++ [.returned result] }

def step : FutexEvent α → FutexRun α → Option (FutexRun α)
  | .wait a isTimed, s =>
    if s.thread.isRunning = true then some { s with thread := s.thread.enter a isTimed, signalled := false }
    else none
  | .wake expired, s => (s.thread.wake expired).map s.proceed
  | .handled result, s => (s.thread.handled result).map s.proceed
  -- a wait that was refused does not count as one that has returned
  | .reported, s => s.thread.reported.map fun p => { s with thread := p.1 }
  | .checkForInterrupt, s => if s.thread.isRunning = true then some s.handleInterrupt else none
  | .notify reason, s =>
    if s.thread.isWaiting = true then
      some
        { thread := (s.thread.notify reason).1
          signalled := s.signalled || (s.thread.notify reason).2
          interruptPending := s.interruptPending || reason = .NotifyForJSInterrupt
          history := s.history ++ [.notified reason] }
    else none

/-! ## Notifications and what they lead to -/

/-- After each interrupt a handler has been started. -/
def InterruptsHandled : List Happening → Prop :=
  Followed (· = .notified .NotifyForJSInterrupt) (· = .handlerStarted)

/-- After each explicit notification `wait` has returned. -/
def ExplicitReturned : List Happening → Prop :=
  Followed (· = .notified .NotifyExplicit) fun y => ∃ result, y = .returned result

/-- The thread sleeps. -/
def Blocked : Prop := s.thread.OnCondition ∧ s.signalled = false

/-- The thread sleeps only if all notifications have had their effect. -/
def NoneLost : Prop :=
  s.Blocked → InterruptsHandled s.history ∧ ExplicitReturned s.history

/-- The thread does not go to sleep with a notification that has had no effect: it does not begin to wait
with an interrupt pending, or in a handler after it has been woken, and no handler returns to `wait` with an
interrupt pending. -/
def Heeds : FutexEvent α → Prop
  | .wait _ _ => s.thread.state_ = .WaitingInterrupted ∨ s.thread.state_ ≠ .Woken ∧ s.interruptPending = false
  | .handled true => s.thread.state_ = .Woken ∨ s.interruptPending = false
  | _ => True

variable {s s' : FutexRun α}

@[simp] lemma interruptsHandled_concat {history : List Happening} {x : Happening} : InterruptsHandled (history ++ [x]) ↔
      x ≠ .notified .NotifyForJSInterrupt ∧ (x = .handlerStarted ∨ InterruptsHandled history) := followed_concat

@[simp] lemma explicitReturned_concat {history : List Happening} {x : Happening} : ExplicitReturned (history ++ [x]) ↔
      x ≠ .notified .NotifyExplicit ∧ ((∃ result, x = .returned result) ∨ ExplicitReturned history) :=
  followed_concat

/-! ## The invariant -/

/-- The notifications that have had no effect yet can be told from the state. -/
structure Sound (s : FutexRun α) : Prop where
  pending : s.interruptPending = false ↔ InterruptsHandled s.history
  woken : s.thread.state_ ≠ .Woken ↔ ExplicitReturned s.history
  waiting : s.thread.OnCondition → s.thread.state_ = .Waiting → s.interruptPending = false
  signalled : s.thread.OnCondition → s.signalled = false → s.thread.state_ = .Waiting
  outer : ∀ c ∈ s.thread.calls.tail, c.point = .handler

lemma sound_init : (init : FutexRun α).Sound where
  pending := ⟨fun _ => followed_nil, fun _ => rfl⟩
  woken := ⟨fun _ => followed_nil, fun _ => by simp [init, idle]⟩
  waiting := by rintro ⟨c, calls, hcalls, -⟩; simp [init, idle] at hcalls
  signalled := by rintro ⟨c, calls, hcalls, -⟩; simp [init, idle] at hcalls
  outer := by simp [init, idle]

section

variable (h : s.Sound)

include h

lemma Sound.noneLost : s.NoneLost := by
  rintro ⟨hcondition, hsignalled⟩
  have hwaiting := h.signalled hcondition hsignalled
  exact ⟨h.pending.1 (h.waiting hcondition hwaiting), h.woken.1 (by simp [hwaiting])⟩

lemma Sound.handleInterrupt (hno : ¬ s.thread.OnCondition) : s.handleInterrupt.Sound := by
  unfold FutexRun.handleInterrupt
  split_ifs with hpending
  · exact ⟨by simp, by simp [h.woken], fun h => absurd h hno, fun h => absurd h hno, h.outer⟩
  · exact h

lemma Sound.block {t : FutexThread α} (hstate : t.state_ = .Waiting)
    (houter : ∀ c ∈ t.calls.tail, c.point = .handler) (hwoken : s.thread.state_ ≠ .Woken)
    (hpending : s.interruptPending = false) : Sound { s with thread := t, signalled := false } where
  pending := h.pending
  woken := ⟨fun _ => h.woken.1 hwoken, fun _ => by simp [hstate]⟩
  waiting _ _ := hpending
  signalled _ _ := hstate
  outer := houter

lemma Sound.finish {c : WaitCall α} {calls : List (WaitCall α)} (hcalls : s.thread.calls = c :: calls)
    (result : WaitResult) :
    Sound { s with thread := ⟨.Idle, calls⟩, history := s.history ++ [.returned result] } := by
  have houter : ∀ c ∈ calls, c.point = .handler := fun c hc => h.outer c (by rw [hcalls]; exact hc)
  have hno : ¬ (⟨.Idle, calls⟩ : FutexThread α).OnCondition := by
    rintro ⟨c, rest, rfl, hpoint⟩
    cases (houter c List.mem_cons_self).symm.trans hpoint
  exact ⟨by simp [h.pending], by simp, fun h => absurd h hno, fun h => absurd h hno,
    fun c hc => houter c (List.mem_of_mem_tail hc)⟩

/-! ## Steps -/

lemma Sound.wait {a : α} {isTimed : Bool} (hrunning : s.thread.isRunning = true)
    (hheeds : s.Heeds (.wait a isTimed)) : Sound { s with thread := s.thread.enter a isTimed, signalled := false } := by
  have houter : ∀ c ∈ s.thread.calls, c.point = .handler := by
    intro c hc
    unfold isRunning at hrunning
    cases hcalls : s.thread.calls with
    | nil => simp [hcalls] at hc
    | cons c' calls =>
      rw [hcalls] at hc hrunning
      obtain rfl | hc := List.mem_cons.1 hc
      · simpa using hrunning
      · exact h.outer c (by rw [hcalls]; exact hc)
  unfold enter
  split_ifs with hstate
  · have hno : ¬ (⟨s.thread.state_, ⟨a, isTimed, .errorReport⟩ :: s.thread.calls⟩ : FutexThread α).OnCondition := by
      rintro ⟨c, calls, hcalls, hpoint⟩
      cases hcalls
      simp at hpoint
    exact ⟨h.pending, h.woken, fun h => absurd h hno, fun h => absurd h hno, houter⟩
  · obtain hinterrupted | ⟨hwoken, hpending⟩ := hheeds
    · exact absurd hinterrupted hstate
    · exact h.block rfl houter hwoken hpending

lemma Sound.wake {expired : Bool} {p : FutexThread α × WaitProgress α}
    (hp : s.thread.wake expired = some p) : (s.proceed p).Sound := by
  unfold FutexThread.wake at hp
  split at hp
  next a isTimed calls hcalls =>
    have hcondition : s.thread.OnCondition := ⟨_, _, hcalls, rfl⟩
    split at hp
    next hstate =>
      split_ifs at hp with htime
      · cases hp
        exact h.finish hcalls .TimedOut
      · cases hp
        exact h.block rfl (fun c hc => h.outer c (by rw [hcalls]; exact hc)) (by simp [hstate])
          (h.waiting hcondition hstate)
    next hstate =>
      cases hp
      exact h.finish hcalls .OK
    next hstate =>
      cases hp
      have hno : ¬ (⟨.WaitingInterrupted, ⟨a, isTimed, .handler⟩ :: calls⟩ : FutexThread α).OnCondition := by
        rintro ⟨c, rest, hrest, hpoint⟩
        cases hrest
        simp at hpoint
      refine Sound.handleInterrupt ⟨h.pending, ?_, fun h => absurd h hno, fun h => absurd h hno, ?_⟩ hno
      · exact ⟨fun _ => h.woken.1 (by simp [hstate]), fun _ => by simp⟩
      · exact fun c hc => h.outer c (by rw [hcalls]; exact hc)
    next => simp at hp
  next => simp at hp

lemma Sound.handled {result : Bool} {p : FutexThread α × WaitProgress α}
    (hp : s.thread.handled result = some p) (hheeds : s.Heeds (.handled result)) : (s.proceed p).Sound := by
  unfold FutexThread.handled at hp
  split at hp
  next a isTimed calls hcalls =>
    split_ifs at hp with hresult hwoken
    · cases hp
      exact h.finish hcalls .Error
    · cases hp
      exact h.finish hcalls .OK
    · cases hp
      obtain rfl : result = true := by simpa using hresult
      exact h.block rfl (fun c hc => h.outer c (by rw [hcalls]; exact hc)) hwoken
        (hheeds.resolve_left hwoken)
  next => simp at hp

lemma Sound.reported {p : FutexThread α × WaitProgress α} (hp : s.thread.reported = some p) :
    Sound { s with thread := p.1 } := by
  unfold FutexThread.reported at hp
  split at hp
  next a isTimed calls hcalls =>
    cases hp
    have houter : ∀ c ∈ calls, c.point = .handler := fun c hc => h.outer c (by rw [hcalls]; exact hc)
    have hno : ¬ (⟨s.thread.state_, calls⟩ : FutexThread α).OnCondition := by
      rintro ⟨c, rest, rfl, hpoint⟩
      cases (houter c List.mem_cons_self).symm.trans hpoint
    exact ⟨h.pending, h.woken, fun h => absurd h hno, fun h => absurd h hno,
      fun c hc => houter c (List.mem_of_mem_tail hc)⟩
  next => simp at hp

lemma Sound.notify (hwaiting : s.thread.isWaiting = true) (reason : NotifyReason) : Sound
      { thread := (s.thread.notify reason).1
        signalled := s.signalled || (s.thread.notify reason).2
        interruptPending := s.interruptPending || reason = .NotifyForJSInterrupt
        history := s.history ++ [.notified reason] } := by
  have hwoken : s.thread.state_ ≠ .Woken := by
    intro heq
    simp [FutexThread.isWaiting, heq] at hwaiting
  have hcondition (hc : (s.thread.notify reason).1.OnCondition) : s.thread.OnCondition := by
    unfold FutexThread.OnCondition at hc ⊢
    rwa [FutexThread.notify_calls] at hc
  have houter : ∀ c ∈ (s.thread.notify reason).1.calls.tail, c.point = .handler := by
    rw [FutexThread.notify_calls]
    exact h.outer
  -- a thread that sleeps is always notified through its condition variable
  have hsignal (hc : (s.thread.notify reason).1.OnCondition)
      (hno : (s.signalled || (s.thread.notify reason).2) = false) : False := by
    obtain ⟨hsignalled, hnotified⟩ := Bool.or_eq_false_iff.1 hno
    have hstate := h.signalled (hcondition hc) hsignalled
    cases reason <;> simp [FutexThread.notify, hstate] at hnotified
  cases reason with
  | NotifyExplicit =>
    exact ⟨by simp [h.pending], by simp, fun _ hstate => by simp at hstate, fun hc hno => (hsignal hc hno).elim, houter⟩
  | NotifyForJSInterrupt =>
    exact ⟨by simp, by simp [← h.woken, hwoken], fun _ hstate => by simp at hstate,
      fun hc hno => (hsignal hc hno).elim, houter⟩

theorem Sound.after {e : FutexEvent α} (hstep : step e s = some s') (hheeds : s.Heeds e) : s'.Sound := by
  cases e with
  | wait a isTimed =>
    simp only [FutexRun.step] at hstep
    split_ifs at hstep with hrunning
    cases hstep
    exact h.wait hrunning hheeds
  | wake expired =>
    obtain ⟨p, hp, rfl⟩ := Option.map_eq_some_iff.1 hstep
    exact h.wake hp
  | handled result =>
    obtain ⟨p, hp, rfl⟩ := Option.map_eq_some_iff.1 hstep
    exact h.handled hp hheeds
  | reported =>
    obtain ⟨p, hp, rfl⟩ := Option.map_eq_some_iff.1 hstep
    exact h.reported hp
  | checkForInterrupt =>
    simp only [FutexRun.step] at hstep
    split_ifs at hstep with hrunning
    cases hstep
    refine h.handleInterrupt ?_
    rintro ⟨c, calls, hcalls, hpoint⟩
    simp [isRunning, hcalls, hpoint] at hrunning
  | notify reason =>
    simp only [FutexRun.step] at hstep
    split_ifs at hstep with hwaiting
    cases hstep
    exact h.notify hwaiting reason

lemma Sound.heeds {e : FutexEvent α} (hstep : step e s = some s') (hnone : s'.NoneLost) : s.Heeds e := by
  cases e with
  | wait a isTimed =>
    simp only [FutexRun.step] at hstep
    split_ifs at hstep with hrunning
    cases hstep
    refine or_iff_not_imp_left.2 fun hstate => ?_
    have hblocked : Blocked { s with thread := s.thread.enter a isTimed, signalled := false } := by
      unfold FutexThread.enter
      rw [if_neg hstate]
      exact ⟨⟨_, _, rfl, rfl⟩, rfl⟩
    obtain ⟨hhandled, hreturned⟩ := hnone hblocked
    exact ⟨h.woken.2 hreturned, h.pending.2 hhandled⟩
  | handled result =>
    cases result with
    | false => trivial
    | true =>
      refine or_iff_not_imp_left.2 fun hwoken => ?_
      obtain ⟨p, hp, rfl⟩ := Option.map_eq_some_iff.1 hstep
      unfold FutexThread.handled at hp
      split at hp
      next a isTimed calls hcalls =>
        rw [if_neg (by simp), if_neg hwoken] at hp
        cases hp
        exact h.pending.2 (hnone ⟨⟨_, _, rfl, rfl⟩, rfl⟩).1
      next => simp at hp
  | _ => trivial

/-! ## Runs -/

end

/-- In every state of a run in which the thread sleeps each interrupt has been followed by a handler and
each explicit notification by a return of `wait` if and only if the thread heeds its notifications at each
step. -/
theorem noneLost_iff {es : List (FutexEvent α)} (h : EventRun.run step es init = some s) :
    EventRun.Always NoneLost step es init ↔ EventRun.Along Heeds step es init :=
  EventRun.always_iff_along (I := Sound) (fun _ h => h.noneLost)
    (fun _ _ _ hs hstep => ⟨fun hheeds => hs.after hstep hheeds, fun hnone => hs.heeds hstep hnone⟩) sound_init h

/-- A second interrupt while the handler runs. -/
def secondInterrupt : List (FutexEvent Unit) :=
  [.wait () false, .notify .NotifyForJSInterrupt, .wake false, .notify .NotifyForJSInterrupt, .handled true]

/-- After the handler the thread sleeps, and no handler has been started for the second interrupt. -/
theorem secondInterrupt_lost : ∃ s, EventRun.run step secondInterrupt init = some s ∧ ¬ s.NoneLost := by
  refine ⟨_, rfl, fun hnone => ?_⟩
  have hblocked : Blocked (α := Unit)
      ⟨⟨.Waiting, [⟨(), false, .condition⟩]⟩, false, true,
        [.notified .NotifyForJSInterrupt, .handlerStarted, .notified .NotifyForJSInterrupt]⟩ := ⟨⟨_, _, rfl, rfl⟩, rfl⟩
  obtain ⟨_, hmem, -⟩ := (hnone hblocked).1 [.notified .NotifyForJSInterrupt, .handlerStarted] _ [] rfl rfl
  simp at hmem

theorem noneLost_iff_secondInterrupt :
    EventRun.Always NoneLost step secondInterrupt init ↔ EventRun.Along Heeds step secondInterrupt init :=
  noneLost_iff (s := ⟨⟨.Waiting, [⟨(), false, .condition⟩]⟩, false, true,
    [.notified .NotifyForJSInterrupt, .handlerStarted, .notified .NotifyForJSInterrupt]⟩) rfl

end FutexRun

end SpiderMonkey
