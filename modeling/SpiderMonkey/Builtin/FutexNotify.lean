import SpiderMonkey.Builtin.FutexWaiters

/-!
# Who is woken

The state of a thread stands for all its calls of `Atomics.wait`.  As long as no call that has been refused,
because it is made in an interrupt handler, is among those that a notification is for, the state says
whether the one call that can be woken has been selected.
-/

namespace SpiderMonkey

open EventRun AgentLog List Function

variable {T B : Type} [DecidableEq T] [DecidableEq B]

/-! ## The state of a thread and its calls -/

/-- A thread waits in one call, which has been selected if and only if the thread has been woken; in the
interrupt handler another call may have been refused. -/
inductive Orderly (selected : List ℕ) : FutexThread (AtomicsWaitCall T B) → Prop
  | idle : Orderly selected .idle
  | waiting {call : AtomicsWaitCall T B} {isTimed : Bool} {state : FutexState}
      (hstate : state = .Waiting ∨ state = .WaitingNotifiedForInterrupt ∨ state = .Woken)
      (hselected : state = .Woken ↔ call.w ∈ selected) : Orderly selected ⟨state, [⟨call, isTimed, .condition⟩]⟩
  | handling {call : AtomicsWaitCall T B} {isTimed : Bool} {state : FutexState}
      (hstate : state = .WaitingInterrupted ∨ state = .WaitingNotifiedForInterrupt ∨ state = .Woken)
      (hselected : state = .Woken ↔ call.w ∈ selected) : Orderly selected ⟨state, [⟨call, isTimed, .handler⟩]⟩
  | refused {call r : AtomicsWaitCall T B} {isTimed isTimed' : Bool} {state : FutexState}
      (hstate : state = .WaitingInterrupted ∨ state = .WaitingNotifiedForInterrupt ∨ state = .Woken)
      (hselected : state = .Woken ↔ call.w ∈ selected) (hrefused : r.w ∉ selected) :
      Orderly selected ⟨state, [⟨r, isTimed', .errorReport⟩, ⟨call, isTimed, .handler⟩]⟩

/-- A call that has got on, and if it returns, with the right result. -/
def Fair (selected : List ℕ) (terminated : Bool)
    (p : FutexThread (AtomicsWaitCall T B) × WaitProgress (AtomicsWaitCall T B)) : Prop :=
  Orderly selected p.1 ∧ ∀ call result, p.2 = .returns call result →
    (result = .OK → call.w ∈ selected) ∧ (call.w ∈ selected → result = .OK ∨ terminated = true)

namespace Orderly

open FutexThread

variable {selected : List ℕ} {t : FutexThread (AtomicsWaitCall T B)}
  {p : FutexThread (AtomicsWaitCall T B) × WaitProgress (AtomicsWaitCall T B)}

section

omit [DecidableEq T] [DecidableEq B]

lemma enter (h : Orderly selected t) (hrunning : t.isRunning = true)
    (hstate : t.state_ = .Idle ∨ t.state_ = .WaitingInterrupted) {call : AtomicsWaitCall T B}
    (hcall : call.w ∉ selected) (isTimed : Bool) : Orderly selected (t.enter call isTimed) := by
  cases h with
  | idle => exact .waiting (.inl rfl) (by simp [hcall])
  | waiting hs hsel => simp [isRunning] at hrunning
  | @handling call' isTimed' state hs hsel =>
    obtain rfl : state = .WaitingInterrupted := by
      obtain rfl | rfl := hstate
      · simp at hs
      · rfl
    exact .refused hs hsel hcall
  | refused hs hsel hr => simp [isRunning] at hrunning

lemma wake (h : Orderly selected t) {expired : Bool} (hp : t.wake expired = some p) : Fair selected false p := by
  cases h with
  | idle => simp [FutexThread.wake, FutexThread.idle] at hp
  | @waiting call isTimed state hs hsel =>
    obtain rfl | rfl | rfl := hs
    · have hno : call.w ∉ selected := fun hmem => by simpa using hsel.2 hmem
      simp only [FutexThread.wake] at hp
      split_ifs at hp <;> obtain rfl := Option.some.inj hp
      · refine ⟨.idle, fun call' result heq => ?_⟩
        cases heq
        exact ⟨by simp, fun hmem => absurd hmem hno⟩
      · exact ⟨.waiting (.inl rfl) hsel, by simp⟩
    · cases hp
      have hno : call.w ∉ selected := fun hmem => by simpa using hsel.2 hmem
      exact ⟨.handling (.inl rfl) (by simp [hno]), by simp⟩
    · cases hp
      refine ⟨.idle, fun call' result heq => ?_⟩
      cases heq
      exact ⟨fun _ => hsel.1 rfl, fun _ => .inl rfl⟩
  | handling hs hsel => simp [FutexThread.wake] at hp
  | refused hs hsel hr => simp [FutexThread.wake] at hp

lemma handled (h : Orderly selected t) {result : Bool} (hp : t.handled result = some p) :
    Fair selected (!result) p := by
  cases h with
  | idle => simp [FutexThread.handled, FutexThread.idle] at hp
  | waiting hs hsel => simp [FutexThread.handled] at hp
  | @handling call isTimed state hs hsel =>
    simp only [FutexThread.handled] at hp
    split_ifs at hp with hresult hwoken <;> obtain rfl := Option.some.inj hp
    · refine ⟨.idle, fun call' result' heq => ?_⟩
      cases heq
      exact ⟨by simp, fun _ => .inr (by simp [hresult])⟩
    · refine ⟨.idle, fun call' result' heq => ?_⟩
      cases heq
      exact ⟨fun _ => hsel.1 hwoken, fun _ => .inl rfl⟩
    · have hno : call.w ∉ selected := fun hmem => hwoken (hsel.2 hmem)
      exact ⟨.waiting (.inl rfl) (by simp [hno]), by simp⟩
  | refused hs hsel hr => simp [FutexThread.handled] at hp

lemma reported (h : Orderly selected t) (hp : t.reported = some p) : Fair selected false p := by
  cases h with
  | idle => simp [FutexThread.reported, FutexThread.idle] at hp
  | waiting hs hsel => simp [FutexThread.reported] at hp
  | handling hs hsel => simp [FutexThread.reported] at hp
  | refused hs hsel hr =>
    cases hp
    refine ⟨.handling hs hsel, fun call' result heq => ?_⟩
    cases heq
    simp [hr]

lemma interrupt (h : Orderly selected t) (hwaiting : t.isWaiting = true) :
    Orderly selected (t.notify .NotifyForJSInterrupt).1 := by
  have hstate : t.state_ ≠ .Woken := fun heq => by simp [isWaiting, heq] at hwaiting
  have hnotified : (t.notify .NotifyForJSInterrupt).1 = ⟨.WaitingNotifiedForInterrupt, t.calls⟩ := by
    rw [← notify_interrupt_state t, ← notify_calls .NotifyForJSInterrupt t]
  rw [hnotified]
  cases h with
  | idle => simp [isWaiting, FutexThread.idle] at hwaiting
  | waiting hs hsel => exact .waiting (.inr (.inl rfl)) (by simpa [hstate] using hsel)
  | handling hs hsel => exact .handling (.inr (.inl rfl)) (by simpa [hstate] using hsel)
  | refused hs hsel hr => exact .refused (.inr (.inl rfl)) (by simpa [hstate] using hsel) hr

/-- A thread that has a call is woken exactly if the call that was not refused has been selected. -/
lemma isWaiting_iff (h : Orderly selected t) {c : WaitCall (AtomicsWaitCall T B)} (hc : c ∈ t.calls)
    (hpoint : c.point ≠ .errorReport) : t.isWaiting = true ↔ c.data.w ∉ selected := by
  cases h with
  | idle => simp [FutexThread.idle] at hc
  | waiting hs hsel =>
    obtain rfl := mem_singleton.1 hc
    rw [← hsel]
    obtain rfl | rfl | rfl := hs <;> simp [isWaiting]
  | handling hs hsel =>
    obtain rfl := mem_singleton.1 hc
    rw [← hsel]
    obtain rfl | rfl | rfl := hs <;> simp [isWaiting]
  | refused hs hsel hr =>
    obtain rfl | hc := mem_cons.1 hc
    · exact absurd rfl hpoint
    · obtain rfl := mem_singleton.1 hc
      rw [← hsel]
      obtain rfl | rfl | rfl := hs <;> simp [isWaiting]

lemma woken (h : Orderly selected t) {c : WaitCall (AtomicsWaitCall T B)} (hc : c ∈ t.calls)
    (hpoint : c.point ≠ .errorReport) (hselected : c.data.w ∈ selected) : t.state_ = .Woken := by
  cases h with
  | idle => simp [FutexThread.idle] at hc
  | waiting hs hsel =>
    obtain rfl := mem_singleton.1 hc
    exact hsel.2 hselected
  | handling hs hsel =>
    obtain rfl := mem_singleton.1 hc
    exact hsel.2 hselected
  | refused hs hsel hr =>
    obtain rfl | hc := mem_cons.1 hc
    · exact absurd rfl hpoint
    · obtain rfl := mem_singleton.1 hc
      exact hsel.2 hselected

lemma not_selected (h : Orderly selected t) {c : WaitCall (AtomicsWaitCall T B)} (hc : c ∈ t.calls)
    (hpoint : c.point = .errorReport) : c.data.w ∉ selected := by
  cases h with
  | idle => simp [FutexThread.idle] at hc
  | waiting hs hsel =>
    obtain rfl := mem_singleton.1 hc
    simp at hpoint
  | handling hs hsel =>
    obtain rfl := mem_singleton.1 hc
    simp at hpoint
  | refused hs hsel hr =>
    obtain rfl | hc := mem_cons.1 hc
    · exact hr
    · obtain rfl := mem_singleton.1 hc
      simp at hpoint

lemma eq_of_mem (h : Orderly selected t) {c c' : WaitCall (AtomicsWaitCall T B)} (hc : c ∈ t.calls)
    (hc' : c' ∈ t.calls) (hpoint : c.point ≠ .errorReport) (hpoint' : c'.point ≠ .errorReport) : c = c' := by
  cases h with
  | idle => simp [FutexThread.idle] at hc
  | waiting hs hsel => rw [mem_singleton.1 hc, mem_singleton.1 hc']
  | handling hs hsel => rw [mem_singleton.1 hc, mem_singleton.1 hc']
  | refused hs hsel hr =>
    obtain rfl | hc := mem_cons.1 hc
    · exact absurd rfl hpoint
    · obtain rfl | hc' := mem_cons.1 hc'
      · exact absurd rfl hpoint'
      · rw [mem_singleton.1 hc, mem_singleton.1 hc']

lemma mono (h : Orderly selected t) {new : List ℕ} (hnew : ∀ call ∈ t.data, call.w ∉ new) :
    Orderly (selected ++ new) t := by
  cases h with
  | idle => exact .idle
  | waiting hs hsel =>
    have := hnew _ mem_cons_self
    exact .waiting hs (by simp [hsel, this])
  | handling hs hsel =>
    have := hnew _ mem_cons_self
    exact .handling hs (by simp [hsel, this])
  | @refused call r _ _ _ hs hsel hr =>
    have hr' := hnew r mem_cons_self
    have := hnew call (mem_cons_of_mem _ mem_cons_self)
    exact .refused hs (by simp [hsel, this]) (by simp [hr, hr'])

lemma select (h : Orderly selected t) {new : List ℕ} {c : WaitCall (AtomicsWaitCall T B)} (hc : c ∈ t.calls)
    (hpoint : c.point ≠ .errorReport) (hselected : c.data.w ∈ new)
    (hrefused : ∀ r ∈ t.calls, r.point = .errorReport → r.data.w ∉ new) :
    Orderly (selected ++ new) (t.notify .NotifyExplicit).1 := by
  have hnotified : (t.notify .NotifyExplicit).1 = ⟨.Woken, t.calls⟩ := by
    rw [← notify_explicit_state t, ← notify_calls .NotifyExplicit t]
  have hmem : c.data.w ∈ selected ++ new := mem_append_right _ hselected
  rw [hnotified]
  cases h with
  | idle => simp [FutexThread.idle] at hc
  | waiting hs hsel =>
    obtain rfl := mem_singleton.1 hc
    exact .waiting (.inr (.inr rfl)) ⟨fun _ => hmem, fun _ => rfl⟩
  | handling hs hsel =>
    obtain rfl := mem_singleton.1 hc
    exact .handling (.inr (.inr rfl)) ⟨fun _ => hmem, fun _ => rfl⟩
  | refused hs hsel hr =>
    obtain rfl | hc := mem_cons.1 hc
    · exact absurd rfl hpoint
    · obtain rfl := mem_singleton.1 hc
      refine .refused (.inr (.inr rfl)) ⟨fun _ => hmem, fun _ => rfl⟩ fun hmem => ?_
      exact (mem_append.1 hmem).elim hr (hrefused _ mem_cons_self rfl)

end

end Orderly

/-! ## Notifying the waiters at a location -/

namespace Agents

open AtomicsWaitCall

/-- A call has been refused, and the error is being reported. -/
def Refused (s : Agents T B) (call : AtomicsWaitCall T B) : Prop :=
  ∃ c ∈ (s.fx call.cx).calls, c.data = call ∧ c.point = .errorReport

variable {s s' : Agents T B} {fx : T → FutexThread (AtomicsWaitCall T B)} {x : AtomicsWaitCall T B}
  {rest : List (AtomicsWaitCall T B)} {old : List ℕ}

/-- What the loop finds: the calls from one on, of which those that have not been refused can be told by the
states of their threads. -/
structure Ready (s : Agents T B) (old : List ℕ) (fx : T → FutexThread (AtomicsWaitCall T B))
    (rest : List (AtomicsWaitCall T B)) : Prop where
  fields : ∀ y ∈ rest, s.offset y.w = y.byteOffset ∧ s.cx y.w = y.cx
  waits : ∀ y ∈ rest, ¬ s.Refused y → ((fx y.cx).isWaiting = true ↔ y.w ∉ old)
  refused : ∀ y ∈ rest, s.Refused y → y.w ∉ old
  own : ∀ y ∈ rest, ∀ z ∈ rest, ¬ s.Refused y → ¬ s.Refused z → y.cx = z.cx → y = z
  nodup : rest.Nodup

omit [DecidableEq T] [DecidableEq B] in
lemma Ready.tail (h : s.Ready old fx (x :: rest)) : s.Ready old fx rest where
  fields y hy := h.fields y (mem_cons_of_mem _ hy)
  waits y hy := h.waits y (mem_cons_of_mem _ hy)
  refused y hy := h.refused y (mem_cons_of_mem _ hy)
  own y hy z hz := h.own y (mem_cons_of_mem _ hy) z (mem_cons_of_mem _ hz)
  nodup := (nodup_cons.1 h.nodup).2

omit [DecidableEq B] in
/-- A thread that is notified has no other call that can be woken. -/
lemma Ready.notify (h : s.Ready old fx (x :: rest)) (hx : ¬ s.Refused x)
    (thread : FutexThread (AtomicsWaitCall T B)) : s.Ready old (Function.update fx x.cx thread) rest := by
  refine { h.tail with waits := fun y hy hrefused => ?_ }
  have hne : y.cx ≠ x.cx := fun heq => by
    have := h.own y (mem_cons_of_mem _ hy) x mem_cons_self hrefused hx heq
    exact (nodup_cons.1 h.nodup).1 (this ▸ hy)
  rw [update_of_ne hne]
  exact h.waits y (mem_cons_of_mem _ hy) hrefused

/-- The threads of some calls have been notified. -/
def notifyAll (calls : List (AtomicsWaitCall T B)) (fx : T → FutexThread (AtomicsWaitCall T B)) (t : T) :
    FutexThread (AtomicsWaitCall T B) :=
  if t ∈ calls.map AtomicsWaitCall.cx then ((fx t).notify .NotifyExplicit).1 else fx t

section

omit [DecidableEq B]

@[simp] lemma notifyAll_nil : notifyAll [] fx = fx := by
  funext t
  simp [notifyAll]

lemma notifyAll_cons (x : AtomicsWaitCall T B) (calls : List (AtomicsWaitCall T B)) :
    notifyAll (x :: calls) fx = notifyAll calls (Function.update fx x.cx ((fx x.cx).notify .NotifyExplicit).1) := by
  funext t
  unfold notifyAll
  by_cases ht : t = x.cx
  · subst ht
    rw [if_pos (by simp), update_self]
    split_ifs
    · -- a thread that has been notified can be notified once more
      exact (FutexThread.notify_notify _).symm
    · rfl
  · simp [ht]

/-- The loop notifies the threads of the first calls at the location that have not been selected before. -/
theorem notifyLoop_eq {byteOffset waiters fuel : ℕ} {before : List ℕ} {count : ℤ} {selected : List ℕ}
    {p : (T → FutexThread (AtomicsWaitCall T B)) × List ℕ} (hready : s.Ready old fx (x :: rest))
    (hcircle : IsCircle s.lower_pri s.back (some waiters) (before ++ x.w :: rest.map AtomicsWaitCall.w))
    (hcount : count ≠ 0)
    (hrefused : ∀ y ∈ firsts count ((x :: rest).filter fun y => y.byteOffset = byteOffset ∧ y.w ∉ old), ¬ s.Refused y)
    (hp : notifyLoop s byteOffset waiters fuel x.w count fx selected = some p) :
    p = (notifyAll (firsts count ((x :: rest).filter fun y => y.byteOffset = byteOffset ∧ y.w ∉ old)) fx,
      selected ++ (firsts count ((x :: rest).filter fun y => y.byteOffset = byteOffset ∧ y.w ∉ old)).map
        AtomicsWaitCall.w) := by
  induction fuel generalizing x rest fx before count selected with
  | zero => simp [notifyLoop] at hp
  | succ fuel ih =>
    obtain ⟨hoffset, hcx⟩ := hready.fields x mem_cons_self
    -- the loop ends with the last record, or it goes on with the next one
    have hrest {count : ℤ} {fx : T → FutexThread (AtomicsWaitCall T B)} {selected : List ℕ}
        (hready : s.Ready old fx rest)
        (hrefused : ∀ y ∈ firsts count (rest.filter fun y => y.byteOffset = byteOffset ∧ y.w ∉ old), ¬ s.Refused y)
        (hp : (if count ≠ 0 ∧ s.lower_pri x.w ≠ waiters then
          notifyLoop s byteOffset waiters fuel (s.lower_pri x.w) count fx selected
          else some (fx, selected)) = some p) :
        p = (notifyAll (firsts count (rest.filter fun y => y.byteOffset = byteOffset ∧ y.w ∉ old)) fx,
          selected ++ (firsts count (rest.filter fun y => y.byteOffset = byteOffset ∧ y.w ∉ old)).map
            AtomicsWaitCall.w) := by
      by_cases hzero : count = 0
      · rw [if_neg (by simp [hzero])] at hp
        simp [hzero, ← Option.some.inj hp]
      cases rest with
      | nil =>
        have hlast := Option.some.inj hcircle.next_last
        rw [if_neg (by simp [← hlast])] at hp
        simp [← Option.some.inj hp]
      | cons y rest =>
        have hnext : s.lower_pri x.w = y.w := hcircle.next_eq
        have hne : y.w ≠ waiters := hcircle.ne_head
        rw [hnext, if_pos ⟨hzero, hne⟩] at hp
        have hcircle' : IsCircle s.lower_pri s.back (some waiters)
            ((before ++ [x.w]) ++ y.w :: rest.map AtomicsWaitCall.w) := by simpa using hcircle
        exact ih hready hcircle' hzero hrefused hp
    unfold notifyLoop at hp
    rw [hoffset, hcx] at hp
    by_cases hsel : x.byteOffset = byteOffset ∧ x.w ∉ old
    · rw [filter_cons_of_pos (by simpa using hsel), firsts_cons hcount] at hrefused ⊢
      have hx := hrefused x mem_cons_self
      have hwaits := (hready.waits x mem_cons_self hx).2 hsel.2
      rw [if_neg (by simp [hsel.1, hwaits])] at hp
      by_cases hlimit : 2 ^ 63 - 1 ≤ selected.length
      · rw [if_pos hlimit] at hp
        cases hp
      rw [if_neg hlimit] at hp
      rw [notifyAll_cons, map_cons, append_cons]
      exact hrest (hready.notify hx _) (fun y hy => hrefused y (mem_cons_of_mem _ hy)) hp
    · rw [filter_cons_of_neg (by simpa using hsel)] at hrefused ⊢
      have hskip : x.byteOffset ≠ byteOffset ∨ (fx x.cx).isWaiting = false := by
        refine or_iff_not_imp_left.2 fun hoff => ?_
        have hold : x.w ∈ old := by
          by_contra hno
          exact hsel ⟨not_not.1 hoff, hno⟩
        have hx : ¬ s.Refused x := fun h => hready.refused x mem_cons_self h hold
        exact Bool.eq_false_iff.2 fun h => (hready.waits x mem_cons_self hx).1 h hold
      rw [if_pos hskip] at hp
      exact hrest hready.tail hrefused hp

/-- The loop ends, and no more records are counted than there are. -/
theorem notifyLoop_ends {byteOffset waiters fuel w : ℕ} {before after : List ℕ} {count : ℤ} {selected : List ℕ}
    (hcircle : IsCircle s.lower_pri s.back (some waiters) (before ++ w :: after)) (hfuel : after.length < fuel)
    (hlimit : selected.length + after.length < 2 ^ 63 - 1) :
    ∃ p, notifyLoop s byteOffset waiters fuel w count fx selected = some p := by
  induction fuel generalizing w after fx before count selected with
  | zero => omega
  | succ fuel ih =>
    have hrest (count : ℤ) (fx : T → FutexThread (AtomicsWaitCall T B)) (selected' : List ℕ)
        (hlength : selected'.length ≤ selected.length + 1) :
        ∃ p, (if count ≠ 0 ∧ s.lower_pri w ≠ waiters then
          notifyLoop s byteOffset waiters fuel (s.lower_pri w) count fx selected'
          else some (fx, selected')) = some p := by
      split_ifs with hnext
      · cases after with
        | nil => exact absurd (Option.some.inj hcircle.next_last).symm hnext.2
        | cons b after =>
          rw [length_cons] at hfuel hlimit
          rw [hcircle.next_eq]
          have hcircle' : IsCircle s.lower_pri s.back (some waiters) ((before ++ [w]) ++ b :: after) := by
            simpa using hcircle
          exact ih hcircle' (by omega) (by omega)
      · exact ⟨_, rfl⟩
    unfold notifyLoop
    by_cases hskip : s.offset w ≠ byteOffset ∨ (fx (s.cx w)).isWaiting = false
    · rw [if_pos hskip]
      exact hrest count fx selected (by omega)
    · rw [if_neg hskip, if_neg (by omega)]
      exact hrest _ _ _ (by simp)

/-! ## Every notification counts the right calls -/

end

/-- What a notification selects are the first calls at the location that have not been notified before. -/
def Chosen (before : List (AgentHappening T B)) : AgentHappening T B → Prop
  | .notified sarb byteOffset count woken selected =>
    woken = selected.length ∧ selected = (toNotify before sarb byteOffset count).map w
  | _ => True

structure Counted (s : Agents T B) : Prop where
  orderly : ∀ t, Orderly (selections s.log) (s.fx t)
  chosen : Justified Chosen s.log
  once : (selections s.log).Nodup
  results : ∀ call result terminated, .returned call result terminated ∈ s.log →
    (result = .OK → call.w ∈ selections s.log) ∧ (call.w ∈ selections s.log → result = .OK ∨ terminated = true)

/-- The steps with which the state of a thread keeps standing for the call that waits: no call begins to wait
in an interrupt handler except to be refused, and no notification is for a call that has been refused. -/
def Heeds (s : Agents T B) : AgentEvent T B → Prop
  | .wait t _ _ equal _ => s.canWait t = true → equal = true →
    (s.fx t).state_ = .Idle ∨ (s.fx t).state_ = .WaitingInterrupted
  | .notify _ sarb byteOffset count => ∀ call ∈ toNotify s.log sarb byteOffset count, ¬ s.Refused call
  | _ => True

lemma mem_toNotify {log : List (AgentHappening T B)} {sarb : B} {byteOffset : ℕ} {count : ℤ}
    {call : AtomicsWaitCall T B} (h : call ∈ toNotify log sarb byteOffset count) :
    call ∈ pending log sarb ∧ call.byteOffset = byteOffset ∧ call.w ∉ selections log := by
  have hmem := (firsts_sublist count _).mem h
  simpa [unnotified] using hmem

omit [DecidableEq T] [DecidableEq B] in
lemma mem_selections {log : List (AgentHappening T B)} {w : ℕ} : w ∈ selections log ↔
    ∃ sarb byteOffset count woken selected, .notified sarb byteOffset count woken selected ∈ log ∧ w ∈ selected := by
  unfold selections
  rw [mem_flatMap]
  constructor
  · rintro ⟨happening, hmem, hw⟩
    cases happening with
    | notified sarb byteOffset count woken selected => exact ⟨_, _, _, _, _, hmem, hw⟩
    | waited call => simp at hw
    | returned call result terminated => simp at hw
  · rintro ⟨sarb, byteOffset, count, woken, selected, hmem, hw⟩
    exact ⟨_, hmem, hw⟩

omit [DecidableEq T] [DecidableEq B] in
lemma waits_append (before after : List (AgentHappening T B)) :
    waits (before ++ after) = waits before ++ waits after := filterMap_append ..

namespace Linked

omit [DecidableEq T] [DecidableEq B] in
lemma mem_data {t : T} {call : AtomicsWaitCall T B} : call ∈ (s.fx t).data ↔ ∃ c ∈ (s.fx t).calls, c.data = call :=
  mem_map

lemma mem_calls (h : s.Linked) {sarb : B} {call : AtomicsWaitCall T B} (hcall : call ∈ pending s.log sarb) :
    ∃ c ∈ (s.fx call.cx).calls, c.data = call := by
  obtain ⟨hwaits, rfl, hreturned⟩ := mem_pending.1 hcall
  exact mem_data.1 ((h.calls call).1 hcall)

lemma length_le (h : s.Linked) (sarb : B) : (pending s.log sarb).length ≤ s.fresh := by
  have hsub : (pending s.log sarb).map w ⊆ List.range s.fresh := fun w hw => by
    obtain ⟨call, hcall, rfl⟩ := mem_map.1 hw
    exact mem_range.2 (h.fresh call (mem_pending.1 hcall).1)
  simpa using ((h.circles sarb).nodup.subperm hsub).length_le

/-- A notification comes to an end. -/
theorem atomicsNotify_ends (h : s.Linked) (hlimit : s.fresh < 2 ^ 63) (sarb : B) (byteOffset : ℕ) (count : ℤ) :
    ∃ p, s.atomicsNotify sarb byteOffset count = some p := by
  unfold atomicsNotify
  have hcircle := h.circles sarb
  have hlength := h.length_le sarb
  cases hwaiters : s.waiters sarb with
  | none => exact ⟨_, rfl⟩
  | some waiters =>
    dsimp only
    split_ifs with hcount
    · cases hpending : pending s.log sarb with
      | nil =>
        have := hcircle.head_eq
        simp [hpending, hwaiters] at this
      | cons x rest =>
        rw [hpending, hwaiters] at hcircle
        rw [hpending, length_cons] at hlength
        have hx : waiters = x.w := by simpa using hcircle.head_eq
        rw [map_cons, ← hx] at hcircle
        rw [← nil_append (waiters :: _)] at hcircle
        exact notifyLoop_ends hcircle (by simpa using hlength)
          (by simp only [length_nil, length_map]; omega)
    · exact ⟨_, rfl⟩

end Linked

namespace Counted

open EventRun

section

variable (h : s.Counted)

include h

lemma refused_not_selected {call : AtomicsWaitCall T B} (hcall : s.Refused call) : call.w ∉ selections s.log := by
  obtain ⟨c, hc, rfl, hpoint⟩ := hcall
  exact (h.orderly _).not_selected hc hpoint

lemma ready (hl : s.Linked) (sarb : B) : s.Ready (selections s.log) s.fx (pending s.log sarb) where
  fields y hy := hl.fields y (mem_pending.1 hy).1
  waits y hy hrefused := by
    obtain ⟨c, hc, hdata⟩ := hl.mem_calls hy
    rw [(h.orderly y.cx).isWaiting_iff hc fun hpoint => hrefused ⟨c, hc, hdata, hpoint⟩, hdata]
  refused y _ hrefused := h.refused_not_selected hrefused
  own y hy z hz hry hrz heq := by
    obtain ⟨c, hc, hdata⟩ := hl.mem_calls hy
    obtain ⟨c', hc', hdata'⟩ := hl.mem_calls hz
    rw [← heq] at hc'
    rw [← hdata, ← hdata', (h.orderly y.cx).eq_of_mem hc hc' (fun hpoint => hry ⟨c, hc, hdata, hpoint⟩)
      fun hpoint => hrz ⟨c', heq ▸ hc', hdata', hpoint⟩]
  nodup := (hl.circles sarb).nodup.of_map

/-- A notification notifies the threads of the calls that it is for. -/
theorem atomicsNotify_eq (hl : s.Linked) {sarb : B} {byteOffset : ℕ} {count : ℤ}
    {p : (T → FutexThread (AtomicsWaitCall T B)) × List ℕ}
    (hrefused : ∀ call ∈ toNotify s.log sarb byteOffset count, ¬ s.Refused call)
    (hp : s.atomicsNotify sarb byteOffset count = some p) :
    p = (notifyAll (toNotify s.log sarb byteOffset count) s.fx,
      (toNotify s.log sarb byteOffset count).map AtomicsWaitCall.w) := by
  have hcircle := hl.circles sarb
  unfold atomicsNotify at hp
  unfold toNotify unnotified at hrefused ⊢
  cases hpending : pending s.log sarb with
  | nil =>
    rw [hpending] at hcircle
    rw [hcircle.head_eq] at hp
    simp [← Option.some.inj hp]
  | cons x rest =>
    have hready := h.ready hl sarb
    rw [hpending] at hready hcircle hrefused
    have hhead : s.waiters sarb = some x.w := by simpa using hcircle.head_eq
    rw [hhead] at hp hcircle
    dsimp only at hp
    split_ifs at hp with hcount
    · rw [map_cons, ← nil_append (x.w :: _)] at hcircle
      exact notifyLoop_eq hready hcircle hcount hrefused hp
    · rw [not_not.1 hcount]
      simp [← Option.some.inj hp]

lemma orderly_notifyAll (hl : s.Linked) {sarb : B} {byteOffset : ℕ} {count : ℤ}
    (hrefused : ∀ call ∈ toNotify s.log sarb byteOffset count, ¬ s.Refused call) (t : T) :
    Orderly (selections s.log ++ (toNotify s.log sarb byteOffset count).map AtomicsWaitCall.w)
      (notifyAll (toNotify s.log sarb byteOffset count) s.fx t) := by
  have hwaits {call : AtomicsWaitCall T B} (hcall : call ∈ toNotify s.log sarb byteOffset count) :
      call ∈ waits s.log := (mem_pending.1 (mem_toNotify hcall).1).1
  -- the records of a thread that are selected belong to calls that the notification is for
  have hself {call : AtomicsWaitCall T B} (hcall : call ∈ (s.fx t).data)
      (hmem : call.w ∈ (toNotify s.log sarb byteOffset count).map AtomicsWaitCall.w) :
      call ∈ toNotify s.log sarb byteOffset count := by
    obtain ⟨z, hz, heq⟩ := mem_map.1 hmem
    exact hl.inj (hwaits hz) (hl.mem_waits hcall) heq ▸ hz
  unfold notifyAll
  split_ifs with ht
  · obtain ⟨call, hcall, rfl⟩ := mem_map.1 ht
    obtain ⟨c, hc, hdata⟩ := hl.mem_calls (mem_toNotify hcall).1
    refine (h.orderly _).select hc (fun hpoint => hrefused call hcall ⟨c, hc, hdata, hpoint⟩)
      (hdata ▸ mem_map_of_mem hcall) fun r hr hpoint hmem => ?_
    have hrdata := Linked.mem_data.2 ⟨r, hr, rfl⟩
    refine hrefused r.data (hself hrdata hmem) ⟨r, ?_, rfl, hpoint⟩
    rwa [hl.own _ r.data hrdata]
  · refine (h.orderly t).mono fun call hcall hmem => ht ?_
    exact mem_map.2 ⟨call, hself hcall hmem, hl.own t call hcall⟩

lemma exists_waited {w : ℕ} (hw : w ∈ selections s.log) : ∃ call ∈ waits s.log, call.w = w ∧ ∃ count woken selected,
      .notified call.sarb call.byteOffset count woken selected ∈ s.log ∧ w ∈ selected := by
  obtain ⟨sarb, byteOffset, count, woken, selected, hmem, hw⟩ := mem_selections.1 hw
  obtain ⟨before, after, hlog, -, rfl⟩ := h.chosen.of_mem hmem
  obtain ⟨call, hcall, rfl⟩ := mem_map.1 hw
  obtain ⟨hpending, rfl, -⟩ := mem_toNotify hcall
  obtain ⟨hwaits, rfl, -⟩ := mem_pending.1 hpending
  refine ⟨call, ?_, rfl, count, woken, _, hmem, hw⟩
  rw [hlog, waits_append]
  simp [hwaits]

lemma update {t : T} {thread : FutexThread (AtomicsWaitCall T B)}
    (hthread : Orderly (selections s.log) thread) : Counted { s with fx := Function.update s.fx t thread } where
  orderly t' := by
    change Orderly (selections s.log) (Function.update s.fx t thread t')
    by_cases ht : t' = t
    · simp [ht, hthread]
    · rw [update_of_ne ht]
      exact h.orderly t'
  chosen := h.chosen
  once := h.once
  results := h.results

theorem arrive (hl : s.Linked) {call : AtomicsWaitCall T B} (hw : call.w = s.fresh) (isTimed : Bool)
    (hrunning : (s.fx call.cx).isRunning = true)
    (hstate : (s.fx call.cx).state_ = .Idle ∨ (s.fx call.cx).state_ = .WaitingInterrupted) :
    (s.arrive call isTimed).Counted := by
  have hnew : call.w ∉ selections s.log := fun hmem => by
    obtain ⟨x, hx, heq, -⟩ := h.exists_waited hmem
    have := hl.fresh x hx
    omega
  have hlog : (s.arrive call isTimed).log = s.log ++ [AgentHappening.waited call] := rfl
  have hthread := (h.orderly call.cx).enter hrunning hstate hnew isTimed
  refine ⟨fun t => ?_, ?_, ?_, fun x result terminated hmem => ?_⟩
  · rw [hlog, selections_waited]
    exact (h.update hthread).orderly t
  · exact hlog ▸ justified_concat.2 ⟨h.chosen, trivial⟩
  · rw [hlog, selections_waited]
    exact h.once
  · rw [hlog, mem_append] at hmem
    rw [hlog, selections_waited]
    exact h.results x result terminated (hmem.resolve_right (by simp))

theorem proceed {t : T} {terminated : Bool}
    {p : FutexThread (AtomicsWaitCall T B) × WaitProgress (AtomicsWaitCall T B)}
    (hp : Fair (selections s.log) terminated p) : (s.proceed t terminated p).Counted := by
  obtain ⟨thread, progress⟩ := p
  obtain ⟨hthread, hresult⟩ := hp
  have hupdate := h.update (t := t) hthread
  cases progress with
  | blocks => exact hupdate
  | handles => exact hupdate
  | returns call result =>
    have hlog : (s.proceed t terminated (thread, .returns call result)).log =
        s.log ++ [AgentHappening.returned call result terminated] := rfl
    refine ⟨fun t' => ?_, ?_, ?_, fun x result' terminated' hmem => ?_⟩
    · change Orderly (selections (s.log ++ [_])) ((unlink _ _ _).fx t')
      simpa using hupdate.orderly t'
    · exact hlog ▸ justified_concat.2 ⟨h.chosen, trivial⟩
    · rw [hlog, selections_returned]
      exact h.once
    · rw [hlog, mem_append, mem_singleton] at hmem
      rw [hlog, selections_returned]
      obtain hmem | heq := hmem
      · exact h.results x result' terminated' hmem
      · cases heq
        exact hresult _ _ rfl

/-- A notification that is for no refused call. -/
theorem notified (hl : s.Linked) {sarb : B} {byteOffset : ℕ} {count : ℤ}
    {p : (T → FutexThread (AtomicsWaitCall T B)) × List ℕ}
    (hrefused : ∀ call ∈ toNotify s.log sarb byteOffset count, ¬ s.Refused call)
    (hp : s.atomicsNotify sarb byteOffset count = some p) :
    Counted { s with fx := p.1, log := s.log ++ [.notified sarb byteOffset count p.2.length p.2] } := by
  obtain rfl := h.atomicsNotify_eq hl hrefused hp
  refine ⟨fun t => ?_, justified_concat.2 ⟨h.chosen, rfl, rfl⟩, ?_, fun x result terminated hmem => ?_⟩
  · rw [selections_notified]
    exact h.orderly_notifyAll hl hrefused t
  · rw [selections_notified]
    refine nodup_append.2 ⟨h.once, ?_, fun w hw w' hw' heq => ?_⟩
    · have hsub : (toNotify s.log sarb byteOffset count).Sublist (pending s.log sarb) :=
        (firsts_sublist count _).trans filter_sublist
      exact (hsub.map _).nodup (hl.circles sarb).nodup
    · obtain ⟨call, hcall, rfl⟩ := mem_map.1 hw'
      exact (mem_toNotify hcall).2.2 (heq ▸ hw)
  · rw [mem_append] at hmem
    have hmem := hmem.resolve_right (by simp)
    obtain ⟨hok, hselected⟩ := h.results x result terminated hmem
    rw [selections_notified, mem_append]
    refine ⟨fun hresult => .inl (hok hresult), fun hx => ?_⟩
    obtain hx | hx := hx
    · exact hselected hx
    · -- a call that has returned is not selected any more
      obtain ⟨call, hcall, heq⟩ := mem_map.1 hx
      obtain ⟨hwaits, -, hreturned⟩ := mem_pending.1 (mem_toNotify hcall).1
      have hx : x ∈ returns s.log := mem_filterMap.2 ⟨_, hmem, rfl⟩
      exact absurd (hl.inj hwaits (hl.returned x hx) heq ▸ hx) hreturned

/-- Each step that heeds the waiting calls keeps the counts right. -/
theorem after (hl : s.Linked) {e : AgentEvent T B} (hheeds : s.Heeds e) (hstep : step e s = some s') : s'.Counted := by
  cases e with
  | wait t sarb byteOffset equal isTimed =>
    simp only [step] at hstep
    split_ifs at hstep with hrunning
    cases hstep
    unfold atomicsWait
    split_ifs with hno
    · exact h
    · rw [not_or, Bool.not_eq_false, Bool.not_eq_false] at hno
      exact h.arrive hl rfl isTimed hrunning (hheeds hno.1 hno.2)
  | wake t expired =>
    obtain ⟨p, hp, rfl⟩ := Option.map_eq_some_iff.1 hstep
    exact h.proceed ((h.orderly t).wake hp)
  | handled t result =>
    obtain ⟨p, hp, rfl⟩ := Option.map_eq_some_iff.1 hstep
    exact h.proceed ((h.orderly t).handled hp)
  | reported t =>
    obtain ⟨p, hp, rfl⟩ := Option.map_eq_some_iff.1 hstep
    exact h.proceed ((h.orderly t).reported hp)
  | interrupt t =>
    simp only [step] at hstep
    split_ifs at hstep with hwaiting
    · cases hstep
      exact h.update ((h.orderly t).interrupt hwaiting)
    · exact Option.some.inj hstep ▸ h
  | notify t sarb byteOffset count =>
    simp only [step] at hstep
    split_ifs at hstep
    obtain ⟨p, hp, rfl⟩ := Option.map_eq_some_iff.1 hstep
    exact h.notified hl hheeds hp

end

end Counted

lemma counted_init (canWait : T → Bool) (offset : ℕ → ℕ) (cx : ℕ → T) (lower_pri back : ℕ → ℕ) :
    (init canWait offset cx lower_pri back : Agents T B).Counted where
  orderly _ := .idle
  chosen := justified_nil
  once := nodup_nil
  results call result terminated hmem := by simp [init] at hmem

/-! ## Runs -/

/-- The lists of waiters are what they should be, and so are the notifications and what comes of them. -/
structure Served (s : Agents T B) : Prop where
  circles : ∀ sarb, IsCircle s.lower_pri s.back (s.waiters sarb) ((pending s.log sarb).map w)
  calls : ∀ call, call ∈ pending s.log call.sarb ↔ call ∈ (s.fx call.cx).data
  distinct : ((waits s.log).map w).Nodup
  ok : ∀ call terminated, .returned call .OK terminated ∈ s.log → ∃ count woken selected,
    .notified call.sarb call.byteOffset count woken selected ∈ s.log ∧ call.w ∈ selected
  counted : ∀ call result terminated, .returned call result terminated ∈ s.log → call.w ∈ selections s.log →
    result = .OK ∨ terminated = true
  /-- A call that has been counted and has not returned will find out. -/
  woken : ∀ sarb, ∀ call ∈ pending s.log sarb, call.w ∈ selections s.log → (s.fx call.cx).state_ = .Woken
  once : (selections s.log).Nodup
  chosen : Justified Chosen s.log
  ends : s.fresh < 2 ^ 63 → ∀ sarb byteOffset count, ∃ p, s.atomicsNotify sarb byteOffset count = some p

lemma Counted.serves (h : s.Counted) (hl : s.Linked) : s.Served where
  circles := hl.circles
  calls := hl.calls
  distinct := hl.nodup
  ok call terminated hmem := by
    have hselected := (h.results call .OK terminated hmem).1 rfl
    obtain ⟨x, hx, heq, hnotified⟩ := h.exists_waited hselected
    have hcall := hl.returned call (mem_filterMap.2 ⟨_, hmem, rfl⟩)
    obtain rfl := hl.inj hx hcall heq
    exact hnotified
  counted call result terminated hmem := (h.results call result terminated hmem).2
  woken sarb call hcall hselected := by
    obtain ⟨c, hc, hdata⟩ := hl.mem_calls hcall
    refine (h.orderly call.cx).woken hc (fun hpoint => ?_) (hdata ▸ hselected)
    exact h.refused_not_selected ⟨c, hc, hdata, hpoint⟩ hselected
  once := h.once
  chosen := h.chosen
  ends hlimit sarb byteOffset count := hl.atomicsNotify_ends hlimit sarb byteOffset count

/-- After every run whose steps heed the waiting calls, the list of each buffer consists of the pending calls
in the order in which they arrived, and those calls return `OK` that notifications have selected, each the
first ones at its location. -/
theorem served {canWait : T → Bool} {offset : ℕ → ℕ} {cx : ℕ → T} {lower_pri back : ℕ → ℕ}
    {es : List (AgentEvent T B)} (hrun : run step es (init canWait offset cx lower_pri back) = some s)
    (hheeds : Along Heeds step es (init canWait offset cx lower_pri back)) : s.Served := by
  have hinv : s.Counted ∧ s.Linked := invariant_along
    (I := fun s => s.Counted ∧ s.Linked) (fun e s s' h he hstep => ⟨h.1.after h.2 he hstep, h.2.after hstep⟩)
    ⟨counted_init .., linked_init ..⟩ hheeds hrun
  exact hinv.1.serves hinv.2

/-- Two agents, of which one can be told from the other by a Boolean, and one buffer. -/
def start : Agents Bool Unit := init (fun _ => true) (fun _ => 0) (fun _ => true) id id

/-- An agent waits, and another one notifies it. -/
def waitAndNotify : List (AgentEvent Bool Unit) :=
  [.wait false () 0 true false, .notify true () 0 1, .wake false false]

theorem served_waitAndNotify : ∃ s, run step waitAndNotify start = some s ∧
    .returned ⟨0, false, (), 0⟩ .OK false ∈ s.log ∧ s.Served := by
  have hheeds : Along Heeds step waitAndNotify start := by
    refine along_cons rfl (fun _ _ => .inl rfl) (along_cons rfl ?_ ?_)
    · rintro call hcall ⟨c, hc, -, hpoint⟩
      obtain rfl : call = ⟨0, false, (), 0⟩ := mem_singleton.1 hcall
      obtain rfl := mem_singleton.1 hc
      simp at hpoint
    · exact along_cons rfl trivial trivial
  exact ⟨_, rfl, by decide, @served Bool Unit _ _ _ (fun _ => true) _ _ _ _ waitAndNotify rfl hheeds⟩

/-- An agent that waits is interrupted, its handler waits at another location and is refused, and meanwhile
another agent notifies this location. -/
def notifyRefused : List (AgentEvent Bool Unit) :=
  [.wait false () 0 true false, .interrupt false, .wake false false, .wait false () 4 true false,
    .notify true () 4 1, .reported false, .handled false true]

/-- The call that was counted returns an error, and the other one `OK`. -/
theorem notifyRefused_not_served : ∃ s, run step notifyRefused start = some s ∧
    .notified () 4 1 1 [1] ∈ s.log ∧ .returned ⟨1, false, (), 4⟩ .Error false ∈ s.log ∧
    .returned ⟨0, false, (), 0⟩ .OK false ∈ s.log ∧ ¬ s.Served := by
  refine ⟨_, rfl, by decide, by decide, by decide, fun h => ?_⟩
  have := h.counted ⟨1, false, (), 4⟩ .Error false (by decide) (by decide)
  exact absurd this (by decide)

end Agents

end SpiderMonkey
